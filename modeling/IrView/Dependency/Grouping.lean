import IrView.Dependency.Basic
import IrView.Lookup

/-!
# Grouping and turning dependency edges

Parallel edges can be drawn as one edge that names all their relations. Schedule edges can be
turned so that all of them point the same way.
-/

namespace IrView

namespace Dependency

/-! ### Grouping -/

/-- The two nodes of an edge, in the direction of the edge. -/
def Edge.ends (e : Edge) : NodeId × NodeId :=
  (e.source, e.target)

/-- The relation of parallel edges: that of a single edge, and unknown for several. -/
def commonRelation : List Edge → Relation
  | [e] => e.relation
  | _ => .unknown

/-- One edge for parallel ones. Its label holds their labels in ascending order. -/
def merge (ends : NodeId × NodeId) (parallel : List Edge) : Edge :=
  { source := ends.1
    target := ends.2
    label := "/".intercalate ((parallel.map Edge.label).mergeSort fun a b => a ≤ b)
    relation := commonRelation parallel }

/-- One edge for each pair of ends, in the order in which the pairs first appear. -/
def group (edges : List Edge) : List Edge :=
  let filled : Grouping (NodeId × NodeId) Edge := edges.foldl (fun g e => g.add e.ends e) {}
  filled.groups.map fun (ends, parallel) => merge ends parallel

/-! ### Schedule edges -/

/-- Turns a `before` edge around into an `after` edge. -/
def Edge.canonical (e : Edge) : Edge :=
  match e.relation.turned? with
  | some relation => ⟨e.target, e.source, relation.wireName, relation⟩
  | none => e

end Dependency

end IrView
