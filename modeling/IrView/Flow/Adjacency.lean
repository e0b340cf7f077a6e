import Std.Data.HashSet
import IrView.Lookup

/-!
# The graph that a walk sees

A walk follows numbered edges between nodes. An edge may lead to an id that is no node, and the
same id may be listed as a node more than once; the nodes count once, in the order in which they
first appear.
-/

namespace IrView

namespace Flow

/-- An edge as seen from its source. -/
structure Arc where
  /-- The number of the edge. -/
  index : Nat
  target : NodeId
  deriving DecidableEq, Repr

/-- A numbered edge. -/
structure Edge where
  index : Nat
  source : NodeId
  target : NodeId
  deriving DecidableEq, Repr

/-- The edge as seen from its source. -/
def Edge.arc (e : Edge) : Arc :=
  ⟨e.index, e.target⟩

/-- Nodes and the edges that leave them. -/
structure Adjacency where
  /-- The nodes, each once. -/
  order : List NodeId
  nodup_order : order.Nodup
  /-- The nodes as a set. -/
  known : Std.HashSet NodeId
  mem_known : ∀ id, id ∈ known ↔ id ∈ order
  /-- The edges that leave an id. -/
  leaving : Std.HashMap NodeId (List Arc)

namespace Adjacency

/-- The graph with the given nodes and edges. -/
def ofLists (nodes : List NodeId) (edges : List Edge) : Adjacency where
  order := nodes.eraseDups
  nodup_order := Lookup.nodup_eraseDups nodes
  known := .ofList nodes
  mem_known := by simp
  leaving := Lookup.gather (edges.map fun e => (e.source, e.arc))

/-- Whether the id is that of a node. -/
def contains (g : Adjacency) (id : NodeId) : Bool :=
  g.known.contains id

/-- The edges that leave an id, in the order of the list of edges. -/
def arcs (g : Adjacency) (id : NodeId) : List Arc :=
  g.leaving.getD id []

/-- The number of nodes. -/
def size (g : Adjacency) : Nat :=
  g.order.length

/-- Whether there is no node. -/
def isEmpty (g : Adjacency) : Bool :=
  g.order.isEmpty

theorem contains_iff {g : Adjacency} {id : NodeId} : g.contains id = true ↔ id ∈ g.order := by
  rw [contains, Std.HashSet.contains_iff_mem, g.mem_known]

theorem mem_order_ofLists {nodes : List NodeId} {edges : List Edge} {id : NodeId} :
    id ∈ (ofLists nodes edges).order ↔ id ∈ nodes := by
  simp [ofLists]

theorem arcs_ofLists (nodes : List NodeId) (edges : List Edge) (id : NodeId) :
    (ofLists nodes edges).arcs id = (edges.filter fun e => e.source == id).map Edge.arc := by
  rw [arcs, ofLists, Lookup.gather_getD]
  simp [List.filter_map, Function.comp_def]

end Adjacency

end Flow

end IrView
