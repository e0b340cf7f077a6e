import IrView.Record

/-!
# Dependencies between passes

The passes of a compiler and the artifacts they work on form a graph. Its edges say what a pass
requires, provides or modifies, and which pass is scheduled before or after which.
-/

namespace IrView

namespace Dependency

/-! ### Relations -/

/-- Relation between two nodes. -/
inductive Relation where
  | unknown
  | requires
  | provides
  | modifies
  | before
  | after
  | immediatelyBefore
  | immediatelyAfter
  deriving DecidableEq, Repr

namespace Relation

/-- All relations. -/
def all : List Relation :=
  [unknown, requires, provides, modifies, before, after, immediatelyBefore, immediatelyAfter]

/-- The name of a relation in the dump. -/
def wireName : Relation → String
  | unknown => "Unknown"
  | requires => "requires"
  | provides => "provides"
  | modifies => "modifies"
  | before => "schedule-before"
  | after => "schedule-after"
  | immediatelyBefore => "schedule-imm-before"
  | immediatelyAfter => "schedule-imm-after"

/-- The relation with the given name. -/
def ofName (name : String) : Relation :=
  (all.find? fun relation => relation.wireName == name).getD unknown

/-- Whether the relation orders the schedule. -/
def isSchedule : Relation → Bool
  | before | after | immediatelyBefore | immediatelyAfter => true
  | _ => false

/-- The `after` relation that a `before` relation becomes when its edge is turned around. -/
def turned? : Relation → Option Relation
  | before => some after
  | immediatelyBefore => some immediatelyAfter
  | _ => none

end Relation

/-! ### Graphs -/

/-- A pass or an artifact. -/
structure Node where
  id : NodeId
  name : String
  isPass : Bool
  isArtifact : Bool
  enabled : Bool
  deriving DecidableEq, Repr

/-- An edge between two nodes. Its label may name several relations; then the relation is
unknown. -/
structure Edge where
  source : NodeId
  target : NodeId
  label : String
  relation : Relation
  deriving DecidableEq, Repr

/-- The edge whose relation is given by its label. -/
def Edge.ofLabel (source target : NodeId) (label : String) : Edge :=
  ⟨source, target, label, .ofName label⟩

/-- The dependency graph of all passes. -/
structure Graph where
  nodes : List Node
  edges : List Edge
  deriving DecidableEq, Repr

/-- A dependency graph has no root of its own and no blocks. -/
instance : NodeRecord Node where
  id n := n.id
  name n := n.name

/-- No dependency is a block link. -/
instance : EdgeRecord Edge where
  source e := e.source
  target e := e.target

end Dependency

end IrView
