import IrView.Record

/-!
# Display graphs

A display graph says how each node and each edge is drawn: label, color, level and so on. Every
element keeps the record that it stands for. Building a graph never fails; what was passed over or
repaired is told by its diagnostics.
-/

namespace IrView

namespace Display

/-! ### Elements -/

/-- The fill color of an element, and its color while it is selected. -/
structure Color where
  background : String
  highlight : String
  deriving DecidableEq, Repr

/-- The same color for both states. -/
def Color.uniform (color : String) : Color :=
  ⟨color, color⟩

/-- The head of an edge. -/
inductive Arrow where
  | arrow
  | circle
  | none
  deriving DecidableEq, Repr

/-- A node as it is drawn. -/
structure Node (N : Type) where
  id : NodeId
  name : String
  label : String
  title : Option String := none
  color : Option Color := none
  /-- Nodes of one group are styled alike. -/
  group : Option String := none
  /-- Nodes of one container are drawn inside one box. -/
  container : Option String := none
  dashed : Bool := false
  hidden : Bool := false
  borderWidth : Option Nat := none
  level : Option Int := none
  /-- For a node that stands for a whole block: the end of the block. -/
  endLink : Option NodeId := none
  record : N
  deriving Repr

/-- An edge as it is drawn. -/
structure Edge (E : Type) where
  source : NodeId
  target : NodeId
  label : String
  title : Option String := none
  color : Option Color := none
  dashed : Bool := false
  hidden : Bool := false
  arrow : Arrow := .arrow
  width : Option Nat := none
  isBackedge : Bool := false
  record : E
  deriving Repr

variable {N E : Type}

/-- The plain node of a record. -/
def Node.ofRecord [NodeRecord N] (record : N) (label : String) : Node N :=
  { id := NodeRecord.id record, name := NodeRecord.name record, label, record }

/-- The node in a color. -/
def Node.colored (n : Node N) (color : String) : Node N :=
  { n with color := some (.uniform color) }

/-- The plain edge of a record. -/
def Edge.ofRecord [EdgeRecord E] (record : E) (label : String) : Edge E :=
  { source := EdgeRecord.source record, target := EdgeRecord.target record, label, record }

/-- The edge in a color. -/
def Edge.colored (e : Edge E) (color : String) : Edge E :=
  { e with color := some (.uniform color) }

/-! ### Graphs -/

/-- What was passed over or repaired while a graph was built. -/
structure Diagnostics where
  /-- Entries of blocks whose end was not found, so that the block was left as it is. -/
  skippedCollapses : List NodeId := []
  /-- Edges that were dropped because one of their ends is no node. -/
  droppedEdges : Nat := 0
  /-- Whether a walk was asked for and no root was found. -/
  missingRoot : Bool := false
  backedges : Nat := 0
  /-- Nodes that the root does not reach. -/
  unreachedNodes : Nat := 0
  deriving DecidableEq, Repr

/-- Whether nothing was passed over. -/
def Diagnostics.isClean (d : Diagnostics) : Bool :=
  d.skippedCollapses.isEmpty && d.droppedEdges == 0 && !d.missingRoot

/-- A display graph. -/
structure Graph (N E : Type) where
  nodes : List (Node N)
  edges : List (Edge E)
  diagnostics : Diagnostics := {}
  deriving Repr

namespace Graph

/-- The first node with the id. -/
def node? (g : Graph N E) (id : NodeId) : Option (Node N) :=
  g.nodes.find? fun n => n.id == id

theorem isSome_node?_iff {g : Graph N E} {id : NodeId} :
    (g.node? id).isSome = true ↔ id ∈ g.nodes.map Node.id := by
  rw [node?, List.find?_isSome]
  simp

/-- The first edge between the two ids. -/
def edge? (g : Graph N E) (source target : NodeId) : Option (Edge E) :=
  g.edges.find? fun e => e.source == source && e.target == target

/-- The edges that close a cycle. -/
def backedges (g : Graph N E) : List (Edge E) :=
  g.edges.filter Edge.isBackedge

/-- Whether there is no node. -/
def isEmpty (g : Graph N E) : Bool :=
  g.nodes.isEmpty

end Graph

end Display

end IrView
