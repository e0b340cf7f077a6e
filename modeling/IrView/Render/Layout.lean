import Std.Data.HashSet
import IrView.Display.Basic
import IrView.Lookup
import IrView.Text.Basic

/-!
# Input of a layout engine

A layout engine is told the size of each node, which edges there are, and which nodes belong into
one box.
-/

namespace IrView

namespace Layout

/-- Sizes are 32-bit words; written, they are numbers. -/
instance coeSize : CoeOut UInt32 Nat :=
  ⟨UInt32.toNat⟩

/-- Width and height of a node with the label. -/
def nodeSize (label : String) : UInt32 × UInt32 :=
  if label.isEmpty then (200, 45)
  else
    let lines := Text.lines label
    let longest := (lines.map String.length).max?.getD 0
    (50 + 10 * longest.toUInt32, 20 + 25 * lines.length.toUInt32)

/-- A node to lay out. -/
structure Node where
  id : NodeId
  width : UInt32
  height : UInt32
  level : Option Int
  container : Option String
  deriving DecidableEq, Repr

/-- An edge to lay out. A backedge should not pull its target up. -/
structure Edge where
  source : NodeId
  target : NodeId
  isBackedge : Bool
  deriving DecidableEq, Repr

/-- Nodes that belong into one box. -/
structure Container where
  id : String
  members : List NodeId
  deriving DecidableEq, Repr

/-- The input of a layout engine. -/
structure Input where
  nodes : List Node
  edges : List Edge
  containers : List Container
  deriving DecidableEq, Repr

variable {N E : Type}

/-- A display node to lay out. -/
def ofNode (n : Display.Node N) : Node :=
  let (width, height) := nodeSize n.label
  { id := n.id, width, height, level := n.level, container := n.container }

/-- A display edge to lay out. -/
def ofEdge (e : Display.Edge E) : Edge :=
  ⟨e.source, e.target, e.isBackedge⟩

/-- What has been said of some nodes. -/
structure Draft where
  nodes : List Node := []
  /-- The ids of the nodes. -/
  shown : Std.HashSet NodeId := ∅
  grouping : Grouping String NodeId := {}

/-- The draft with one more node. -/
def Draft.add (draft : Draft) (n : Display.Node N) : Draft where
  nodes := draft.nodes ++ [ofNode n]
  shown := draft.shown.insert n.id
  grouping := match n.container with
    | some container => draft.grouping.add container n.id
    | none => draft.grouping

/-- All nodes that are not hidden. -/
def draft (g : Display.Graph N E) : Draft :=
  (g.nodes.filter fun n => !n.hidden).foldl Draft.add {}

/-- A display graph to lay out. -/
def ofGraph (g : Display.Graph N E) : Input :=
  let draft := draft g
  let edges := g.edges.filter fun e =>
    !e.hidden && draft.shown.contains e.source && draft.shown.contains e.target
  { nodes := draft.nodes
    edges := edges.map ofEdge
    containers := draft.grouping.groups.map fun (id, members) => ⟨id, members⟩ }

end Layout

end IrView
