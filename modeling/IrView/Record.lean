/-!
# Graph records

Graphs of different origin are drawn by the same means. A record class says what drawing needs to
know of a node or an edge, whatever else the record holds.

Nodes are removed from a graph by their ids, and with them every edge that touches one of them. An
id that several nodes share is removed with all of them.
-/

namespace IrView

/-! ### Records -/

/-- Identifier of a node, unique inside one graph only. -/
abbrev NodeId := Int

/-- What is needed of a node. -/
class NodeRecord (N : Type) where
  id : N → NodeId
  name : N → String
  /-- Walks through the graph start at the flagged root. -/
  isRoot : N → Bool := fun _ => false
  /-- Whether the node begins a basic block. -/
  isBlockEntry : N → Bool := fun _ => false

/-- What is needed of an edge. -/
class EdgeRecord (E : Type) where
  source : E → NodeId
  target : E → NodeId
  /-- Whether the edge leads from the entry of a basic block to its end. -/
  isBlockLink : E → Bool := fun _ => false

/-! ### Removing nodes -/

variable {N E : Type}

/-- The ids of the nodes to remove. -/
def removedIds [NodeRecord N] (remove : N → Bool) (nodes : List N) : List NodeId :=
  (nodes.filter remove).map NodeRecord.id

/-- The nodes that stay. -/
def keepNodes [NodeRecord N] (removed : List NodeId) (nodes : List N) : List N :=
  nodes.filter fun n => !removed.contains (NodeRecord.id n)

/-- The edges between nodes that stay. -/
def keepEdges [EdgeRecord E] (removed : List NodeId) (edges : List E) : List E :=
  edges.filter fun e =>
    !removed.contains (EdgeRecord.source e) && !removed.contains (EdgeRecord.target e)

end IrView
