import IrView.Display.Collapse
import IrView.Form
import IrView.Style

/-!
# The control flow of a pass

The control flow view shows the instructions that begin or end a basic block and the edges between
them, or one node for each block.
-/

namespace IrView

namespace View

/-! ### Instructions in general -/

/-- An instruction with a label, in the color of its kind. -/
def instructionNode (n : Hir.Node) (label : String) : Display.Node Hir.Node :=
  (Display.Node.ofRecord n label).colored (Style.nodeColor n.kind false)

/-- An edge between instructions with a label, in the color and dashes of its kind. -/
def instructionEdge (e : Hir.Edge) (label : String) : Display.Edge Hir.Edge :=
  { (Display.Edge.ofRecord e label).colored (Style.edgeColor e) with
    dashed := Style.isDashed e.kind }

/-- Walks do not follow edges to operands. -/
def isFollowed (e : Hir.Edge) : Bool :=
  e.kind != .operand

/-! ### Control flow -/

/-- What the control flow view shows. -/
structure CfgOptions where
  /-- One node for each basic block. -/
  collapseBlocks : Bool := true
  /-- Conditional edges are labeled. -/
  branchLabels : Bool := true
  markBackedges : Bool := true
  assignLevels : Bool := true
  deriving DecidableEq, Repr

/-- The summary of a block: its first and last instruction, and what the last one does unless it
only jumps. -/
def summarizeBlock (entry last : Display.Node Hir.Node) : Display.Summary :=
  let ids := "BB #" ++ toString entry.id ++ " ⇒ #" ++ toString last.id
  let terminator := last.record
  { label := if terminator.kind = .goto then ids else ids ++ "\n" ++ Style.shortLabel terminator
    color := Style.nodeColor terminator.kind true }

/-- How the control flow view is built. -/
def cfgStrategy (options : CfgOptions) : Display.Strategy Hir.Node Hir.Edge where
  node n := instructionNode n (Style.nodeLabel n)
  edge e :=
    instructionEdge e (if options.branchLabels then (Style.branchLabel? e).getD "" else "")
  follows := isFollowed
  summarize := if options.collapseBlocks then some summarizeBlock else none
  markBackedges := options.markBackedges
  assignLevels := options.assignLevels

/-- The control flow view. -/
def cfg (options : CfgOptions) (hir : Hir.Graph) : Display.Graph Hir.Node Hir.Edge :=
  Display.build (cfgStrategy options) (hir.nodes.filter fun n => n.kind.isControl)
    (hir.edges.filter fun e => e.kind.isControlFlow)

end View

end IrView
