import IrView.Record
import IrView.View.Cfg

/-!
# All instructions of a pass

The detail view shows every instruction and every edge. An instruction that belongs to a basic
block is drawn inside the box of the block, a floating one with a dashed border.
-/

namespace IrView

namespace View

/-- What the detail view shows. -/
structure DetailOptions where
  hideSourceStates : Bool := true
  /-- Hide the instructions that belong to no block. -/
  hideFloating : Bool := false
  markBackedges : Bool := false
  deriving DecidableEq, Repr

/-- The number of block styles before they repeat. -/
def groupCount : Int := 8

/-- The label of an instruction and, on a further line, its value type and its block; the block
ends two characters behind the longer of both lines. -/
def detailLabel (n : Hir.Node) : String :=
  let label := Style.nodeLabel n
  let typeName := Style.displayType n.typeName
  match n.block with
  | some block =>
    let block := "BB " ++ toString block
    let used := typeName.length + block.length
    let width := max label.length used + 2
    label ++ "\n\n" ++ typeName ++ String.ofList (List.replicate (width - used) ' ') ++ block
  | none => label ++ "\n\n" ++ typeName

/-- An instruction in the detail view. -/
def detailNode (n : Hir.Node) : Display.Node Hir.Node :=
  let node := instructionNode n (detailLabel n)
  match n.block with
  | some block =>
    { node with
      container := some (toString block)
      group := some (toString (block % groupCount))
      borderWidth := some (if n.kind.isControl then 3 else 2) }
  | none => { node with dashed := true, borderWidth := some 1 }

/-- The head of an edge of the kind. -/
def arrowOf (kind : Hir.EdgeKind) : Display.Arrow :=
  match kind with
  | .operand => .circle
  | .block => .none
  | _ => .arrow

/-- An edge in the detail view. -/
def detailEdge (e : Hir.Edge) : Display.Edge Hir.Edge :=
  { instructionEdge e (Style.edgeLabel e) with arrow := arrowOf e.kind }

/-- How the detail view is built. -/
def detailStrategy (options : DetailOptions) : Display.Strategy Hir.Node Hir.Edge where
  node := detailNode
  edge := detailEdge
  follows := isFollowed
  markBackedges := options.markBackedges

/-- Whether the options hide an instruction. -/
def DetailOptions.hides (options : DetailOptions) (n : Hir.Node) : Bool :=
  (options.hideSourceStates && n.kind == .sourceState) ||
    (options.hideFloating && n.block.isNone)

/-- The detail view. -/
def detail (options : DetailOptions) (hir : Hir.Graph) : Display.Graph Hir.Node Hir.Edge :=
  let removed := removedIds options.hides hir.nodes
  Display.build (detailStrategy options) (keepNodes removed hir.nodes)
    (keepEdges removed hir.edges)

end View

end IrView
