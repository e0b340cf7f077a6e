import IrView.Display.Basic
import IrView.Style

/-!
# Legends

A legend is a small fixed graph that explains the colors of a view.
-/

namespace IrView

namespace View

/-- What a node of a legend stands for. -/
structure LegendNode where
  id : NodeId
  name : String
  deriving DecidableEq, Repr

/-- What an edge of a legend stands for. -/
structure LegendEdge where
  source : NodeId
  target : NodeId
  deriving DecidableEq, Repr

/-- A legend is not walked through. -/
instance : NodeRecord LegendNode where
  id n := n.id
  name n := n.name

/-- A legend has no blocks. -/
instance : EdgeRecord LegendEdge where
  source e := e.source
  target e := e.target

/-- A legend. -/
abbrev Legend := Display.Graph LegendNode LegendEdge

/-- A node of a legend. -/
def legendNode (id : NodeId) (name color : String) : Display.Node LegendNode :=
  (Display.Node.ofRecord ⟨id, name⟩ name).colored color

/-- An edge of a legend. -/
def legendEdge (source target : NodeId) (label color : String) : Display.Edge LegendEdge :=
  (Display.Edge.ofRecord ⟨source, target⟩ label).colored color

/-- The legend of the views of instructions: a loop around a condition. -/
def cfgLegend : Legend where
  nodes :=
    [{ legendNode 1 "BB" Style.gotoColor with
        level := some 0, title := some "basic block with \"GOTO\" as EndInst" },
      { legendNode 2 "IF" Style.branchColor with
        level := some 1, title := some "if statement" },
      { legendNode 3 "BB" Style.gotoColor with level := some 2 },
      { legendNode 4 "Return" Style.returnColor with
        level := some 2, title := some "return statement" }]
  edges :=
    [legendEdge 1 2 "" Style.flowColor,
      { legendEdge 2 4 "T" Style.trueBranchColor with
        title := some "true branch of an if statement" },
      { legendEdge 2 3 "F" Style.falseBranchColor with
        title := some "false branch of an if statement" },
      { legendEdge 3 2 "" Style.backedgeColor with
        title := some "backedge", isBackedge := true }]

/-- The legend of the dependency view: a node for each flavor and an edge for each color. -/
def dependencyLegend : Legend where
  nodes :=
    [legendNode 1 "pass" Style.passColor,
      legendNode 2 "artifact" Style.artifactColor,
      legendNode 3 "pass + artifact" Style.passArtifactColor,
      { legendNode 4 "disabled" Style.disabledColor with dashed := true }]
  edges :=
    [legendEdge 1 2 "requires" Style.relationColor,
      legendEdge 3 2 "modifies" Style.modifiesColor,
      legendEdge 3 1 "schedule-after" Style.orderColor,
      legendEdge 4 1 "schedule-imm-before" Style.immediateOrderColor]

end View

end IrView
