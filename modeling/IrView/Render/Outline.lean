import IrView.Display.Basic
import IrView.Text.Basic

/-!
# Plain text

The outline of a display graph has a line for each node and then a line for each edge. Labels of
several lines are folded, so a line break always ends an element. Hidden elements are left out.
-/

namespace IrView

namespace Outline

variable {N E : Type}

/-- The level of a node in brackets. -/
def levelText (level : Option Int) : String :=
  match level with
  | some l => "[" ++ toString l ++ "] "
  | none => "[-] "

/-- The line of a node. -/
def nodeLine (n : Display.Node N) : String :=
  levelText n.level ++ toString n.id ++ ": " ++ Text.fold n.label ++ "\n"

/-- The line of an edge. -/
def edgeLine (e : Display.Edge E) : String :=
  toString e.source ++ " -> " ++ toString e.target ++
    (if e.label.isEmpty then "" else " " ++ Text.fold e.label) ++
    (if e.isBackedge then " (backedge)" else "") ++ "\n"

/-- The outline of a display graph. -/
def render (g : Display.Graph N E) : String :=
  String.join ((g.nodes.filter fun n => !n.hidden).map nodeLine) ++
    String.join ((g.edges.filter fun e => !e.hidden).map edgeLine)

end Outline

end IrView
