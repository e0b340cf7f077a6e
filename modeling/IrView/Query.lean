import IrView.Display.Basic
import IrView.Text.Basic
import IrView.Text.Lowercase

/-!
# Questions about a display graph

Nodes can be searched by their label, and a graph can be narrowed to a node and its neighbors.
-/

namespace IrView

namespace Display.Graph

variable {N E : Type}

/-- The nodes whose label contains a text, in any case, in the order of the graph. The empty text
is found nowhere. -/
def search (g : Graph N E) (text : String) : List NodeId :=
  if text.isEmpty then []
  else
    let text := Text.lowercase text
    (g.nodes.filter fun n => Text.contains (Text.lowercase n.label) text).map Node.id

/-- Whether an id is `center` or shares an edge with it. -/
def isNear (g : Graph N E) (center id : NodeId) : Bool :=
  id == center || g.edges.any fun e =>
    (e.source == center && e.target == id) || (e.target == center && e.source == id)

/-- A node and its neighbors, in the order of the graph; nothing if there is no such node. -/
def neighborhood (g : Graph N E) (center : NodeId) : List NodeId :=
  if (g.node? center).isNone then []
  else (g.nodes.map Node.id).filter (g.isNear center)

/-- The graph with everything outside a neighborhood hidden. -/
def focus (g : Graph N E) (center : NodeId) : Graph N E :=
  let kept := g.neighborhood center
  { g with
    nodes := g.nodes.map fun n => { n with hidden := n.hidden || !kept.contains n.id }
    edges := g.edges.map fun e =>
      { e with hidden := e.hidden || !kept.contains e.source || !kept.contains e.target } }

end Display.Graph

end IrView
