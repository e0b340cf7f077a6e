import IrView.Json.Printer
import IrView.Render.Layout

/-!
# Display graphs in JSON

Display graphs and layout inputs as JSON values. A member for something that is absent is left
out.
-/

namespace IrView

open Json (Value)

namespace Display

/-- A color as JSON. -/
def Color.toJson (c : Color) : Value :=
  .record [("background", .ofString c.background), ("highlight", .ofString c.highlight)]

/-- The name of an arrow head. -/
def Arrow.name : Arrow → String
  | .arrow => "arrow"
  | .circle => "circle"
  | .none => "none"

/-- A member that is left out if its value is absent. -/
def memberOf {α : Type} (name : String) (encode : α → Value) (value : Option α) :
    List (String × Value) :=
  (value.map fun v => (name, encode v)).toList

/-- A natural number as JSON. -/
def ofNat (n : Nat) : Value :=
  .ofInt n

variable {N E : Type}

/-- A node as JSON. -/
def Node.toJson (n : Node N) : Value :=
  .record
    ([("id", .ofInt n.id), ("name", .ofString n.name), ("label", .ofString n.label)] ++
      memberOf "title" .ofString n.title ++
      memberOf "color" Color.toJson n.color ++
      memberOf "group_id" .ofString n.group ++
      memberOf "container_group_id" .ofString n.container ++
      [("dashed_border", .bool n.dashed), ("hidden", .bool n.hidden)] ++
      memberOf "border_width" ofNat n.borderWidth ++
      memberOf "level" .ofInt n.level ++
      memberOf "end_link" .ofInt n.endLink)

/-- An edge as JSON. -/
def Edge.toJson (e : Edge E) : Value :=
  .record
    ([("from", .ofInt e.source), ("to", .ofInt e.target), ("label", .ofString e.label)] ++
      memberOf "title" .ofString e.title ++
      memberOf "color" Color.toJson e.color ++
      [("dashed", .bool e.dashed), ("hidden", .bool e.hidden),
        ("arrow", .ofString e.arrow.name)] ++
      memberOf "width" ofNat e.width ++
      [("is_backedge", .bool e.isBackedge)])

/-- A display graph as JSON. -/
def Graph.toJson (g : Graph N E) : Value :=
  .record
    [("nodes", .array (g.nodes.map Node.toJson)), ("edges", .array (g.edges.map Edge.toJson))]

end Display

namespace Layout

open Display (memberOf ofNat)

/-- A node as JSON. -/
def Node.toJson (n : Node) : Value :=
  .record
    ([("id", .ofInt n.id), ("width", ofNat n.width), ("height", ofNat n.height)] ++
      memberOf "level" .ofInt n.level ++ memberOf "container" .ofString n.container)

/-- An edge as JSON. -/
def Edge.toJson (e : Edge) : Value :=
  .record
    [("from", .ofInt e.source), ("to", .ofInt e.target), ("is_backedge", .bool e.isBackedge)]

/-- A container as JSON. -/
def Container.toJson (c : Container) : Value :=
  .record [("id", .ofString c.id), ("members", .array (c.members.map .ofInt))]

/-- A layout input as JSON. -/
def Input.toJson (input : Input) : Value :=
  .record
    [("nodes", .array (input.nodes.map Node.toJson)),
      ("edges", .array (input.edges.map Edge.toJson)),
      ("containers", .array (input.containers.map Container.toJson))]

end Layout

end IrView
