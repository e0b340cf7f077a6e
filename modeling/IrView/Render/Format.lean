import IrView.Fault
import IrView.Render.Dot
import IrView.Render.Encoding
import IrView.Render.Outline

/-!
# Output formats

A display graph is written as DOT, as JSON, as the input of a layout engine, or as plain text.
-/

namespace IrView

/-- A way to write a display graph. -/
inductive OutputFormat where
  | dot
  | json
  | layout
  | text
  deriving DecidableEq, Repr

namespace OutputFormat

/-- The name of a format, as it is shown. -/
def name : OutputFormat → String
  | dot => "dot"
  | json => "json"
  | layout => "layout"
  | text => "text"

/-- The format with the given name. -/
def ofName? : String → Option OutputFormat
  | "dot" => some dot
  | "json" => some json
  | "layout" => some layout
  | "text" => some text
  | _ => none

/-- The format that a user names. -/
def read (name : String) : Except Fault OutputFormat :=
  match ofName? name with
  | some format => .ok format
  | none => .error
      { kind := .invalidArgument
        message := s!"unknown format '{name}', use 'dot', 'json', 'layout' or 'text'"
        operation := "cli::parse_format" }

end OutputFormat

/-- How a display graph is written. -/
structure RenderOptions where
  format : OutputFormat := .dot
  /-- The name of the graph in DOT. -/
  graphName : String := "irscope"
  /-- Draw boxes around the nodes of one container in DOT. -/
  cluster : Bool := true
  /-- Write JSON over several lines. -/
  pretty : Bool := true
  deriving DecidableEq, Repr

/-- The text of a display graph. There always is one: the members of a display graph and of a layout
input are texts, truth values and whole numbers under fixed keys, so there is nothing in them that
cannot be written as JSON, and no fault of the kind `serializationFailed` arises. -/
def render {N E : Type} (options : RenderOptions) (g : Display.Graph N E) : String :=
  match options.format with
  | .dot => Dot.render g options.graphName options.cluster
  | .json => g.toJson.text options.pretty
  | .layout => (Layout.ofGraph g).toJson.text options.pretty
  | .text => Outline.render g

end IrView
