import IrView.Query
import IrView.Render.Format
import IrView.Text.Basic
import IrView.View.Dependency
import IrView.View.Detail
import IrView.View.Kind
import IrView.View.Legend
import IrView.View.Lir

/-!
# Answering a request

A request asks for a view of a method: drawn as a whole, narrowed to the neighborhood of a node,
searched for a text, or explained by its legend. A view of a single pass is made of the pass that
the request names, or else of the last pass that left the form of the method that the view shows.

Which passes there are is told by a table. It has the header of the method and a row for each pass:
its position, its name, the time it took in milliseconds and as a share of the whole, and the forms
of the method that it left.
-/

namespace IrView

namespace Cli

/-- What is asked of a dump. -/
structure Request where
  view : ViewKind := .cfg
  /-- A pass, by position or by name. -/
  pass : Option String := none
  format : OutputFormat := .dot
  cfg : View.CfgOptions := {}
  detail : View.DetailOptions := {}
  dependency : View.DependencyOptions := {}
  /-- Draw the legend of the view. -/
  legend : Bool := false
  /-- List the nodes whose label contains the text. -/
  search : Option String := none
  /-- Draw only the neighborhood of the node. -/
  focus : Option NodeId := none
  /-- List the passes. -/
  listPasses : Bool := false
  ignorePrinters : Bool := false
  /-- Draw boxes around containers. -/
  cluster : Bool := true

/-! ### Choosing a pass -/

/-- Whether the pass left what the view shows. -/
def carries (view : ViewKind) (p : Pass) : Bool :=
  match view with
  | .cfg | .detail => p.hir.isSome
  | .lir => p.lir.isSome
  | .dependency => true

/-- The pass that is named, or else the last one that left what the view shows. -/
def choosePass (m : Method) (view : ViewKind) (selector : Option String) : Except Fault Pass :=
  match selector with
  | some selector => m.findPass selector
  | none =>
    match (m.passes.filter (carries view)).getLast? with
    | some p => .ok p
    | none =>
      .error ((Fault.viewUnavailable view.name "any").inOperation "pipeline::select_pass")

/-- The pass that a view is made of; none for a view of all passes. -/
def selectPass (m : Method) (view : ViewKind) (selector : Option String) :
    Except Fault (Option Pass) :=
  if view.needsPass then (choosePass m view selector).map some else .ok none

/-- The form that a view shows, if the pass left it. -/
def requireForm {α : Type} (view : ViewKind) (p : Pass) (form : Option α) : Except Fault α :=
  match form with
  | some a => .ok a
  | none => .error ((Fault.viewUnavailable view.name p.name).inOperation "pipeline::render_view")

/-! ### Writing a view -/

variable {N E : Type}

/-- How graphs are written; a graph has the name of the method, if it has one. -/
def renderOptions (m : Method) (r : Request) : RenderOptions where
  format := r.format
  graphName := if m.name.isEmpty then "irscope" else m.name
  cluster := r.cluster

/-- The lines for the nodes whose label contains a text. Of nodes that share an id, the label of
the first one is shown. -/
def searchText (g : Display.Graph N E) (text : String) : String :=
  String.join ((g.search text).filterMap fun id =>
    (g.node? id).map fun n => toString id ++ ": " ++ Text.first n.label ++ "\n")

/-- The text for a view that has been built. -/
def finish (m : Method) (r : Request) (legend : View.Legend) (g : Display.Graph N E) :
    Except Fault String :=
  let options := renderOptions m r
  if r.legend then .ok (render options legend)
  else
    match r.search, r.focus with
    | some text, _ => .ok (searchText g text)
    | none, none => .ok (render options g)
    | none, some id =>
      if (g.node? id).isSome then .ok (render options (g.focus id))
      else .error
        { kind := .invalidArgument
          message := s!"no node with id {id} in this view"
          operation := "pipeline::focus" }

/-- Whether the request asks for nothing but the listing of machine instructions. -/
def Request.isPlain (r : Request) : Bool :=
  r.format == .text && !r.legend && r.search.isNone && r.focus.isNone

/-- The text that a request asks for, once a pass is chosen. -/
def renderFrom (m : Method) (r : Request) (pass : Option Pass) : Except Fault String :=
  match r.view, pass with
  | .dependency, _ => finish m r View.dependencyLegend (View.dependency r.dependency m)
  | .cfg, some p => do
    let hir ← requireForm r.view p p.hir
    finish m r View.cfgLegend (View.cfg r.cfg hir)
  | .detail, some p => do
    let hir ← requireForm r.view p p.hir
    finish m r View.cfgLegend (View.detail r.detail hir)
  | .lir, some p => do
    let listing ← requireForm r.view p p.lir
    let view := View.lir listing
    if r.isPlain then return view.listing ++ "\n"
    finish m r View.cfgLegend view.graph
  | view, none => .error
      { kind := .unexpected
        message := s!"no pass selected for the {view.name} view"
        operation := "pipeline::render_view" }

/-- The text that a request asks for. -/
def renderView (m : Method) (r : Request) : Except Fault String := do
  let pass ← selectPass m r.view r.pass
  renderFrom m r pass

/-! ### The table of passes -/

/-- The forms of the method that a pass left. -/
def formNames (p : Pass) : List String :=
  (if p.hir.isSome then ["HIR"] else []) ++ (if p.lir.isSome then ["LIR"] else [])

/-- The row of a pass; names are `width` wide. -/
def passRow (width total : Nat) (p : Pass) : String :=
  Text.trimEnd
    (Text.alignRight 3 (toString p.index) ++ "  " ++ Text.alignLeft width p.displayName ++ "  " ++
      Text.alignRight 10 (Number.fixed 3 (Float.ofNat p.nanos / 1000000)) ++ " ms  " ++
      Text.alignRight 5 (Number.fixed 1 (p.share total)) ++ "%  " ++
      " ".intercalate (formNames p)) ++ "\n"

/-- The table of the passes of a method. -/
def passTable (m : Method) (ignorePrinters : Bool) : String :=
  let passes := m.listed ignorePrinters
  let width := (passes.map fun p => p.displayName.length).max?.getD 0
  m.className ++ " " ++ m.header ++ "\n" ++
    String.join (passes.map (passRow width m.nanos))

end Cli

end IrView
