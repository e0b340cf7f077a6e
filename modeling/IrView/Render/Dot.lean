import Std.Data.HashSet
import IrView.Display.Basic
import IrView.Lookup

/-!
# DOT

A DOT text is a list of statements, each on a line of its own and indented by its depth. Names are
reduced to letters, digits and underscores; attribute values are quoted.
-/

namespace IrView

namespace Dot

/-! ### Names and values -/

/-- A name with every character but ASCII letters and digits replaced by an underscore. -/
def sanitize (name : String) : String :=
  String.ofList (name.toList.map fun c => if c.isAlphanum then c else '_')

/-- The text with `new` in place of each `old`. -/
def replace (old : Char) (new : List Char) (cs : List Char) : List Char :=
  cs.flatMap fun c => if c = old then new else [c]

/-- A value as it stands between quotes. Backslashes come first, so that those in front of quotes
and of `n` are not taken for some of the value. -/
def escape (value : String) : String :=
  let cs := replace '\\' ['\\', '\\'] value.toList
  let cs := replace '"' ['\\', '"'] cs
  String.ofList (replace '\n' ['\\', 'n'] cs)

/-- The name of a node. -/
def nodeName (id : NodeId) : String :=
  sanitize ("n" ++ toString id)

/-- The name of a box. -/
def clusterName (container : String) : String :=
  "cluster_" ++ sanitize container

/-! ### Statements -/

/-- An attribute. -/
abbrev Attribute := String × String

/-- An attribute with its value in quotes. -/
def attributeText (a : Attribute) : String :=
  a.1 ++ "=\"" ++ escape a.2 ++ "\""

/-- Attributes as a list. -/
def attributesText (as : List Attribute) : String :=
  ", ".intercalate (as.map attributeText)

/-- A statement. -/
inductive Statement where
  /-- An attribute of the graph. -/
  | attribute (a : Attribute)
  /-- What all nodes look like. -/
  | nodeStyle (style : String)
  | blank
  | node (name : String) (attributes : List Attribute)
  | edge (source target : String) (attributes : List Attribute)
  /-- Opens a box with a label. -/
  | openCluster (name label : String)
  /-- Closes the innermost box. -/
  | closeCluster
  deriving Repr

/-- The indentation of a depth. -/
def indent (depth : Nat) : String :=
  String.ofList (List.replicate (2 * depth) ' ')

/-- The depth behind a statement. -/
def Statement.depthAfter (depth : Nat) : Statement → Nat
  | .openCluster _ _ => depth + 1
  | .closeCluster => depth - 1
  | _ => depth

/-- The lines of a statement. -/
def Statement.text (depth : Nat) : Statement → String
  | .attribute a => indent depth ++ attributeText a ++ ";\n"
  | .nodeStyle style => indent depth ++ "node [" ++ style ++ "];\n"
  | .blank => "\n"
  | .node name attributes =>
    indent depth ++ name ++ "[" ++ attributesText attributes ++ "];\n"
  | .edge source target attributes =>
    indent depth ++ source ++ " -> " ++ target ++
      (if attributes.isEmpty then "" else " [" ++ attributesText attributes ++ "]") ++ ";\n"
  | .openCluster name label =>
    indent depth ++ "subgraph " ++ clusterName name ++ " \x7b\n" ++
      indent (depth + 1) ++ attributeText ("label", label) ++ ";\n"
  | .closeCluster => indent (depth - 1) ++ "\x7d\n"

/-- The lines of statements from a depth on. -/
def statementsText (depth : Nat) : List Statement → String
  | [] => ""
  | s :: rest => s.text depth ++ statementsText (s.depthAfter depth) rest

/-- The text of a graph. -/
def graphText (name : String) (body : List Statement) : String :=
  "digraph " ++ sanitize name ++ " \x7b\n" ++ statementsText 1 body ++ "\x7d\n"

/-! ### Display graphs -/

variable {N E : Type}

/-- The attributes that have a value. -/
def present (entries : List (String × Option String)) : List Attribute :=
  entries.filterMap fun (key, value) => value.map fun v => (key, v)

/-- The attributes of a node. -/
def nodeAttributes (n : Display.Node N) : List Attribute :=
  present
    [("label", some n.label),
      ("fillcolor", n.color.map Display.Color.background),
      ("style", some (if n.dashed then "filled,dashed" else "filled")),
      ("penwidth", n.borderWidth.map toString),
      ("tooltip", n.title),
      ("comment", n.level.map fun l => "level " ++ toString l)]

/-- The shape of an arrow head, unless it is the usual one. -/
def arrowHead? : Display.Arrow → Option String
  | .arrow => none
  | .circle => some "dot"
  | .none => some "none"

/-- The attributes of an edge. -/
def edgeAttributes (e : Display.Edge E) : List Attribute :=
  present
    [("label", if e.label.isEmpty then none else some e.label),
      ("color", e.color.map Display.Color.background),
      ("style", if e.dashed then some "dashed" else none),
      ("arrowhead", arrowHead? e.arrow),
      ("penwidth", e.width.map toString),
      ("tooltip", e.title),
      ("constraint", if e.isBackedge then some "false" else none)]

/-- A node as a statement. -/
def nodeStatement (n : Display.Node N) : Statement :=
  .node (nodeName n.id) (nodeAttributes n)

/-- An edge as a statement. -/
def edgeStatement (e : Display.Edge E) : Statement :=
  .edge (nodeName e.source) (nodeName e.target) (edgeAttributes e)

/-- A container as a box around its nodes. -/
def clusterStatements (container : String × List (Display.Node N)) : List Statement :=
  .openCluster container.1 container.1 :: container.2.map nodeStatement ++ [.closeCluster]

/-- Nodes, those inside of boxes apart from the others. -/
structure Boxes (N : Type) where
  grouping : Grouping String (Display.Node N) := {}
  loose : List (Display.Node N) := []

/-- The boxes with one more node; `cluster` asks for boxes. -/
def Boxes.add (cluster : Bool) (boxes : Boxes N) (n : Display.Node N) : Boxes N :=
  match n.container, cluster with
  | some container, true => { boxes with grouping := boxes.grouping.add container n }
  | _, _ => { boxes with loose := boxes.loose ++ [n] }

/-- The nodes that are not hidden. -/
def visible (g : Display.Graph N E) : List (Display.Node N) :=
  g.nodes.filter fun n => !n.hidden

/-- The edges that are not hidden and touch no node that is. -/
def visibleEdges (g : Display.Graph N E) : List (Display.Edge E) :=
  let shown : Std.HashSet NodeId := .ofList ((visible g).map Display.Node.id)
  g.edges.filter fun e => !(e.hidden || !shown.contains e.source || !shown.contains e.target)

/-- The statements of a display graph; `cluster` asks for boxes. -/
def body (g : Display.Graph N E) (cluster : Bool) : List Statement :=
  let boxes : Boxes N := (visible g).foldl (Boxes.add cluster) {}
  [.attribute ("rankdir", "TB"), .nodeStyle "shape=box, fontname=\"monospace\"", .blank] ++
    boxes.grouping.groups.flatMap clusterStatements ++ boxes.loose.map nodeStatement ++ [.blank] ++
    (visibleEdges g).map edgeStatement

/-- The DOT text of a display graph. -/
def render (g : Display.Graph N E) (name : String) (cluster : Bool) : String :=
  graphText name (body g cluster)

end Dot

end IrView
