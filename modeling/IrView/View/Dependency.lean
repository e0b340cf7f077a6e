import IrView.Dependency.Grouping
import IrView.Display.Collapse
import IrView.Method
import IrView.Record

/-!
# The dependencies between passes

The dependency view shows passes and artifacts and how they depend on each other. Relations are
hidden before parallel edges are taken together, so a hidden relation is in no label.
-/

namespace IrView

namespace View

/-- What the dependency view shows. -/
structure DependencyOptions where
  /-- One edge for each pair of nodes. -/
  groupEdges : Bool := true
  /-- Leave out passes that are not enabled. -/
  onlyEnabled : Bool := true
  hideRequires : Bool := false
  hideProvides : Bool := false
  hideModifies : Bool := false
  hideSchedule : Bool := false
  /-- All schedule edges point the `after` way. -/
  canonicalSchedule : Bool := true
  assignLevels : Bool := true
  deriving DecidableEq, Repr

/-- Whether the options hide a relation. -/
def DependencyOptions.hides (options : DependencyOptions) (relation : Dependency.Relation) :
    Bool :=
  match relation with
  | .requires => options.hideRequires
  | .provides => options.hideProvides
  | .modifies => options.hideModifies
  | .unknown => false
  | .before | .after | .immediatelyBefore | .immediatelyAfter => options.hideSchedule

/-- Each flag hides its own relations, and a relation that is not known is never hidden. -/
theorem DependencyOptions.hides_iff {options : DependencyOptions}
    {relation : Dependency.Relation} : options.hides relation = true ↔
      relation = .requires ∧ options.hideRequires = true ∨
      relation = .provides ∧ options.hideProvides = true ∨
      relation = .modifies ∧ options.hideModifies = true ∨
      relation.isSchedule = true ∧ options.hideSchedule = true := by
  cases relation <;> simp [hides, Dependency.Relation.isSchedule]

/-- The edges that the options let through, before nodes are removed. -/
def DependencyOptions.admitted (options : DependencyOptions) (edges : List Dependency.Edge) :
    List Dependency.Edge :=
  let shown := edges.filter fun e => !options.hides e.relation
  if options.canonicalSchedule then shown.map Dependency.Edge.canonical else shown

/-- A pass or an artifact in the view. -/
def dependencyNode (n : Dependency.Node) : Display.Node Dependency.Node :=
  { (Display.Node.ofRecord n n.name).colored (Style.dependencyColor n) with dashed := !n.enabled }

/-- A dependency in the view. -/
def dependencyEdge (e : Dependency.Edge) : Display.Edge Dependency.Edge :=
  (Display.Edge.ofRecord e e.label).colored (Style.relationColorOf e.relation)

/-- How the dependency view is built. Only a graph with a named root has levels. -/
def dependencyStrategy (options : DependencyOptions) (root : Option String) :
    Display.Strategy Dependency.Node Dependency.Edge where
  node := dependencyNode
  edge := dependencyEdge
  root := match root with
    | some name => .named name
    | none => .flagged
  assignLevels := root.isSome && options.assignLevels

/-- The dependency view of a graph, with levels below the node of the given name. -/
def dependencyBelow (root : Option String) (options : DependencyOptions)
    (graph : Dependency.Graph) : Display.Graph Dependency.Node Dependency.Edge :=
  let removed := removedIds (fun (n : Dependency.Node) => options.onlyEnabled && !n.enabled)
    graph.nodes
  let edges := keepEdges removed (options.admitted graph.edges)
  Display.build (dependencyStrategy options root) (keepNodes removed graph.nodes)
    (if options.groupEdges then Dependency.group edges else edges)

/-- The dependency view of a method, with levels below its last pass. -/
def dependency (options : DependencyOptions) (m : Method) :
    Display.Graph Dependency.Node Dependency.Edge :=
  dependencyBelow (m.passes.getLast?.map Pass.name) options m.dependencies

end View

end IrView
