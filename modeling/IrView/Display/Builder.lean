import IrView.Display.Basic
import IrView.Flow.Backedge
import IrView.Flow.Level
import IrView.Style

/-!
# Building a display graph

A builder holds nodes and edges together with two tables: where the first node with an id stands,
and which edges leave an id. An operation that moves an element or the source of an edge indexes the
lists again, so the tables always answer as a search through the lists would.
-/

namespace IrView

namespace Display

/-! ### Strategies -/

/-- What a node shows after it took over a whole block. -/
structure Summary where
  label : String
  color : String
  deriving DecidableEq, Repr

/-- Where walks through the graph start. -/
inductive RootSelector where
  /-- At the first node whose record is flagged. -/
  | flagged
  /-- At the first node with the name. -/
  | named (name : String)
  deriving DecidableEq, Repr

/-- How records become a display graph. -/
structure Strategy (N E : Type) where
  node : N → Node N
  edge : E → Edge E
  /-- The edges that walks follow. -/
  follows : E → Bool := fun _ => true
  /-- What the entry of a block shows, given the entry and the end of the block; absent if blocks
  are kept as they are. -/
  summarize : Option (Node N → Node N → Summary) := none
  root : RootSelector := .flagged
  markBackedges : Bool := false
  assignLevels : Bool := false

/-! ### Builders -/

/-- A display graph under construction. -/
structure Builder (N E : Type) where
  nodes : List (Node N)
  edges : List (Edge E)
  /-- Where the first node with an id stands. -/
  position : Std.HashMap NodeId Nat
  /-- Where the edges stand that leave an id. -/
  leaving : Std.HashMap NodeId (List Nat)
  diagnostics : Diagnostics

namespace Builder

variable {N E : Type}

/-- The builder with its tables computed from its lists. -/
def reindex (b : Builder N E) : Builder N E :=
  { b with
    position := Lookup.firstOf (b.nodes.zipIdx.map fun (n, i) => (n.id, i))
    leaving := Lookup.gather (b.edges.zipIdx.map fun (e, i) => (e.source, i)) }

/-- The builder that holds all records. -/
def ofRecords (nodes : List N) (edges : List E) (s : Strategy N E) : Builder N E :=
  reindex
    { nodes := nodes.map s.node
      edges := edges.map s.edge
      position := ∅
      leaving := ∅
      diagnostics := {} }

/-- The first node with the id. -/
def node? (b : Builder N E) (id : NodeId) : Option (Node N) :=
  b.position[id]?.bind fun i => b.nodes[i]?

/-- Whether the id is that of a node. -/
def contains (b : Builder N E) (id : NodeId) : Bool :=
  b.position.contains id

/-- Where the edges stand that leave the id, in ascending order. -/
def outgoing (b : Builder N E) (id : NodeId) : List Nat :=
  b.leaving.getD id []

/-- The id at which walks start. -/
def findRoot [NodeRecord N] (b : Builder N E) (selector : RootSelector) : Option NodeId :=
  let isRoot (n : Node N) : Bool := match selector with
    | .flagged => NodeRecord.isRoot n.record
    | .named name => n.name == name
  (b.nodes.find? isRoot).map Node.id

/-! ### Dangling edges -/

/-- Whether both ends of the edge are nodes. -/
def isAttached (ids : Std.HashSet NodeId) (e : Edge E) : Bool :=
  ids.contains e.source && ids.contains e.target

/-- The edges whose ends are nodes. -/
def attached (b : Builder N E) : List (Edge E) :=
  let ids := Std.HashSet.ofList (b.nodes.map Node.id)
  b.edges.filter (isAttached ids)

/-- The number of edges with an end that is no node. -/
def dangling (b : Builder N E) : Nat :=
  b.edges.length - b.attached.length

/-- The builder without the edges that have an end that is no node. If there are none, the tables
stay as they are. -/
def dropDangling (b : Builder N E) : Builder N E :=
  if b.dangling = 0 then b
  else reindex
    { b with
      edges := b.attached
      diagnostics :=
        { b.diagnostics with droppedEdges := b.diagnostics.droppedEdges + b.dangling } }

/-! ### Walks -/

/-- The graph that a walk sees; edges are numbered by where they stand. -/
def adjacency (b : Builder N E) (follows : E → Bool) : Flow.Adjacency :=
  .ofLists (b.nodes.map Node.id)
    ((b.edges.zipIdx.filter fun (e, _) => follows e.record).map fun (e, i) =>
      ⟨i, e.source, e.target⟩)

/-- The edge, marked as a backedge. -/
def asBackedge (e : Edge E) : Edge E :=
  { e.colored Style.backedgeColor with isBackedge := true }

/-- Marks and colors the backedges that a walk from the root finds. -/
def markBackedges (b : Builder N E) (root : NodeId) (follows : E → Bool) : Builder N E :=
  let found := Flow.backedges (b.adjacency follows) root
  { b with
    edges := b.edges.mapIdx fun i e => if found.contains i then asBackedge e else e
    diagnostics := { b.diagnostics with backedges := found.size } }

/-- Gives every node its level below the root. -/
def assignLevels (b : Builder N E) (root : NodeId) (follows : E → Bool) : Builder N E :=
  let leveling := Flow.level (b.adjacency follows) root
  { b with
    nodes := b.nodes.map fun n => { n with level := leveling.levels[n.id]? }
    diagnostics := { b.diagnostics with unreachedNodes := leveling.unreached } }

/-- The finished graph. -/
def finish (b : Builder N E) : Graph N E :=
  ⟨b.nodes, b.edges, b.diagnostics⟩

end Builder

end Display

end IrView
