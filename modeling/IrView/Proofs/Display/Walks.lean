import IrView.Display.Collapse
import IrView.Proofs.Display.Marking
import IrView.Proofs.Display.Tables

/-!
# Graphs that were walked

A graph that was built with both walks shows what the walks found (`build_eq_walked`): which edges
are backedges (`Builder.marks_walked`) and on which level a node stands (`Builder.level?_walked`).
The walks change no id and no end of an edge, so they see the same graph, and it is the graph that
they leave (`Builder.leads_walked`). Whichever walks a build takes, it shows the elements that it
prepared (`shows_build`).
-/

namespace IrView

namespace Display

variable {N E : Type}

/-- The records of the edges, each with whether it is a backedge. -/
def Graph.marks (g : Graph N E) : List (E × Bool) :=
  g.edges.map fun e => (e.record, e.isBackedge)

/-- The level of the node with the id. -/
def Graph.level? (g : Graph N E) (id : NodeId) : Option Int :=
  (g.node? id).bind Node.level

/-- The builder that a strategy prepares for the walks. -/
def Builder.prepare [NodeRecord N] [EdgeRecord E] (s : Strategy N E) (nodes : List N)
    (edges : List E) : Builder N E :=
  match s.summarize with
  | some summarize => ((ofRecords nodes edges s).collapse summarize).dropDangling
  | none => (ofRecords nodes edges s).dropDangling

/-- The graph after both walks. -/
def Builder.walked (b : Builder N E) (root : NodeId) (follows : E → Bool) : Graph N E :=
  ((b.markBackedges root follows).assignLevels root follows).finish

/-! ### The walks of a build -/

/-- The walks from a root that a strategy asks for. -/
def Builder.walkFrom (b : Builder N E) (s : Strategy N E) (root : NodeId) : Builder N E :=
  let b := if s.markBackedges then b.markBackedges root s.follows else b
  if s.assignLevels then b.assignLevels root s.follows else b

/-- The walks that a strategy asks for, if there is a root. -/
def Builder.walk [NodeRecord N] (b : Builder N E) (s : Strategy N E) : Graph N E :=
  if s.markBackedges || s.assignLevels then
    match b.findRoot s.root with
    | some root => (b.walkFrom s root).finish
    | none => { b.finish with diagnostics := { b.diagnostics with missingRoot := true } }
  else b.finish

theorem build_eq_walk [NodeRecord N] [EdgeRecord E] {s : Strategy N E} {nodes : List N}
    {edges : List E} : build s nodes edges = (Builder.prepare s nodes edges).walk s := by
  unfold build Builder.prepare
  cases s.summarize <;> rfl

theorem build_eq_walked [NodeRecord N] [EdgeRecord E] {s : Strategy N E} {nodes : List N}
    {edges : List E} {root : NodeId} (hm : s.markBackedges = true) (hl : s.assignLevels = true)
    (hroot : (Builder.prepare s nodes edges).findRoot s.root = some root) :
    build s nodes edges = (Builder.prepare s nodes edges).walked root s.follows := by
  rw [build_eq_walk, Builder.walk, hm, hroot, Bool.true_or, if_pos rfl]
  dsimp only
  rw [Builder.walkFrom, hm, hl]
  rfl

namespace Builder

variable {b : Builder N E} {follows : E → Bool} {root : NodeId}

/-- What a walk sees of an edge. -/
def ends (e : Edge E) : E × NodeId × NodeId :=
  (e.record, e.source, e.target)

theorem ends_eq_iff {e e' : Edge E} : ends e = ends e' ↔
    e.record = e'.record ∧ e.source = e'.source ∧ e.target = e'.target := by
  rw [ends, ends, Prod.mk.injEq, Prod.mk.injEq]

theorem adjacency_congr {b b' : Builder N E} (hn : b.nodes.map Node.id = b'.nodes.map Node.id)
    (he : b.edges.map ends = b'.edges.map ends) : b.adjacency follows = b'.adjacency follows := by
  have hends : ∀ b : Builder N E, b.adjacency follows = .ofLists (b.nodes.map Node.id)
      (((b.edges.map ends).zipIdx.filter fun (x, _) => follows x.1).map fun (x, i) =>
        ⟨i, x.2.1, x.2.2⟩) := by
    intro b
    rw [adjacency, List.zipIdx_map, List.filter_map, List.map_map]
    rfl
  rw [hends, hends, hn, he]

theorem ends_markBackedges :
    (b.markBackedges root follows).edges.map ends = b.edges.map ends := by
  refine List.ext_getElem? fun i => ?_
  rw [List.getElem?_map, List.getElem?_map, getElem?_markBackedges, Option.map_map]
  refine congrArg (fun f => b.edges[i]?.map f) (funext fun e => ?_)
  rw [Function.comp_apply]
  split_ifs <;> rfl

theorem adjacency_markBackedges :
    (b.markBackedges root follows).adjacency follows = b.adjacency follows :=
  adjacency_congr rfl ends_markBackedges

theorem ids_assignLevels : (b.assignLevels root follows).nodes.map Node.id = b.nodes.map Node.id :=
  List.map_map

/-- The walks see the graph that they leave. -/
theorem leads_walked : (b.walked root follows).Leads follows = (b.adjacency follows).Leads := by
  have hsame : ((b.markBackedges root follows).assignLevels root follows).adjacency follows =
      (b.markBackedges root follows).adjacency follows :=
    adjacency_congr ids_assignLevels rfl
  rw [walked, ← leads_adjacency_eq, hsame, adjacency_markBackedges]

theorem marks_walked (hclear : ∀ e ∈ b.edges, e.isBackedge = false) :
    (b.walked root follows).marks = b.edges.zipIdx.map fun (e, i) =>
      (e.record, decide (i ∈ Flow.backedges (b.adjacency follows) root)) := by
  refine List.ext_getElem? fun i => ?_
  rw [Graph.marks, List.getElem?_map, List.getElem?_map, List.getElem?_zipIdx, Option.map_map]
  show ((b.markBackedges root follows).edges[i]?).map _ = _
  rw [getElem?_markBackedges, Option.map_map]
  cases he : b.edges[i]? with
  | none => rfl
  | some e =>
    have := hclear e (List.mem_of_getElem? he)
    by_cases hi : i ∈ Flow.backedges (b.adjacency follows) root
    · simp [hi, asBackedge, Edge.colored]
    · simp [hi, this]

theorem nodes_walked : (b.walked root follows).nodes = b.nodes.map fun n =>
    { n with level := (Flow.level (b.adjacency follows) root).levels[n.id]? } := by
  rw [walked, finish, assignLevels, adjacency_markBackedges]
  rfl

theorem level?_walked {id : NodeId} (hid : id ∈ b.nodes.map Node.id) :
    (b.walked root follows).level? id =
      (Flow.level (b.adjacency follows) root).levels[id]? := by
  obtain ⟨m, hm, hmid⟩ := List.mem_map.1 hid
  obtain ⟨n, -, hn, hnid⟩ :=
    Lookup.exists_find? (p := fun n : Node N => n.id == id) hm (beq_iff_eq.2 hmid)
  rw [beq_iff_eq] at hnid
  -- the first node with the id gets the level of the id
  rw [Graph.level?, Graph.node?, nodes_walked, List.find?_map]
  show ((b.nodes.find? fun n => n.id == id).map _).bind _ = _
  rw [hn, Option.map_some, Option.bind_some, hnid]

end Builder

/-! ### What the walks keep -/

/-- The node without its level. -/
def Node.unleveled (n : Node N) : Node N :=
  { n with level := none }

/-- The graph has the elements of the builder, as far as walks do not change them. -/
structure Graph.Shows (g : Graph N E) (b : Builder N E) : Prop where
  nodes : g.nodes.map Node.unleveled = b.nodes.map Node.unleveled
  ends : g.edges.map Builder.ends = b.edges.map Builder.ends
  dropped : g.diagnostics.droppedEdges = b.diagnostics.droppedEdges

namespace Graph.Shows

variable {b c : Builder N E} {root : NodeId} {follows : E → Bool}

theorem finish (b : Builder N E) : b.finish.Shows b :=
  ⟨rfl, rfl, rfl⟩

theorem markBackedges (h : b.finish.Shows c) : (b.markBackedges root follows).finish.Shows c :=
  ⟨h.nodes, Builder.ends_markBackedges.trans h.ends, h.dropped⟩

theorem assignLevels (h : b.finish.Shows c) : (b.assignLevels root follows).finish.Shows c := by
  have hsame : (b.assignLevels root follows).nodes.map Node.unleveled =
      b.nodes.map Node.unleveled := List.map_map
  exact ⟨hsame.trans h.nodes, h.ends, h.dropped⟩

theorem ids {g : Graph N E} (h : g.Shows b) : g.nodes.map Node.id = b.nodes.map Node.id := by
  have hid : (Node.id : Node N → NodeId) = Node.id ∘ Node.unleveled := rfl
  rw [hid, ← List.map_map, h.nodes, List.map_map]

theorem walkFrom (b : Builder N E) (s : Strategy N E) (root : NodeId) :
    (b.walkFrom s root).finish.Shows b := by
  unfold Builder.walkFrom
  split_ifs
  · exact (finish b).markBackedges.assignLevels
  · exact (finish b).markBackedges
  · exact (finish b).assignLevels
  · exact finish b

theorem walk [NodeRecord N] (b : Builder N E) (s : Strategy N E) : (b.walk s).Shows b := by
  unfold Builder.walk
  split
  · split
    · exact walkFrom b s _
    · exact ⟨rfl, rfl, rfl⟩
  · exact finish b

end Graph.Shows

variable [NodeRecord N] [EdgeRecord E] {s : Strategy N E} {nodes : List N} {edges : List E}

theorem shows_build : (build s nodes edges).Shows (Builder.prepare s nodes edges) := by
  rw [build_eq_walk]
  exact .walk _ s

/-- Unless backedges are marked, the edges are those that the strategy prepares. -/
theorem edges_build (hmark : s.markBackedges = false) :
    (build s nodes edges).edges = (Builder.prepare s nodes edges).edges := by
  have hwalk : ∀ (b : Builder N E) (root : NodeId), (b.walkFrom s root).edges = b.edges := by
    intro b root
    rw [Builder.walkFrom, hmark, if_neg Bool.false_ne_true]
    split_ifs <;> rfl
  rw [build_eq_walk, Builder.walk]
  split
  · split
    · exact hwalk _ _
    · rfl
  · rfl

end Display

end IrView
