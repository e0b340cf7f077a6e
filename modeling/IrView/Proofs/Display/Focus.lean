import IrView.Proofs.Render.Drawn
import IrView.Query

/-!
# Narrowing a graph

Focusing on a node hides what lies outside its neighborhood. Neighborhoods are told from ids and
edges, whether these are hidden or not, so narrowing a graph does not change them
(`neighborhood_hideOutside`). Hence each focus in a sequence hides the same as if it came first, and
what is left lies in all neighborhoods (`foldl_focus`): neither the order of the foci nor their
repetition matters (`focus_intersects_neighborhoods`).
-/

namespace IrView

namespace Display.Graph

variable {N E : Type} {g : Graph N E} {a b : NodeId}

/-! ### Neighborhoods -/

theorem mem_neighborhood_iff : b ∈ g.neighborhood a ↔
    a ∈ g.nodes.map Node.id ∧ b ∈ g.nodes.map Node.id ∧ g.isNear a b = true := by
  rw [neighborhood, ← isSome_node?_iff]
  cases g.node? a with
  | none => simp
  | some n => simp

/-- An edge makes each of its ends a neighbor of the other. -/
theorem isNear_comm (g : Graph N E) (a b : NodeId) : g.isNear a b = g.isNear b a := by
  have hends : (fun e : Edge E =>
      (e.source == a && e.target == b) || (e.target == a && e.source == b)) =
      fun e => (e.source == b && e.target == a) || (e.target == b && e.source == a) := by
    funext e
    rw [Bool.or_comm, Bool.and_comm, Bool.and_comm (e.source == a)]
  rw [isNear, isNear, hends, BEq.comm]

/-- Of two nodes each is a neighbor of the other or neither is. -/
theorem mem_neighborhood_comm : b ∈ g.neighborhood a ↔ a ∈ g.neighborhood b := by
  rw [mem_neighborhood_iff, mem_neighborhood_iff, isNear_comm]
  exact and_left_comm

/-! ### Hiding by ids -/

/-- The graph with everything hidden that belongs to an id that is not kept. -/
def hideOutside (g : Graph N E) (keep : NodeId → Bool) : Graph N E :=
  { g with
    nodes := g.nodes.map fun n => { n with hidden := n.hidden || !keep n.id }
    edges := g.edges.map fun e =>
      { e with hidden := e.hidden || !keep e.source || !keep e.target } }

variable {keep keep' : NodeId → Bool}

theorem focus_eq (g : Graph N E) (a : NodeId) :
    g.focus a = g.hideOutside fun id => (g.neighborhood a).contains id :=
  rfl

theorem hideOutside_true (g : Graph N E) : (g.hideOutside fun _ => true) = g := by
  simp [hideOutside]

/-- Hiding twice keeps what is kept both times. -/
theorem hideOutside_hideOutside (g : Graph N E) (keep keep' : NodeId → Bool) :
    (g.hideOutside keep).hideOutside keep' = g.hideOutside fun id => keep id && keep' id := by
  have hnode : ∀ h s s' : Bool, (h || !s || !s') = (h || !(s && s')) := by
    decide
  have hedge : ∀ h s s' t t' : Bool, (h || !s || !t || !s' || !t') =
      (h || !(s && s') || !(t && t')) := by
    decide
  simp only [hideOutside, List.map_map, Graph.mk.injEq, and_true]
  constructor
  · refine List.map_congr_left fun n _ => ?_
    simp only [Function.comp_apply, hnode]
  · refine List.map_congr_left fun e _ => ?_
    simp only [Function.comp_apply]
    rw [hedge]

theorem map_id_hideOutside : (g.hideOutside keep).nodes.map Node.id = g.nodes.map Node.id := by
  rw [hideOutside, List.map_map]
  rfl

theorem isNear_hideOutside : (g.hideOutside keep).isNear a b = g.isNear a b := by
  rw [isNear, hideOutside, List.any_map]
  rfl

/-- Neighborhoods do not depend on what is hidden. -/
theorem neighborhood_hideOutside : (g.hideOutside keep).neighborhood a = g.neighborhood a := by
  have hnode : ((g.hideOutside keep).node? a).isNone = (g.node? a).isNone := by
    rw [node?, hideOutside, List.find?_map, Option.isNone_map]
    rfl
  have hnear : (g.hideOutside keep).isNear a = g.isNear a :=
    funext fun _ => isNear_hideOutside
  rw [neighborhood, neighborhood, hnode, hnear, map_id_hideOutside]

/-! ### Sequences of foci -/

/-- The ids that lie in the neighborhoods of all nodes in a list. -/
def inAllNeighborhoods (g : Graph N E) (centers : List NodeId) (id : NodeId) : Bool :=
  centers.all fun a => (g.neighborhood a).contains id

/-- **A sequence of foci** hides what does not lie in all neighborhoods. -/
theorem foldl_focus (g : Graph N E) (centers : List NodeId) :
    centers.foldl focus g = g.hideOutside (g.inAllNeighborhoods centers) := by
  induction centers generalizing g with
  | nil => exact (hideOutside_true g).symm
  | cons a centers ih =>
    -- the later foci see the neighborhoods of the graph that the first one has narrowed
    have hlater : (g.focus a).inAllNeighborhoods centers = g.inAllNeighborhoods centers := by
      funext id
      simp only [inAllNeighborhoods, focus_eq, neighborhood_hideOutside]
    rw [List.foldl_cons, ih, hlater, focus_eq, hideOutside_hideOutside]
    rfl

theorem foldl_focus_congr {centers centers' : List NodeId}
    (h : ∀ id, id ∈ centers ↔ id ∈ centers') :
    centers.foldl focus g = centers'.foldl focus g := by
  have hkeep : g.inAllNeighborhoods centers = g.inAllNeighborhoods centers' := by
    funext id
    rw [Bool.eq_iff_iff]
    simp only [inAllNeighborhoods, List.all_eq_true, h]
  rw [foldl_focus, foldl_focus, hkeep]

/-! ### What stays as it was -/

/-- The two graphs differ in their flags alone, and what is hidden in the first is hidden in the
second. -/
structure HidesMore (g g' : Graph N E) : Prop where
  nodes : List.Forall₂ (fun n n' => n' = { n with hidden := n'.hidden } ∧
    (n.hidden = true → n'.hidden = true)) g.nodes g'.nodes
  edges : List.Forall₂ (fun e e' => e' = { e with hidden := e'.hidden } ∧
    (e.hidden = true → e'.hidden = true)) g.edges g'.edges
  diagnostics : g'.diagnostics = g.diagnostics

theorem hidesMore_hideOutside : g.HidesMore (g.hideOutside keep) where
  nodes := by
    rw [hideOutside, List.forall₂_map_right_iff, List.forall₂_same]
    intro n _
    refine ⟨rfl, fun h => ?_⟩
    simp [h]
  edges := by
    rw [hideOutside, List.forall₂_map_right_iff, List.forall₂_same]
    intro e _
    refine ⟨rfl, fun h => ?_⟩
    simp [h]
  diagnostics := rfl

/-- What is hidden fits together: an edge that is not hidden joins two drawn nodes, and nodes that
share an id are hidden together. -/
structure InStep (g : Graph N E) : Prop where
  isDrawn_ends : ∀ e ∈ g.edges, e.hidden = false →
    g.isDrawn e.source = true ∧ g.isDrawn e.target = true
  hidden_eq : ∀ n ∈ g.nodes, ∀ n' ∈ g.nodes, n.id = n'.id → n.hidden = n'.hidden

theorem isDrawn_iff : g.isDrawn a = true ↔ ∃ n ∈ g.nodes, n.id = a ∧ n.hidden = false := by
  rw [isDrawn, List.contains_iff_mem, List.mem_map]
  constructor
  · rintro ⟨n, hn, hid⟩
    obtain ⟨hn, hshown⟩ := List.mem_filter.1 hn
    exact ⟨n, hn, hid, by simpa using hshown⟩
  · rintro ⟨n, hn, hid, hshown⟩
    exact ⟨n, List.mem_filter.2 ⟨hn, by simpa using hshown⟩, hid⟩

theorem isDrawn_hideOutside :
    (g.hideOutside keep).isDrawn a = true ↔ g.isDrawn a = true ∧ keep a = true := by
  simp only [isDrawn_iff, hideOutside, List.mem_map]
  constructor
  · rintro ⟨_, ⟨n, hn, rfl⟩, rfl, hhidden⟩
    rw [Bool.or_eq_false_iff, Bool.not_eq_false'] at hhidden
    exact ⟨⟨n, hn, rfl, hhidden.1⟩, hhidden.2⟩
  · rintro ⟨⟨n, hn, rfl, hhidden⟩, hkeep⟩
    exact ⟨_, ⟨n, hn, rfl⟩, rfl, by simp [hhidden, hkeep]⟩

theorem InStep.hideOutside (h : g.InStep) : (g.hideOutside keep).InStep where
  isDrawn_ends := by
    intro e' he' hshown
    obtain ⟨e, he, rfl⟩ := List.mem_map.1 he'
    simp only [Bool.or_eq_false_iff, Bool.not_eq_false'] at hshown
    obtain ⟨⟨hedge, hsource⟩, htarget⟩ := hshown
    have hends := h.isDrawn_ends e he hedge
    exact ⟨isDrawn_hideOutside.2 ⟨hends.1, hsource⟩, isDrawn_hideOutside.2 ⟨hends.2, htarget⟩⟩
  hidden_eq := by
    intro n₁ hn₁ n₂ hn₂ hid
    obtain ⟨n, hn, rfl⟩ := List.mem_map.1 hn₁
    obtain ⟨n', hn', rfl⟩ := List.mem_map.1 hn₂
    have hids : n.id = n'.id := hid
    show (n.hidden || !keep n.id) = (n'.hidden || !keep n'.id)
    rw [h.hidden_eq n hn n' hn' hids, hids]

/-- **Focus intersects neighborhoods.** After a sequence of foci what lies in all neighborhoods is
left, so their order and repetitions do not matter. A focus does not change the neighborhoods, in
which each node lies in those of its neighbors; it changes nothing but flags, clears none, and keeps
those of nodes and edges in step. -/
theorem focus_intersects_neighborhoods (g : Graph N E) :
    (∀ centers, centers.foldl focus g = g.hideOutside (g.inAllNeighborhoods centers)) ∧
    (∀ centers centers' : List NodeId, (∀ id, id ∈ centers ↔ id ∈ centers') →
      centers.foldl focus g = centers'.foldl focus g) ∧
    (∀ a b, (g.focus a).focus b = (g.focus b).focus a) ∧
    (∀ a, (g.focus a).focus a = g.focus a) ∧
    (∀ a, g.HidesMore (g.focus a)) ∧
    (∀ a b, (g.focus a).neighborhood b = g.neighborhood b) ∧
    (∀ a b, b ∈ g.neighborhood a ↔ a ∈ g.neighborhood b) ∧
    (g.InStep → ∀ a, (g.focus a).InStep) := by
  refine ⟨foldl_focus g, fun _ _ h => foldl_focus_congr h, ?_, ?_, ?_, ?_, ?_, ?_⟩
  · intro a b
    have hsame : ∀ id, id ∈ [a, b] ↔ id ∈ [b, a] := by
      intro id
      simp only [List.mem_cons, List.not_mem_nil, or_false]
      exact or_comm
    exact foldl_focus_congr hsame
  · intro a
    have hsame : ∀ id, id ∈ [a, a] ↔ id ∈ [a] := by
      intro id
      simp only [List.mem_cons, List.not_mem_nil, or_false, or_self]
    exact foldl_focus_congr hsame
  · intro a
    exact hidesMore_hideOutside
  · intro a b
    exact neighborhood_hideOutside
  · intro a b
    exact mem_neighborhood_comm
  · intro h a
    exact h.hideOutside

/-- A chain in which two nodes share an id, and a hidden edge that leads to no node. -/
def sharedId : Graph Unit Unit where
  nodes := [
    { id := 1, name := "a", label := "a", record := () },
    { id := 2, name := "b", label := "b", record := () },
    { id := 2, name := "c", label := "c", record := () },
    { id := 3, name := "d", label := "d", record := () }]
  edges := [
    { source := 1, target := 2, label := "", record := () },
    { source := 2, target := 3, label := "", record := () },
    { source := 3, target := 4, label := "", hidden := true, record := () }]

theorem inStep_sharedId : sharedId.InStep where
  isDrawn_ends := by decide
  hidden_eq := by decide

/-- Both nodes with the id are neighbors, and what is hidden still fits together. -/
theorem inStep_focus_sharedId : sharedId.InStep ∧ (sharedId.focus 1).InStep ∧
    (sharedId.focus 1).drawnNodes.map Node.name = ["a", "b", "c"] ∧
    ((sharedId.focus 1).edges.map fun e => e.hidden) = [false, true, true] := by
  obtain ⟨-, -, -, -, -, -, -, hstep⟩ := focus_intersects_neighborhoods sharedId
  exact ⟨inStep_sharedId, hstep inStep_sharedId 1, by decide, by decide⟩

end Display.Graph

end IrView
