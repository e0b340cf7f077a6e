import Mathlib.Data.Finset.Basic
import IrView.Proofs.Flow.Dominance

/-!
# A walk is a recursive search

Backedges can be searched for by recursion, without a stack: a visit marks a node as active, goes
through the edges of the node, visits what they lead to if it was not seen before, and at last marks
the node as finished (`Search.visit_eq_foldl`). From the moment in which a walk enters a node to the
moment in which it leaves it, the walk does what a visit does, whatever lies below on its path
(`Walk.exists_followed`). So both find the same edges (`Walk.agrees_run`).

A walk keeps no record of what it did, but its steps tell (`Walk.Course`). At each moment the edges
of a node that was visited are those that were examined, followed by those that are pending, and
of the other nodes no edge was examined (`Walk.InOrder`). At the end nothing is pending, so each
edge of a node that was visited was examined once.
-/

namespace IrView

namespace Flow

open Relation Adjacency

/-! ### The recursion -/

/-- What a recursive search knows. -/
structure Search where
  /-- The nodes whose visit has begun and is not over. -/
  active : Finset NodeId
  /-- The nodes whose visit is over. -/
  finished : Finset NodeId
  /-- The numbers of the edges that were reported. -/
  reported : List Nat

namespace Search

/-- The search before the first visit. -/
def start : Search :=
  ⟨∅, ∅, []⟩

/-- Begins the visit of a node. -/
def enter (s : Search) (node : NodeId) : Search :=
  { s with active := insert node s.active }

/-- Ends the visit of a node. -/
def leave (s : Search) (node : NodeId) : Search :=
  { s with active := s.active.erase node, finished := insert node s.finished }

/-- Reports an edge. -/
def report (s : Search) (index : Nat) : Search :=
  { s with reported := s.reported ++ [index] }

/-- The number of nodes that are still to be visited. -/
def unseen (g : Adjacency) (s : Search) : Nat :=
  g.order.countP fun id => id ∉ s.active ∧ id ∉ s.finished

theorem unseen_enter_lt {g : Adjacency} {s : Search} {node : NodeId} (hk : node ∈ g.order)
    (ha : node ∉ s.active) (hf : node ∉ s.finished) : (s.enter node).unseen g < s.unseen g := by
  refine Number.countP_lt hk ?_ (decide_eq_true ⟨ha, hf⟩) fun id hid => ?_
  · simp [enter]
  · simp only [enter, Finset.mem_insert, not_or, decide_eq_true_eq] at hid ⊢
    exact ⟨hid.1.2, hid.2⟩

theorem unseen_leave_le (g : Adjacency) (s : Search) (node : NodeId) :
    (s.leave node).unseen g ≤ s.unseen g := by
  refine List.countP_mono_left fun id _ hid => ?_
  simp only [leave, Finset.mem_erase, Finset.mem_insert, not_and, not_or,
    decide_eq_true_eq] at hid ⊢
  exact ⟨hid.1 hid.2.1, hid.2.2⟩

/-- Examines edges in their order: an edge to an active node is reported, and the target of another
edge is visited if it is a node that was not visited yet. A visit sees more nodes than were seen
before, so that visits cannot go on forever. -/
def follow (g : Adjacency) (s : Search) : List Arc → { s' : Search // s'.unseen g ≤ s.unseen g }
  | [] => ⟨s, Nat.le_refl _⟩
  | arc :: arcs =>
    if ha : arc.target ∈ s.active then
      let rest := follow g (s.report arc.index) arcs
      ⟨rest.1, rest.2⟩
    else if hf : arc.target ∈ g.order ∧ arc.target ∉ s.finished then
      let seen := follow g (s.enter arc.target) (g.arcs arc.target)
      have hlt : (seen.1.leave arc.target).unseen g < s.unseen g :=
        ((unseen_leave_le g _ _).trans seen.2).trans_lt (unseen_enter_lt hf.1 ha hf.2)
      let rest := follow g (seen.1.leave arc.target) arcs
      ⟨rest.1, rest.2.trans hlt.le⟩
    else follow g s arcs
  termination_by arcs => (s.unseen g, arcs.length)
  decreasing_by
    · exact Prod.Lex.right _ (Nat.lt_succ_self _)
    · exact Prod.Lex.left _ _ (unseen_enter_lt hf.1 ha hf.2)
    · exact Prod.Lex.left _ _ hlt
    · exact Prod.Lex.right _ (Nat.lt_succ_self _)

/-- Visits a node: marks it as active, examines its edges, and marks it as finished. -/
def visit (g : Adjacency) (s : Search) (node : NodeId) : Search :=
  (follow g (s.enter node) (g.arcs node)).1.leave node

/-- What the recursion does with an edge. -/
def examine (g : Adjacency) (s : Search) (arc : Arc) : Search :=
  if arc.target ∈ s.active then s.report arc.index
  else if arc.target ∈ g.order ∧ arc.target ∉ s.finished then s.visit g arc.target
  else s

variable {g : Adjacency} {s : Search} {arc : Arc} {arcs : List Arc}

theorem follow_nil : (follow g s []).1 = s := by
  rw [follow]

theorem follow_cons : (follow g s (arc :: arcs)).1 = (follow g (s.examine g arc) arcs).1 := by
  by_cases ha : arc.target ∈ s.active
  · rw [follow, dif_pos ha, examine, if_pos ha]
  · by_cases hf : arc.target ∈ g.order ∧ arc.target ∉ s.finished
    · rw [follow, dif_neg ha, dif_pos hf, examine, if_neg ha, if_pos hf, visit]
    · rw [follow, dif_neg ha, dif_neg hf, examine, if_neg ha, if_neg hf]

/-- The recursion: a visit examines the edges of the node one after the other, and an edge may lead
to another visit. -/
theorem visit_eq_foldl (g : Adjacency) (s : Search) (node : NodeId) :
    s.visit g node = ((g.arcs node).foldl (examine g) (s.enter node)).leave node := by
  have hfollow : ∀ arcs s, (follow g s arcs).1 = arcs.foldl (examine g) s := by
    intro arcs
    induction arcs with
    | nil => exact fun s => follow_nil
    | cons arc arcs ih => exact fun s => follow_cons.trans (ih _)
  rw [visit, hfollow]

end Search

namespace Walk

variable {g : Adjacency} {root node : NodeId} {w w' : Walk} {s : Search} {arcs : List Arc}
  {path : List Frame}

/-! ### A walk does what a visit does -/

/-- A walk and a search know the same. -/
structure Agrees (w : Walk) (s : Search) : Prop where
  active : ∀ id, id ∈ w.active ↔ id ∈ s.active
  finished : ∀ id, id ∈ w.finished ↔ id ∈ s.finished
  found : ∀ i, i ∈ w.found ↔ i ∈ s.reported

namespace Agrees

theorem start (g : Adjacency) (root : NodeId) :
    Agrees (start g root) (Search.start.enter root) where
  active id := by
    rw [Walk.start, Std.HashSet.mem_ofList]
    simp [Search.start, Search.enter]
  finished := by simp [Walk.start, Search.start, Search.enter]
  found := by simp [Walk.start, Search.start, Search.enter]

theorem enter (h : Agrees w s) (g : Adjacency) (node : NodeId) (path : List Frame) :
    Agrees (w.enter g node path) (s.enter node) where
  active id := by
    rw [Walk.enter, Search.enter, Std.HashSet.mem_insert, Finset.mem_insert, beq_iff_eq, h.active,
      eq_comm]
  finished := h.finished
  found := h.found

theorem leave (h : Agrees w s) (node : NodeId) (path : List Frame) :
    Agrees (w.leave node path) (s.leave node) where
  active id := by
    rw [Walk.leave, Search.leave, Std.HashSet.mem_erase, Finset.mem_erase, beq_eq_false_iff_ne,
      h.active, ne_comm]
  finished id := by
    rw [Walk.leave, Search.leave, Std.HashSet.mem_insert, Finset.mem_insert, beq_iff_eq,
      h.finished, eq_comm]
  found := h.found

theorem report (h : Agrees w s) (index : Nat) (path : List Frame) :
    Agrees { w with path, found := w.found.insert index } (s.report index) where
  active := h.active
  finished := h.finished
  found i := by
    rw [Search.report, Std.TreeSet.mem_insert, Nat.compare_eq_eq, List.mem_append,
      List.mem_singleton, h.found, or_comm, eq_comm]

theorem pass (h : Agrees w s) (path : List Frame) : Agrees { w with path } s :=
  ⟨h.active, h.finished, h.found⟩

end Agrees

theorem run_of_reaches (h : ReflTransGen (Move g) w w') : w.run g = w'.run g := by
  induction h with
  | refl => rfl
  | tail _ hm ih => exact ih.trans (run_of_move hm)

/-- A walk goes through the pending edges of its innermost node as the recursion does. -/
theorem exists_followed (h : Agrees w s) (hp : w.path = ⟨node, arcs⟩ :: path) :
    ∃ w', ReflTransGen (Move g) w w' ∧ w'.path = ⟨node, []⟩ :: path ∧
      Agrees w' (s.follow g arcs).1 := by
  induction s, arcs using Search.follow.induct g generalizing w node path with
  | case1 s =>
    rw [Search.follow_nil]
    exact ⟨w, .refl, hp, h⟩
  | case2 s arc arcs ha ih =>
    have hm : Move g w _ := .close hp ((h.active _).2 ha)
    rw [Search.follow_cons, Search.examine, if_pos ha]
    obtain ⟨w', hw, hend⟩ := ih (h.report arc.index _) rfl
    exact ⟨w', .head hm hw, hend⟩
  | case3 s arc arcs ha hf _ _ ihvisit ih =>
    have hnew : ¬ w.Visited arc.target := fun hv =>
      hv.elim (mt (h.active _).1 ha) (mt (h.finished _).1 hf.2)
    have hm : Move g w _ := .enter hp hf.1 hnew
    rw [Search.follow_cons, Search.examine, if_neg ha, if_pos hf, Search.visit]
    -- the frame of the target lies above the frame of the node until the visit is over
    obtain ⟨v, hv, hpv, hvisit⟩ := ihvisit (h.enter g arc.target (⟨node, arcs⟩ :: path)) rfl
    obtain ⟨w', hw, hend⟩ := ih (hvisit.leave arc.target (⟨node, arcs⟩ :: path)) rfl
    exact ⟨w', (ReflTransGen.head hm (hv.tail (.leave hpv))).trans hw, hend⟩
  | case4 s arc arcs ha hf ih =>
    have hm : Move g w _ := .pass hp (mt (h.active _).1 ha) fun hk => by
      by_contra hfin
      exact hf ⟨hk, mt (h.finished _).2 hfin⟩
    rw [Search.follow_cons, Search.examine, if_neg ha, if_neg hf]
    obtain ⟨w', hw, hend⟩ := ih (h.pass _) rfl
    exact ⟨w', .head hm hw, hend⟩

/-- In the end the walk knows what the visit of the root knows. -/
theorem agrees_run (g : Adjacency) (root : NodeId) :
    Agrees ((start g root).run g) (Search.start.visit g root) := by
  obtain ⟨w, hw, hp, h⟩ := exists_followed (Agrees.start g root) rfl
  rw [run_of_reaches (hw.tail (.leave hp)), run_of_nil rfl]
  exact h.leave root []

/-! ### What the steps of a walk examine -/

/-- The edge that the next step examines, with its source. -/
def next? (w : Walk) : Option (NodeId × Arc) :=
  match w.path with
  | ⟨node, arc :: _⟩ :: _ => some (node, arc)
  | _ => none

/-- Steps lead from one walk to another, and these are the edges that they examine. -/
inductive Course (g : Adjacency) (w : Walk) : List (NodeId × Arc) → Walk → Prop
  | stay : Course g w [] w
  | step {examined : List (NodeId × Arc)} {v v' : Walk} :
      Course g w examined v → Move g v v' → Course g w (examined ++ v.next?.toList) v'

/-- The edges of a node among those that were examined. -/
def examinedAt (examined : List (NodeId × Arc)) (id : NodeId) : List Arc :=
  (examined.filter fun e => e.1 == id).map Prod.snd

/-- The edges of a node that are pending. -/
def pendingAt (path : List Frame) (id : NodeId) : List Arc :=
  (path.filter fun f => f.node == id).flatMap Frame.pending

variable {examined : List (NodeId × Arc)} {id : NodeId} {arc : Arc} {pending : List Arc}

theorem pendingAt_cons : pendingAt (⟨node, pending⟩ :: path) id =
    if node = id then pending ++ pendingAt path id else pendingAt path id := by
  by_cases h : node = id
  · simp [pendingAt, h]
  · simp [pendingAt, h]

theorem examinedAt_concat : examinedAt (examined ++ [(node, arc)]) id =
    if node = id then examinedAt examined id ++ [arc] else examinedAt examined id := by
  by_cases h : node = id
  · simp [examinedAt, h]
  · simp [examinedAt, h]

/-- An edge that is examined is pending no longer. -/
theorem examinedAt_concat_append : examinedAt (examined ++ [(node, arc)]) id ++
      pendingAt (⟨node, pending⟩ :: path) id =
    examinedAt examined id ++ pendingAt (⟨node, arc :: pending⟩ :: path) id := by
  rw [examinedAt_concat, pendingAt_cons, pendingAt_cons]
  split_ifs <;> simp

/-- The edges of the nodes that were visited are examined in their order. -/
structure InOrder (g : Adjacency) (examined : List (NodeId × Arc)) (w : Walk) : Prop where
  visited : ∀ id, w.Visited id → examinedAt examined id ++ pendingAt w.path id = g.arcs id
  others : ∀ id, ¬ w.Visited id → examinedAt examined id ++ pendingAt w.path id = []

theorem inOrder_start : InOrder g [] (start g root) where
  visited id h := by
    obtain rfl : root = id := by
      simpa [start, Visited, Std.HashSet.mem_ofList] using h
    simp [start, examinedAt, pendingAt]
  others id h := by
    have hne : root ≠ id := fun he => h (Or.inl (by simp [start, he]))
    simp [start, examinedAt, pendingAt, hne]

theorem InOrder.step (h : InOrder g examined w) (hactive : ∀ id, id ∈ w.active ↔ id ∈ w.nodes)
    (hm : Move g w w') : InOrder g (examined ++ w.next?.toList) w' := by
  cases hm with
  | @leave node path hp =>
    have hvisited : ∀ id, (w.leave node path).Visited id ↔ w.Visited id := by
      intro id
      rw [visited_leave, or_iff_left_of_imp]
      rintro rfl
      exact Or.inl ((hactive _).2 (by simp [nodes, hp]))
    have hpending : ∀ id, pendingAt w.path id = pendingAt path id := by
      intro id
      rw [hp, pendingAt_cons, List.nil_append, ite_self]
    simp only [next?, hp, Option.toList_none, List.append_nil]
    refine ⟨fun id hid => ?_, fun id hid => ?_⟩
    · exact hpending id ▸ h.visited id ((hvisited id).1 hid)
    · exact hpending id ▸ h.others id (mt (hvisited id).2 hid)
  | close hp | pass hp =>
    simp only [next?, hp, Option.toList_some]
    refine ⟨fun id hid => ?_, fun id hid => ?_⟩
    · rw [examinedAt_concat_append, ← hp]
      exact h.visited id hid
    · rw [examinedAt_concat_append, ← hp]
      exact h.others id hid
  | @enter node arc pending path hp hk hf =>
    simp only [next?, hp, Option.toList_some, enter]
    refine ⟨fun id hid => ?_, fun id hid => ?_⟩
    · rw [pendingAt_cons]
      split_ifs with he
      · -- nothing of the new node was examined before
        subst he
        have hnone := h.others _ hf
        rw [hp, ← examinedAt_concat_append, List.append_eq_nil_iff] at hnone
        rw [hnone.1, hnone.2, List.nil_append, List.append_nil]
      · rw [examinedAt_concat_append, ← hp]
        exact h.visited id ((visited_enter.1 hid).resolve_right (Ne.symm he))
    · have hne : arc.target ≠ id := fun he => hid (visited_enter.2 (Or.inr he.symm))
      rw [pendingAt_cons, if_neg hne, examinedAt_concat_append, ← hp]
      exact h.others id fun hv => hid (visited_enter.2 (Or.inl hv))

namespace Course

theorem inv (hroot : root ∈ g.order) (h : Course g (start g root) examined w) : Inv g root w := by
  induction h with
  | stay => exact inv_start
  | step _ hm ih => exact ih.step hroot hm

theorem inOrder (hroot : root ∈ g.order) (h : Course g (start g root) examined w) :
    InOrder g examined w := by
  induction h with
  | stay => exact inOrder_start
  | step h hm ih => exact ih.step (h.inv hroot).active hm

/-- A walk is at its end after some steps. -/
theorem exists_run (g : Adjacency) (w : Walk) : ∃ examined, Course g w examined (w.run g) := by
  have hstep : ∀ v v', (∃ examined, Course g w examined v) → Move g v v' →
      ∃ examined, Course g w examined v' := fun _ _ ⟨_, h⟩ hm => ⟨_, h.step hm⟩
  exact (run_induction hstep ⟨[], .stay⟩).1

end Course

end Walk

variable {g : Adjacency} {root : NodeId}

/-- At the end of a walk the nodes that were visited are those that the root reaches. -/
theorem visited_run_iff (hroot : root ∈ g.order) {id : NodeId} :
    ((Walk.start g root).run g).Visited id ↔ ReflTransGen g.Leads root id := by
  refine ⟨fun hid => ?_, fun hid => Or.inr (mem_finished_of_reaches hroot hid)⟩
  obtain ⟨hinv, hend⟩ := Walk.inv_run hroot
  rcases hid with hid | hid
  · rw [hinv.active, Walk.nodes, hend] at hid
    cases hid
  · obtain ⟨p, hp, -⟩ := hinv.left id hid
    exact hp.reaches

/-- **The walk is a recursive depth-first search.** The recursion comes to an end and reports the
edges that the walk finds. After each step of the walk the active nodes are those on its path, which
holds no node twice. At the end each edge of each node that the root reaches was examined once, the
edges of one node in their order, and no other edge was. -/
theorem backedges_eq_reported (g : Adjacency) (root : NodeId) (hroot : root ∈ g.order) :
    (∀ s node, Search.visit g s node =
      ((g.arcs node).foldl (Search.examine g) (s.enter node)).leave node) ∧
    (∀ i, i ∈ backedges g root ↔ i ∈ (Search.start.visit g root).reported) ∧
    (∀ examined w, Walk.Course g (.start g root) examined w →
      (∀ id, id ∈ w.active ↔ id ∈ w.nodes) ∧ w.nodes.Nodup) ∧
    (∃ examined, Walk.Course g (.start g root) examined ((Walk.start g root).run g)) ∧
    ∀ examined, Walk.Course g (.start g root) examined ((Walk.start g root).run g) → ∀ id,
      (ReflTransGen g.Leads root id → Walk.examinedAt examined id = g.arcs id) ∧
      (¬ ReflTransGen g.Leads root id → Walk.examinedAt examined id = []) := by
  refine ⟨Search.visit_eq_foldl g, fun i => ?_, fun examined w h => ?_,
    Walk.Course.exists_run g _, fun examined h id => ?_⟩
  · rw [mem_backedges, and_iff_right hroot]
    exact (Walk.agrees_run g root).found i
  · exact ⟨(h.inv hroot).active, (h.inv hroot).nodup⟩
  · have hpending : Walk.pendingAt ((Walk.start g root).run g).path id = [] := by
      rw [(Walk.inv_run hroot).2]
      rfl
    have hvisited := (h.inOrder hroot).visited id
    have hothers := (h.inOrder hroot).others id
    rw [hpending, List.append_nil, visited_run_iff hroot] at hvisited hothers
    exact ⟨hvisited, hothers⟩

/-- Two loops; of the other edges one leads to no node, and one to a node that was left. -/
def twoLoops : List Edge :=
  [⟨0, 1, 2⟩, ⟨1, 2, 3⟩, ⟨2, 3, 2⟩, ⟨3, 3, 9⟩, ⟨4, 1, 3⟩, ⟨5, 3, 3⟩]

theorem backedges_twoLoops : (1 : NodeId) ∈ (ofLists [1, 2, 3] twoLoops).order ∧
    ∀ i, i ∈ backedges (ofLists [1, 2, 3] twoLoops) 1 ↔ i = 2 ∨ i = 5 := by
  have hroot : (1 : NodeId) ∈ (ofLists [1, 2, 3] twoLoops).order :=
    mem_order_ofLists.2 List.mem_cons_self
  have h₁ : (ofLists [1, 2, 3] twoLoops).arcs 1 = [⟨0, 2⟩, ⟨4, 3⟩] := by
    rw [arcs_ofLists]
    rfl
  have h₂ : (ofLists [1, 2, 3] twoLoops).arcs 2 = [⟨1, 3⟩] := by
    rw [arcs_ofLists]
    rfl
  have h₃ : (ofLists [1, 2, 3] twoLoops).arcs 3 = [⟨2, 2⟩, ⟨3, 9⟩, ⟨5, 3⟩] := by
    rw [arcs_ofLists]
    rfl
  obtain ⟨hvisit, hreported, -⟩ := backedges_eq_reported _ _ hroot
  refine ⟨hroot, fun i => (hreported i).trans ?_⟩
  -- the recursion, run by its equation
  simp [hvisit, Search.examine, h₁, h₂, h₃, Search.start, Search.enter, Search.report,
    Search.leave, mem_order_ofLists]

end Flow

end IrView
