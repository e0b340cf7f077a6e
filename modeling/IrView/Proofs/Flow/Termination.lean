import Mathlib.Algebra.BigOperators.Ring.Finset
import Mathlib.Algebra.Group.Action.Defs
import Mathlib.Algebra.Order.BigOperators.Group.Finset
import IrView.Proofs.Flow.Distance
import IrView.Proofs.Flow.Rounds

/-!
# Leveling comes to an end

A search for distances puts the targets of a node on its stack each time it finds a shorter way to
the node, and on a cycle it comes back to the same nodes again and again. What ends it is that the
depths at which one node is expanded go down (`Relaxation.Recorded`). They lie between zero and the
number of nodes, so no node is expanded more than once for each of these depths
(`Relaxation.Recorded.length_expandedAt_le`). Each visit but the first is due to an edge of an
expanded node, and so the visits are bounded as well (`Relaxation.Course.le`).

The rounds in which the other nodes are placed are bounded by the number of these nodes
(`rounds_le`). Together these are the bounds on leveling (`leveling_ends`).
-/

namespace IrView

namespace Flow

open Adjacency

namespace Relaxation

variable {g : Adjacency} {root id : NodeId} {r r' v : Relaxation} {n depth : Nat}
  {stack : List (NodeId × Nat)} {expanded : List (NodeId × Nat)}

/-! ### What a search does -/

/-- The node that the next visit expands, and the depth that it records for the node. -/
def next? (g : Adjacency) (r : Relaxation) : Option (NodeId × Nat) :=
  r.stack.head?.filter fun visit => r.improves g visit.1 visit.2

/-- So many visits lead from one search to another, and these nodes are expanded on the way, each
at a depth. -/
inductive Course (g : Adjacency) (r : Relaxation) : Nat → List (NodeId × Nat) → Relaxation → Prop
  | stay : Course g r 0 [] r
  | visit {n : Nat} {expanded : List (NodeId × Nat)} {v v' : Relaxation} :
      Course g r n expanded v → v.step? g = some v' →
      Course g r (n + 1) (expanded ++ (v.next? g).toList) v'

/-- The depths at which a node was expanded. -/
def expandedAt (expanded : List (NodeId × Nat)) (id : NodeId) : List Nat :=
  (expanded.filter fun e => e.1 == id).map Prod.snd

theorem next?_of_improves (hs : r.stack = (id, depth) :: stack)
    (h : r.improves g id depth = true) : r.next? g = some (id, depth) := by
  simp [next?, hs, h]

theorem next?_of_not_improves (hs : r.stack = (id, depth) :: stack)
    (h : ¬ r.improves g id depth = true) : r.next? g = none := by
  simp [next?, hs, h]

theorem expandedAt_concat {node : NodeId} : expandedAt (expanded ++ [(node, depth)]) id =
    if node = id then expandedAt expanded id ++ [depth] else expandedAt expanded id := by
  by_cases h : node = id
  · simp [expandedAt, h]
  · simp [expandedAt, h]

theorem mem_expandedAt : depth ∈ expandedAt expanded id ↔ (id, depth) ∈ expanded := by
  simp [expandedAt]

namespace Course

theorem expand (h : Course g r n expanded v) (hs : v.stack = (id, depth) :: stack)
    (hk : id ∈ g.order) (hd : depth ≤ g.size) (hless : ∀ d, v.depths[id]? = some d → depth < d) :
    Course g r (n + 1) (expanded ++ [(id, depth)])
      { stack := (g.arcs id).map (fun arc => (arc.target, depth + 1)) ++ stack
        depths := v.depths.insert id depth } := by
  have hvisit := h.visit (step?_of_move (.improve hs hk hd hless))
  rwa [next?_of_improves hs (improves_iff.2 ⟨hk, hd, hless⟩)] at hvisit

theorem drop (h : Course g r n expanded v) (hs : v.stack = (id, depth) :: stack)
    (hle : id ∈ g.order → depth ≤ g.size → ∃ d ≤ depth, v.depths[id]? = some d) :
    Course g r (n + 1) expanded { v with stack } := by
  have hvisit := h.visit (step?_of_move (.drop hs hle))
  rwa [next?_of_not_improves hs (not_improves hle), Option.toList_none, List.append_nil] at hvisit

theorem inv (hroot : root ∈ g.order) (h : Course g (start root) n expanded r) : Inv g root r := by
  induction h with
  | stay => exact inv_start
  | visit _ hs ih => exact ih.step hroot (move_of_step? hs)

/-- A search is at its end after some visits. -/
theorem exists_run (g : Adjacency) (r : Relaxation) :
    ∃ n expanded, Course g r n expanded (r.run g) := by
  have hstep : ∀ v v', (∃ n expanded, Course g r n expanded v) → Move g v v' →
      ∃ n expanded, Course g r n expanded v' :=
    fun _ _ ⟨_, _, h⟩ hm => ⟨_, _, h.visit (step?_of_move hm)⟩
  exact (run_induction hstep ⟨_, _, .stay⟩).1

end Course

/-! ### What the record of a search tells -/

/-- What holds of the expansions of a search after each visit. -/
structure Recorded (g : Adjacency) (root : NodeId) (n : Nat) (expanded : List (NodeId × Nat))
    (r : Relaxation) : Prop where
  /-- A node is expanded at the length of a way to it, which is at most the number of nodes. -/
  trail : ∀ id d, (id, d) ∈ expanded →
    id ∈ g.order ∧ d ≤ g.size ∧ ∃ p, Trail g.Leads root (id :: p) ∧ p.length = d
  /-- A node has the depth at which it was expanded last. -/
  last : ∀ id, r.depths[id]? = (expandedAt expanded id).getLast?
  /-- Each time a node is expanded, its depth goes down. -/
  falling : ∀ id, (expandedAt expanded id).IsChain (· > ·)
  /-- Each visit but the first one is due to an edge of an expanded node. -/
  visits : n + r.stack.length = 1 + (expanded.map fun e => (g.arcs e.1).length).sum

namespace Recorded

theorem start : Recorded g root 0 [] (start root) where
  trail id d h := by simp at h
  last id := by simp [Relaxation.start, expandedAt]
  falling id := .nil
  visits := rfl

/-- An expansion at a way that is shorter than all before. -/
theorem improve (h : Recorded g root n expanded r) (hs : r.stack = (id, depth) :: stack)
    (hk : id ∈ g.order) (hd : depth ≤ g.size) (hless : ∀ d, r.depths[id]? = some d → depth < d)
    (hway : ∃ p, Trail g.Leads root (id :: p) ∧ p.length = depth) :
    Recorded g root (n + 1) (expanded ++ [(id, depth)])
      { stack := (g.arcs id).map (fun arc => (arc.target, depth + 1)) ++ stack
        depths := r.depths.insert id depth } where
  trail v d hv := by
    rcases List.mem_append.1 hv with hv | hv
    · exact h.trail v d hv
    · cases List.mem_singleton.1 hv
      exact ⟨hk, hd, hway⟩
  last v := by
    rw [expandedAt_concat, Std.HashMap.getElem?_insert]
    by_cases he : id = v
    · simp [he]
    · simp [he, h.last v]
  falling v := by
    rw [expandedAt_concat]
    split_ifs with he
    · -- the depth recorded before is the last one, and greater
      subst he
      refine List.isChain_append.2 ⟨h.falling id, .singleton _, fun d hlast d' hd' => ?_⟩
      cases Option.mem_some.1 hd'
      exact hless d ((h.last id).trans hlast)
    · exact h.falling v
  visits := by
    have hvisits := h.visits
    simp only [hs, List.length_cons, List.length_append, List.length_map, List.map_append,
      List.sum_append, List.map_cons, List.map_nil, List.sum_cons, List.sum_nil] at hvisits ⊢
    omega

/-- A visit that expands no node. -/
theorem drop (h : Recorded g root n expanded r) (hs : r.stack = (id, depth) :: stack) :
    Recorded g root (n + 1) expanded { r with stack } where
  trail := h.trail
  last := h.last
  falling := h.falling
  visits := by
    have hvisits := h.visits
    rw [hs, List.length_cons] at hvisits
    rw [Nat.add_right_comm]
    exact hvisits

theorem step (h : Recorded g root n expanded r) (hinv : Inv g root r) (hm : Move g r r') :
    Recorded g root (n + 1) (expanded ++ (r.next? g).toList) r' := by
  cases hm with
  | @improve id depth stack hs hk hd hless =>
    rw [next?_of_improves hs (improves_iff.2 ⟨hk, hd, hless⟩), Option.toList_some]
    exact h.improve hs hk hd hless (hinv.stack id depth (by simp [hs]) hk)
  | drop hs hle =>
    rw [next?_of_not_improves hs (not_improves hle), Option.toList_none, List.append_nil]
    exact h.drop hs

/-- No node is expanded twice at the same depth. -/
theorem length_expandedAt_le (h : Recorded g root n expanded r) (id : NodeId) :
    (expandedAt expanded id).length ≤ g.size + 1 := by
  have hnd : (expandedAt expanded id).Nodup :=
    (List.isChain_iff_pairwise.1 (h.falling id)).imp fun hlt => Nat.ne_of_gt hlt
  have hsub : expandedAt expanded id ⊆ List.range (g.size + 1) := fun d hd =>
    List.mem_range.2 (Nat.lt_succ_of_le (h.trail id d (mem_expandedAt.1 hd)).2.1)
  simpa using (hnd.subperm hsub).length_le

end Recorded

theorem Course.recorded (hroot : root ∈ g.order) (h : Course g (.start root) n expanded r) :
    Recorded g root n expanded r := by
  induction h with
  | stay => exact .start
  | visit h hs ih => exact ih.step (h.inv hroot) (move_of_step? hs)

/-- What the expansions count for together, if no node is expanded more than `k` times. -/
theorem sum_expanded_le {order : List NodeId} {k : Nat} (f : NodeId → Nat) (hnd : order.Nodup)
    (hmem : ∀ e ∈ expanded, e.1 ∈ order) (hle : ∀ id, (expandedAt expanded id).length ≤ k) :
    (expanded.map fun e => f e.1).sum ≤ k * (order.map f).sum := by
  have hcount : ∀ id, (expanded.map Prod.fst).count id = (expandedAt expanded id).length := by
    intro id
    rw [List.count_eq_countP, List.countP_map, List.countP_eq_length_filter, expandedAt,
      List.length_map]
    rfl
  have hsub : (expanded.map Prod.fst).toFinset ⊆ order.toFinset := by
    intro id hid
    obtain ⟨e, he, rfl⟩ := List.mem_map.1 (List.mem_toFinset.1 hid)
    exact List.mem_toFinset.2 (hmem e he)
  calc (expanded.map fun e => f e.1).sum
      = ((expanded.map Prod.fst).map f).sum := by rw [List.map_map]; rfl
    _ = ∑ id ∈ (expanded.map Prod.fst).toFinset, (expandedAt expanded id).length * f id := by
        simp only [Finset.sum_list_map_count, hcount, smul_eq_mul]
    _ ≤ ∑ id ∈ (expanded.map Prod.fst).toFinset, k * f id :=
        Finset.sum_le_sum fun id _ => Nat.mul_le_mul_right _ (hle id)
    _ ≤ ∑ id ∈ order.toFinset, k * f id := Finset.sum_le_sum_of_subset hsub
    _ = k * (order.map f).sum := by rw [← Finset.mul_sum, List.sum_toFinset f hnd]

/-- How many visits a search can make. -/
theorem Course.le (hroot : root ∈ g.order) (h : Course g (.start root) n expanded r) :
    n ≤ 1 + (g.size + 1) * (g.order.map fun id => (g.arcs id).length).sum := by
  have hrecorded := h.recorded hroot
  have hsum := sum_expanded_le (fun id => (g.arcs id).length) g.nodup_order
    (fun e he => (hrecorded.trail e.1 e.2 he).1) hrecorded.length_expandedAt_le
  have hvisits := hrecorded.visits
  omega

end Relaxation

open Relaxation

variable {g : Adjacency} {root : NodeId}

theorem unplaced_reachedLevels_lt (hroot : root ∈ g.order) :
    unplaced g (reachedLevels g root) < g.size := by
  have hmem := (mem_reachedLevels_iff hroot).2 ⟨[], .start⟩
  exact List.countP_lt_length_iff.2 ⟨root, hroot, by simpa using hmem⟩

/-- **Leveling comes to an end.** While distances are searched for, each depth ever recorded for a
node is the number of edges of a way from the root, and at most the number of nodes; each time the
node is expanded its depth goes down, so that it is expanded at most once more than there are nodes;
and the search ends with an empty stack, since the number of visits is bounded. After that the other
nodes are placed in no more rounds than there are such nodes, and one more. No round changes a level
that there is, and all but the last one place a node. -/
theorem leveling_ends (g : Adjacency) (root : NodeId) (hroot : root ∈ g.order) :
    (∀ n expanded r, Course g (start root) n expanded r →
      (∀ id, r.depths[id]? = (expandedAt expanded id).getLast? ∧
        (expandedAt expanded id).IsChain (· > ·) ∧
        (expandedAt expanded id).length ≤ g.size + 1 ∧
        ∀ d ∈ expandedAt expanded id,
          d ≤ g.size ∧ ∃ p, Trail g.Leads root (id :: p) ∧ p.length = d) ∧
      n ≤ 1 + (g.size + 1) * (g.order.map fun id => (g.arcs id).length).sum) ∧
    (∃ n expanded r, Course g (start root) n expanded r ∧ r.stack = [] ∧
      r.depths = distances g root) ∧
    let reached := reachedLevels g root
    let after := fun i => (placeAll g)^[i] reached
    (level g root).levels = sink g (after (rounds g reached)) ∧
    rounds g reached ≤ (level g root).unreached + 1 ∧ (level g root).unreached < g.size ∧
    ∀ i < rounds g reached,
      (∀ id ∈ after i, (after (i + 1))[id]? = (after i)[id]?) ∧
      (i + 1 < rounds g reached ↔ ∃ id ∈ g.order, id ∉ after i ∧ id ∈ after (i + 1)) := by
  refine ⟨fun n expanded r h => ⟨fun id => ?_, h.le hroot⟩, ?_, ?_⟩
  · have hrecorded := h.recorded hroot
    exact ⟨hrecorded.last id, hrecorded.falling id, hrecorded.length_expandedAt_le id,
      fun d hd => (hrecorded.trail id d (mem_expandedAt.1 hd)).2⟩
  · obtain ⟨n, expanded, h⟩ := Course.exists_run g (start root)
    exact ⟨n, expanded, _, h, (inv_run hroot).2, rfl⟩
  · intro reached after
    have hnext : ∀ i, after (i + 1) = placeAll g (after i) := fun i =>
      Function.iterate_succ_apply' (placeAll g) i reached
    rw [level_of_mem hroot]
    refine ⟨congrArg (sink g) (iterate_rounds g reached).symm, rounds_le g reached,
      unplaced_reachedLevels_lt hroot, fun i hi => ⟨fun id hid => ?_, ?_⟩⟩
    · rw [hnext]
      exact getElem?_placeAll_eq_self (Or.inl hid)
    · exact succ_lt_rounds_iff g reached i hi

/-- Two ways to a node, of which the longer one is found first, and a way back from there. Two more
nodes lead to the root, and the nearer one is listed last. -/
def detour : Adjacency :=
  ofLists [1, 2, 3, 4, 5] [⟨0, 1, 2⟩, ⟨1, 2, 3⟩, ⟨2, 1, 3⟩, ⟨3, 3, 1⟩, ⟨4, 4, 5⟩, ⟨5, 5, 1⟩]

theorem order_detour : detour.order = [1, 2, 3, 4, 5] := by
  decide

theorem arcs_detour : detour.arcs 1 = [⟨0, 2⟩, ⟨2, 3⟩] ∧ detour.arcs 2 = [⟨1, 3⟩] ∧
    detour.arcs 3 = [⟨3, 1⟩] ∧ detour.arcs 4 = [⟨4, 5⟩] ∧ detour.arcs 5 = [⟨5, 1⟩] := by
  simp [detour, arcs_ofLists, Edge.arc]

/-- The longer way expands node `3` at depth `2`; from there the way back is dropped, and the shorter
way expands the node again. -/
theorem exists_course_detour : ∃ r,
    Course detour (start 1) 5 [(1, 0), (2, 1), (3, 2), (3, 1)] r := by
  obtain ⟨h₁, h₂, h₃, -, -⟩ := arcs_detour
  have hstart : Course detour (start 1) 0 [] (start 1) := .stay
  have hone := hstart.expand rfl (by simp [order_detour]) (by simp) (by simp [start])
  rw [h₁] at hone
  have htwo := hone.expand rfl (by simp [order_detour]) (by simp [size, order_detour])
    (by simp [start])
  rw [h₂] at htwo
  have hthree := htwo.expand rfl (by simp [order_detour]) (by simp [size, order_detour])
    (by simp [start])
  rw [h₃] at hthree
  have hback := hthree.drop rfl fun _ _ => ⟨0, Nat.zero_le _, by grind⟩
  exact ⟨_, hback.expand rfl (by simp [order_detour]) (by simp [size, order_detour])
    (by simp [start])⟩

theorem leveling_ends_detour :
    (1 : NodeId) ∈ detour.order ∧
      (∃ r, Course detour (start 1) 5 [(1, 0), (2, 1), (3, 2), (3, 1)] r ∧
        r.depths[(3 : NodeId)]? = some 1) ∧
      (∀ n expanded r, Course detour (start 1) n expanded r → n ≤ 37) ∧
      rounds detour (reachedLevels detour 1) ≤ 5 := by
  have hroot : (1 : NodeId) ∈ detour.order := by simp [order_detour]
  obtain ⟨hcourse, -, -, hrounds, hunreached, -⟩ := leveling_ends detour 1 hroot
  refine ⟨hroot, ?_, fun n expanded r h => ?_, ?_⟩
  · obtain ⟨r, h⟩ := exists_course_detour
    exact ⟨r, h, ((hcourse _ _ r h).1 3).1⟩
  · refine (hcourse n expanded r h).2.trans (Nat.le_of_eq ?_)
    simp [size, order_detour, arcs_detour]
  · exact hrounds.trans hunreached

end Flow

end IrView
