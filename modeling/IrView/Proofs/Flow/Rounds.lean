import Mathlib.Data.List.Nodup
import Mathlib.Logic.Function.Iterate
import IrView.Proofs.Flow.Placement

/-!
# Rounds of placing

What is placed in a round stays where it is. So a node that a round places is placed by the levels
of its turn (`getElem?_placeAll`): those from before the round, and those of nodes with an earlier
turn (`mem_turnLevels_iff`).

A round says whether it has placed a node (`progress_round_iff`), and nodes are placed in rounds
until one has not. So there are at most as many rounds as there are nodes to place, and a last one
(`rounds_le`, `succ_lt_rounds_iff`). More rounds would place no other node, so the levels in the end
are those after any number of rounds that is large enough (`placeAll_settle`,
`iterate_of_rounds_le`).
-/

namespace IrView

namespace Flow

variable {g : Adjacency} {levels : Levels} {order : List NodeId} {id node : NodeId} {n : Int}

/-! ### One turn -/

theorem mem_successorLevels :
    n ∈ successorLevels g levels id ↔ ∃ arc ∈ g.arcs id, levels[arc.target]? = some n := by
  simp [successorLevels]

theorem exists_successor_iff :
    (∃ arc ∈ g.arcs id, arc.target ∈ levels) ↔ successorLevels g levels id ≠ [] := by
  simp only [ne_eq, List.eq_nil_iff_forall_not_mem, mem_successorLevels, not_forall, not_not,
    Std.HashMap.mem_iff_isSome_getElem?, Option.isSome_iff_exists]
  tauto

theorem mem_congr {levels' : Levels} (h : levels[id]? = levels'[id]?) :
    id ∈ levels ↔ id ∈ levels' := by
  rw [Std.HashMap.mem_iff_isSome_getElem?, h, Std.HashMap.mem_iff_isSome_getElem?]

theorem getElem?_place_of_ne (h : node ≠ id) : (place g levels node)[id]? = levels[id]? := by
  rcases place_cases g levels node with ⟨-, he⟩ | ⟨n, -, -, he⟩
  · rw [he]
  · simp [he, Std.HashMap.getElem?_insert, h]

theorem getElem?_foldl_place_of_notMem (h : id ∉ order) :
    (order.foldl (place g) levels)[id]? = levels[id]? := by
  induction order generalizing levels with
  | nil => rfl
  | cons node order ih =>
    rw [List.mem_cons, not_or] at h
    rw [List.foldl_cons, ih h.2, getElem?_place_of_ne (Ne.symm h.1)]

/-! ### One round -/

/-- The levels when a node has its turn in a round. -/
def turnLevels (g : Adjacency) (levels : Levels) (id : NodeId) : Levels :=
  (g.order.take (g.order.idxOf id)).foldl (place g) levels

/-- A round goes on from the turn of a node. -/
theorem placeAll_eq_foldl (g : Adjacency) (levels : Levels) (id : NodeId) : placeAll g levels =
    (g.order.drop (g.order.idxOf id)).foldl (place g) (turnLevels g levels id) := by
  rw [placeAll_eq, turnLevels, ← List.foldl_append, List.take_append_drop]

theorem getElem?_placeAll_of_mem_turnLevels (h : node ∈ turnLevels g levels id) :
    (placeAll g levels)[node]? = (turnLevels g levels id)[node]? := by
  rw [placeAll_eq_foldl g levels id]
  exact getElem?_foldl_place _ (Or.inl h)

/-- At its turn a node meets the levels from before the round and those of earlier turns. -/
theorem mem_turnLevels_iff : node ∈ turnLevels g levels id ↔ node ∈ levels ∨
    node ∈ placeAll g levels ∧ g.order.idxOf node < g.order.idxOf id := by
  constructor
  · intro h
    refine or_iff_not_imp_left.2 fun hnew => ?_
    have hearlier : node ∈ g.order.take (g.order.idxOf id) := by
      by_contra hno
      exact hnew ((mem_congr (getElem?_foldl_place_of_notMem hno)).1 h)
    exact ⟨(mem_congr (getElem?_placeAll_of_mem_turnLevels h)).2 h,
      (List.mem_take_iff_idxOf_lt (List.mem_of_mem_take hearlier)).1 hearlier⟩
  · rintro (h | ⟨h, hlt⟩)
    · exact (mem_congr (getElem?_foldl_place _ (Or.inl h))).2 h
    · have hk : node ∈ g.order :=
        List.idxOf_lt_length_iff.1 (hlt.trans_le List.idxOf_le_length)
      have hno : node ∉ g.order.drop (g.order.idxOf id) :=
        List.disjoint_take_drop g.nodup_order (Nat.le_refl _)
          ((List.mem_take_iff_idxOf_lt hk).2 hlt)
      rw [placeAll_eq_foldl g levels id] at h
      exact (mem_congr (getElem?_foldl_place_of_notMem hno)).1 h

/-- After its turn nothing is done with a node in a round. -/
theorem getElem?_placeAll (hk : id ∈ g.order) :
    (placeAll g levels)[id]? = (place g (turnLevels g levels id) id)[id]? := by
  have hlt := List.idxOf_lt_length_iff.2 hk
  have hdrop : g.order.drop (g.order.idxOf id) = id :: g.order.drop (g.order.idxOf id + 1) := by
    rw [List.drop_eq_getElem_cons hlt, List.getElem_idxOf hlt]
  have hno : id ∉ g.order.drop (g.order.idxOf id + 1) :=
    (List.nodup_cons.1 (hdrop ▸ g.nodup_order.drop)).1
  rw [placeAll_eq_foldl g levels id, hdrop, List.foldl_cons, getElem?_foldl_place_of_notMem hno]

theorem notMem_turnLevels_self (hid : id ∉ levels) : id ∉ turnLevels g levels id := by
  rw [mem_turnLevels_iff]
  rintro (h | ⟨-, hlt⟩)
  · exact hid h
  · exact Nat.lt_irrefl _ hlt

/-- A round places a node if one of its successors has a level at its turn. -/
theorem mem_placeAll_of_successor (hk : id ∈ g.order)
    (h : ∃ arc ∈ g.arcs id, arc.target ∈ turnLevels g levels id) : id ∈ placeAll g levels := by
  rw [mem_congr (getElem?_placeAll hk)]
  rcases place_cases g (turnLevels g levels id) id with ⟨hkeep, he⟩ | ⟨n, -, -, he⟩
  · rw [he]
    exact hkeep.resolve_right (exists_successor_iff.1 h)
  · rw [he]
    exact Std.HashMap.mem_insert_self

/-- A node that a round places is placed above the highest of its successors at its turn. -/
theorem isLeast_of_placeAll (hid : id ∉ levels) (h : (placeAll g levels)[id]? = some n) :
    id ∈ g.order ∧ IsLeast {m | m ∈ successorLevels g (turnLevels g levels id) id} (n + 1) := by
  have hk : id ∈ g.order := by
    by_contra hno
    rw [placeAll_eq, getElem?_foldl_place_of_notMem hno] at h
    exact hid (Std.HashMap.getElem?_eq_some_iff.1 h).1
  rw [getElem?_placeAll hk] at h
  rcases place_cases g (turnLevels g levels id) id with ⟨-, he⟩ | ⟨m, -, hleast, he⟩
  · rw [he] at h
    exact absurd (Std.HashMap.getElem?_eq_some_iff.1 h).1 (notMem_turnLevels_self hid)
  · rw [he, Std.HashMap.getElem?_insert_self] at h
    exact ⟨hk, Option.some.inj h ▸ hleast⟩

theorem exists_successor_of_placeAll (hid : id ∉ levels) (h : id ∈ placeAll g levels) :
    id ∈ g.order ∧ ∃ arc ∈ g.arcs id, arc.target ∈ turnLevels g levels id := by
  obtain ⟨n, hn⟩ := Option.isSome_iff_exists.1 (Std.HashMap.mem_iff_isSome_getElem?.1 h)
  obtain ⟨hk, hleast⟩ := isLeast_of_placeAll hid hn
  exact ⟨hk, exists_successor_iff.2 (List.ne_nil_of_mem hleast.1)⟩

theorem placeAll_eq_self (h : ¬ (round g levels).progress = true) : placeAll g levels = levels := by
  rcases round_cases g levels with hround | ⟨hprogress, -⟩
  · rw [placeAll, hround]
  · exact absurd hprogress h

/-- A round says that it has placed a node just if it has placed one. -/
theorem progress_round_iff : (round g levels).progress = true ↔
    ∃ id ∈ g.order, id ∉ levels ∧ id ∈ placeAll g levels := by
  constructor
  · intro h
    by_contra hno
    refine Nat.not_le_of_lt (unplaced_placeAll_lt h) (List.countP_mono_left fun id hk hid => ?_)
    simp only [Bool.not_eq_true', Std.HashMap.contains_eq_false_iff_not_mem] at hid ⊢
    exact fun hnext => hno ⟨id, hk, hid, hnext⟩
  · rintro ⟨id, -, hid, hnext⟩
    by_contra h
    exact hid (placeAll_eq_self h ▸ hnext)

/-! ### All rounds -/

/-- In the end one more round would place no node. -/
theorem placeAll_settle (g : Adjacency) (levels : Levels) :
    placeAll g (settle g levels) = settle g levels := by
  induction levels using settle.induct g with
  | case1 levels next hprogress ih =>
    rw [settle, if_pos hprogress]
    exact ih
  | case2 levels next hprogress =>
    have hnext : next.levels = levels := placeAll_eq_self hprogress
    rw [settle, if_neg hprogress, hnext, placeAll_eq_self hprogress]

/-- The number of rounds that `settle` makes, the last one included. -/
def rounds (g : Adjacency) (levels : Levels) : Nat :=
  let next := round g levels
  if next.progress then rounds g next.levels + 1 else 1
  termination_by unplaced g levels
  decreasing_by exact unplaced_placeAll_lt ‹_›

theorem rounds_pos (g : Adjacency) (levels : Levels) : 0 < rounds g levels := by
  rw [rounds]
  split_ifs
  · exact Nat.succ_pos _
  · exact Nat.one_pos

theorem iterate_rounds (g : Adjacency) (levels : Levels) :
    (placeAll g)^[rounds g levels] levels = settle g levels := by
  induction levels using settle.induct g with
  | case1 levels next hprogress ih =>
    rw [rounds, if_pos hprogress, settle, if_pos hprogress, ← ih]
    rfl
  | case2 levels next hprogress =>
    rw [rounds, if_neg hprogress, settle, if_neg hprogress]
    rfl

/-- Every round but the last one takes one node at least. -/
theorem rounds_le (g : Adjacency) (levels : Levels) : rounds g levels ≤ unplaced g levels + 1 := by
  induction levels using settle.induct g with
  | case1 levels next hprogress ih =>
    rw [rounds, if_pos hprogress]
    exact Nat.succ_le_succ (ih.trans (unplaced_placeAll_lt hprogress))
  | case2 levels next hprogress =>
    rw [rounds, if_neg hprogress]
    exact Nat.le_add_left 1 _

/-- A round is followed by another one just if it places a node. -/
theorem succ_lt_rounds_iff (g : Adjacency) (levels : Levels) : ∀ i < rounds g levels,
    (i + 1 < rounds g levels ↔
      ∃ id ∈ g.order, id ∉ (placeAll g)^[i] levels ∧ id ∈ (placeAll g)^[i + 1] levels) := by
  induction levels using settle.induct g with
  | case1 levels next hprogress ih =>
    rw [rounds, if_pos hprogress]
    rintro (_ | i) hi
    · have hpos := Nat.succ_lt_succ (rounds_pos g next.levels)
      exact iff_of_true hpos (progress_round_iff.1 hprogress)
    · rw [Nat.add_lt_add_iff_right, ih i (Nat.lt_of_succ_lt_succ hi)]
      rfl
  | case2 levels next hprogress =>
    rw [rounds, if_neg hprogress]
    intro i hi
    obtain rfl : i = 0 := Nat.lt_one_iff.1 hi
    exact iff_of_false (Nat.lt_irrefl 1) (mt progress_round_iff.2 hprogress)

/-- What the placing of a node keeps holds in the end. -/
theorem settle_induction {P : Levels → Prop}
    (hplace : ∀ levels id, P levels → P (place g levels id)) (h : P levels) :
    P (settle g levels) := by
  have hround : ∀ (order : List NodeId) (levels : Levels), P levels →
      P (order.foldl (place g) levels) := by
    intro order
    induction order with
    | nil => exact fun levels h => h
    | cons id order ih => exact fun levels h => ih _ (hplace levels id h)
  rw [← iterate_rounds]
  generalize rounds g levels = k
  induction k generalizing levels with
  | zero => exact h
  | succ k ih => exact ih (placeAll_eq g levels ▸ hround g.order levels h)

/-- More rounds than are made leave the levels as they are in the end. -/
theorem iterate_of_rounds_le {l : Nat} (hl : rounds g levels ≤ l) :
    (placeAll g)^[l] levels = settle g levels := by
  obtain ⟨m, rfl⟩ := Nat.exists_eq_add_of_le' hl
  rw [Function.iterate_add_apply, iterate_rounds, Function.iterate_fixed (placeAll_settle g levels)]

theorem getElem?_iterate (k : Nat) (h : id ∈ levels) :
    ((placeAll g)^[k] levels)[id]? = levels[id]? := by
  induction k generalizing levels with
  | zero => rfl
  | succ k ih =>
    have hnext := getElem?_placeAll_eq_self (g := g) (Or.inl h)
    rw [Function.iterate_succ_apply, ih ((mem_congr hnext).2 h), hnext]

/-- More rounds leave what is placed. -/
theorem mem_iterate_of_le {k l : Nat} (hkl : k ≤ l) (h : id ∈ (placeAll g)^[k] levels) :
    id ∈ (placeAll g)^[l] levels := by
  obtain ⟨m, rfl⟩ := Nat.exists_eq_add_of_le' hkl
  rw [Function.iterate_add_apply]
  exact (mem_congr (getElem?_iterate m h)).2 h

/-- What a round places keeps its level. -/
theorem getElem?_settle_of_mem {k : Nat} (h : id ∈ (placeAll g)^[k] levels) :
    (settle g levels)[id]? = ((placeAll g)^[k] levels)[id]? := by
  rw [← iterate_of_rounds_le (Nat.le_add_right (rounds g levels) k), Function.iterate_add_apply,
    getElem?_iterate _ h]

/-- What has a level at a turn keeps it. -/
theorem getElem?_settle_of_mem_turnLevels {k : Nat}
    (h : node ∈ turnLevels g ((placeAll g)^[k] levels) id) :
    (settle g levels)[node]? = (turnLevels g ((placeAll g)^[k] levels) id)[node]? := by
  have hround := getElem?_placeAll_of_mem_turnLevels h
  have hmem := (mem_congr hround).2 h
  rw [← Function.iterate_succ_apply' (placeAll g)] at hmem hround
  rw [getElem?_settle_of_mem hmem, hround]

theorem mem_settle_iff : id ∈ settle g levels ↔ ∃ k, id ∈ (placeAll g)^[k] levels := by
  have hend := iterate_rounds g levels
  exact ⟨fun h => ⟨rounds g levels, hend ▸ h⟩,
    fun ⟨_, h⟩ => (mem_congr (getElem?_settle_of_mem h)).2 h⟩

end Flow

end IrView
