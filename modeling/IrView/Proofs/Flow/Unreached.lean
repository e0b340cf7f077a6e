import Mathlib.Algebra.Order.Group.Nat
import Mathlib.Order.SuccPred.Archimedean
import IrView.Proofs.Flow.Distance
import IrView.Proofs.Flow.Rounds

/-!
# The nodes that the root does not reach

A node that the root does not reach is placed in rounds if a way leads from it to a node that the
root reaches. In which round depends on the order of the nodes: a successor counts in the round in
which it is placed itself only if its turn is earlier (`Adjacency.Due`, `mem_iterate_iff`). So the
graph alone tells which successors have a level when a node is placed (`Adjacency.Precedes`), and
the node goes above the highest one of these (`exists_level_above`).

Hence each of these nodes has a successor right below it, so that it lies above the greatest
distance from the root. The other nodes go on the level of the greatest distance itself
(`level_of_unreached`).
-/

namespace IrView

namespace Flow

open Relation

namespace Adjacency

/-- A way leads from the node to one that the root reaches. -/
def Meets (g : Adjacency) (root u : NodeId) : Prop :=
  ∃ w, ReflTransGen g.Leads u w ∧ ReflTransGen g.Leads root w

/-- The node has a level after so many rounds. -/
inductive Due (g : Adjacency) (root : NodeId) : Nat → NodeId → Prop
  /-- The root reaches the node. -/
  | reached {u : NodeId} : ReflTransGen g.Leads root u → Due g root 0 u
  /-- A successor has a level before the round. -/
  | after {k : Nat} {u v : NodeId} : g.Leads u v → Due g root k v → Due g root (k + 1) u
  /-- A successor has a level in the round, and its turn is earlier. -/
  | behind {k : Nat} {u v : NodeId} : g.Leads u v → g.order.idxOf v < g.order.idxOf u →
      Due g root (k + 1) v → Due g root (k + 1) u

/-- One node has a level before it is the turn of another one to be placed. -/
def Precedes (g : Adjacency) (root v u : NodeId) : Prop :=
  ∃ k, g.Due root k v ∧
    ∀ j, g.Due root j u → k < j ∨ k = j ∧ g.order.idxOf v < g.order.idxOf u

variable {g : Adjacency} {root u v : NodeId} {k : Nat}

theorem Due.mem_order (hroot : root ∈ g.order) (h : g.Due root k u) : u ∈ g.order := by
  cases h with
  | reached h =>
    obtain ⟨p, hp⟩ := Trail.exists_of_reaches h
    exact mem_order_of_trail hroot hp _ List.mem_cons_self
  | after h => exact h.1
  | behind h => exact h.1

theorem Precedes.mem_order (hroot : root ∈ g.order) (h : g.Precedes root v u) : v ∈ g.order := by
  obtain ⟨k, hdue, -⟩ := h
  exact hdue.mem_order hroot

theorem meets_iff_exists_due : g.Meets root u ↔ ∃ k, g.Due root k u := by
  constructor
  · rintro ⟨w, hw, hreached⟩
    induction hw using ReflTransGen.head_induction_on with
    | refl => exact ⟨0, .reached hreached⟩
    | head h _ ih =>
      obtain ⟨k, hk⟩ := ih
      exact ⟨k + 1, .after h hk⟩
  · rintro ⟨k, hk⟩
    induction hk with
    | reached h => exact ⟨_, .refl, h⟩
    | after h _ ih | behind h _ _ ih =>
      obtain ⟨w, hw, hreached⟩ := ih
      exact ⟨w, .head h hw, hreached⟩

theorem Precedes.meets (h : g.Precedes root v u) : g.Meets root v := by
  obtain ⟨k, hdue, -⟩ := h
  exact meets_iff_exists_due.2 ⟨k, hdue⟩

end Adjacency

open Adjacency

variable {g : Adjacency} {root u v : NodeId} {n : Int} {k : Nat}

theorem mem_reachedLevels_iff_reaches (hroot : root ∈ g.order) :
    v ∈ reachedLevels g root ↔ ReflTransGen g.Leads root v :=
  (mem_reachedLevels_iff hroot).trans Trail.reaches_iff.symm

theorem exists_distance_of_reaches (hroot : root ∈ g.order) (h : ReflTransGen g.Leads root v) :
    ∃ d, g.Distance root v d := by
  obtain ⟨p, hp⟩ := Trail.exists_of_reaches h
  exact exists_distance hroot hp

/-! ### Who is placed when -/

theorem mem_iterate_of_due (hroot : root ∈ g.order) (h : g.Due root k u) {l : Nat} (hkl : k ≤ l) :
    u ∈ (placeAll g)^[l] (reachedLevels g root) := by
  induction h generalizing l with
  | reached h =>
    exact mem_iterate_of_le hkl ((mem_reachedLevels_iff_reaches hroot).2 h)
  | @after k u v h _ ih =>
    obtain ⟨m, rfl⟩ := Nat.exists_eq_add_of_le' (Nat.one_le_of_lt hkl)
    obtain ⟨hk, -, arc, harc, rfl⟩ := h
    rw [Function.iterate_succ_apply']
    exact mem_placeAll_of_successor hk
      ⟨arc, harc, mem_turnLevels_iff.2 (Or.inl (ih (Nat.le_of_succ_le_succ hkl)))⟩
  | @behind k u v h hlt _ ih =>
    obtain ⟨m, rfl⟩ := Nat.exists_eq_add_of_le' (Nat.one_le_of_lt hkl)
    obtain ⟨hk, -, arc, harc, rfl⟩ := h
    have hplaced := ih hkl
    rw [Function.iterate_succ_apply'] at hplaced ⊢
    exact mem_placeAll_of_successor hk ⟨arc, harc, mem_turnLevels_iff.2 (Or.inr ⟨hplaced, hlt⟩)⟩

/-- A node has a level after some rounds just if that follows from the order of the nodes. -/
theorem mem_iterate_iff (hroot : root ∈ g.order) :
    u ∈ (placeAll g)^[k] (reachedLevels g root) ↔ ∃ j ≤ k, g.Due root j u := by
  refine ⟨fun h => ?_, fun ⟨j, hj, h⟩ => mem_iterate_of_due hroot h hj⟩
  induction k generalizing u with
  | zero => exact ⟨0, Nat.le_refl 0, .reached ((mem_reachedLevels_iff_reaches hroot).1 h)⟩
  | succ k ih =>
    -- within a round, by the order of the turns
    induction hi : g.order.idxOf u using Nat.strongRecOn generalizing u with
    | _ i ihturn =>
      by_cases hbefore : u ∈ (placeAll g)^[k] (reachedLevels g root)
      · obtain ⟨j, hj, hdue⟩ := ih hbefore
        exact ⟨j, Nat.le_succ_of_le hj, hdue⟩
      · rw [Function.iterate_succ_apply'] at h
        obtain ⟨hk, arc, harc, ht⟩ := exists_successor_of_placeAll hbefore h
        rcases mem_turnLevels_iff.1 ht with ht | ⟨ht, hlt⟩
        · obtain ⟨j, hj, hdue⟩ := ih ht
          exact ⟨j + 1, Nat.succ_le_succ hj, .after ⟨hk, hdue.mem_order hroot, arc, harc, rfl⟩ hdue⟩
        · rw [← Function.iterate_succ_apply' (placeAll g)] at ht
          obtain ⟨j, hj, hdue⟩ := ihturn _ (hi ▸ hlt) ht rfl
          have hleads : g.Leads u arc.target := ⟨hk, hdue.mem_order hroot, arc, harc, rfl⟩
          cases j with
          | zero => exact ⟨1, Nat.le_add_left 1 k, .after hleads hdue⟩
          | succ j => exact ⟨j + 1, hj, .behind hleads hlt hdue⟩

theorem mem_settle_iff_meets (hroot : root ∈ g.order) :
    u ∈ settle g (reachedLevels g root) ↔ g.Meets root u := by
  rw [mem_settle_iff, meets_iff_exists_due]
  constructor
  · rintro ⟨k, h⟩
    obtain ⟨j, -, hdue⟩ := (mem_iterate_iff hroot).1 h
    exact ⟨j, hdue⟩
  · rintro ⟨k, h⟩
    exact ⟨k, mem_iterate_of_due hroot h (Nat.le_refl k)⟩

/-- Some round places the node. -/
theorem exists_round (hroot : root ∈ g.order) (hu : ¬ ReflTransGen g.Leads root u)
    (hmeets : g.Meets root u) : ∃ k, u ∉ (placeAll g)^[k] (reachedLevels g root) ∧
      u ∈ (placeAll g)^[k + 1] (reachedLevels g root) := by
  obtain ⟨k, hk⟩ := mem_settle_iff.1 ((mem_settle_iff_meets hroot).2 hmeets)
  induction k with
  | zero => exact absurd ((mem_reachedLevels_iff_reaches hroot).1 hk) hu
  | succ k ih =>
    by_cases hbefore : u ∈ (placeAll g)^[k] (reachedLevels g root)
    · exact ih hbefore
    · exact ⟨k, hbefore, hk⟩

/-- In the round that places a node, the successors that have a level at its turn are those that
precede it. -/
theorem mem_turnLevels_iff_precedes (hroot : root ∈ g.order)
    (hbefore : u ∉ (placeAll g)^[k] (reachedLevels g root))
    (hplaced : u ∈ (placeAll g)^[k + 1] (reachedLevels g root)) :
    v ∈ turnLevels g ((placeAll g)^[k] (reachedLevels g root)) u ↔ g.Precedes root v u := by
  have hlater : ∀ j, g.Due root j u → k < j := fun j hj => by
    by_contra hle
    exact hbefore (mem_iterate_of_due hroot hj (Nat.le_of_not_lt hle))
  have hdue : g.Due root (k + 1) u := by
    obtain ⟨j, hj, hdue⟩ := (mem_iterate_iff hroot).1 hplaced
    exact Nat.le_antisymm hj (hlater j hdue) ▸ hdue
  rw [mem_turnLevels_iff, ← Function.iterate_succ_apply' (placeAll g), mem_iterate_iff hroot,
    mem_iterate_iff hroot]
  constructor
  · rintro (⟨i, hi, hv⟩ | ⟨⟨i, hi, hv⟩, hlt⟩)
    · exact ⟨i, hv, fun j hj => Or.inl (Nat.lt_of_le_of_lt hi (hlater j hj))⟩
    · refine ⟨i, hv, fun j hj => ?_⟩
      have := hlater j hj
      omega
  · rintro ⟨i, hv, hfirst⟩
    rcases hfirst _ hdue with hlt | ⟨rfl, hlt⟩
    · exact Or.inl ⟨i, Nat.le_of_lt_succ hlt, hv⟩
    · exact Or.inr ⟨⟨k + 1, Nat.le_refl _, hv⟩, hlt⟩

/-! ### Where nodes are placed -/

/-- A node is placed above the highest one of the successors that precede it. -/
theorem exists_isLeast_settle (hroot : root ∈ g.order) (hu : ¬ ReflTransGen g.Leads root u)
    (hmeets : g.Meets root u) : ∃ n, (settle g (reachedLevels g root))[u]? = some n ∧
      IsLeast {m | ∃ v, g.Leads u v ∧ g.Precedes root v u ∧
        (settle g (reachedLevels g root))[v]? = some m} (n + 1) := by
  obtain ⟨k, hbefore, hplaced⟩ := exists_round hroot hu hmeets
  have hturn : ∀ v, v ∈ turnLevels g ((placeAll g)^[k] (reachedLevels g root)) u ↔
      g.Precedes root v u := fun v => mem_turnLevels_iff_precedes hroot hbefore hplaced
  obtain ⟨n, hn⟩ := Option.isSome_iff_exists.1 (Std.HashMap.mem_iff_isSome_getElem?.1 hplaced)
  refine ⟨n, (getElem?_settle_of_mem hplaced).trans hn, ?_⟩
  rw [Function.iterate_succ_apply'] at hn
  obtain ⟨hk, hleast⟩ := isLeast_of_placeAll hbefore hn
  convert hleast using 1
  ext m
  constructor
  · rintro ⟨v, ⟨-, -, arc, harc, rfl⟩, hv, hm⟩
    exact mem_successorLevels.2
      ⟨arc, harc, getElem?_settle_of_mem_turnLevels ((hturn _).2 hv) ▸ hm⟩
  · intro h
    obtain ⟨arc, harc, hm⟩ := mem_successorLevels.1 h
    have hmem := (Std.HashMap.getElem?_eq_some_iff.1 hm).1
    have hprecedes := (hturn _).1 hmem
    have hleads : g.Leads u arc.target := ⟨hk, hprecedes.mem_order hroot, arc, harc, rfl⟩
    exact ⟨arc.target, hleads, hprecedes, (getElem?_settle_of_mem_turnLevels hmem).trans hm⟩

theorem level_eq_settle (hroot : root ∈ g.order) (hu : g.Meets root u) :
    (level g root).levels[u]? = (settle g (reachedLevels g root))[u]? := by
  obtain ⟨n, hn⟩ := Option.isSome_iff_exists.1
    (Std.HashMap.mem_iff_isSome_getElem?.1 ((mem_settle_iff_meets hroot).2 hu))
  rw [level_of_mem hroot, getElem?_sink, hn, Option.some_or]

theorem exists_level_above (hroot : root ∈ g.order) (hu : ¬ ReflTransGen g.Leads root u)
    (hmeets : g.Meets root u) : ∃ n, (level g root).levels[u]? = some n ∧
      IsLeast {m | ∃ v, g.Leads u v ∧ g.Precedes root v u ∧
        (level g root).levels[v]? = some m} (n + 1) := by
  obtain ⟨n, hn, hleast⟩ := exists_isLeast_settle hroot hu hmeets
  refine ⟨n, (level_eq_settle hroot hmeets).trans hn, ?_⟩
  convert hleast using 6 with m v
  exact and_congr_right fun h => by rw [level_eq_settle hroot h.meets]

/-! ### Levels and the greatest distance -/

/-- Some distance from the root is the greatest. -/
theorem exists_isGreatest_distance (hroot : root ∈ g.order) :
    ∃ far, IsGreatest {d | ∃ v, g.Distance root v d} far := by
  refine BddAbove.exists_isGreatest_of_nonempty ⟨g.size, ?_⟩ ⟨0, root, distance_root⟩
  rintro d ⟨v, ⟨p, hp, -⟩, hle⟩
  obtain ⟨q, hq, hnd, -⟩ := hp.exists_nodup v rfl
  have hlength := length_le_of_trail hroot hq hnd
  rw [List.length_cons] at hlength
  exact (hle q hq).trans (Nat.le_of_succ_le hlength)

/-- All levels are bounded, and those of nodes that the root does not reach strictly. -/
structure Bounded (g : Adjacency) (root : NodeId) (far : Nat) (levels : Levels) : Prop where
  le : ∀ (id : NodeId) (n : Int), levels[id]? = some n → n ≤ far
  lt : ∀ (id : NodeId) (n : Int), levels[id]? = some n → ¬ ReflTransGen g.Leads root id → n < far

theorem Bounded.place {far : Nat} {levels : Levels} (h : Bounded g root far levels) :
    Bounded g root far (place g levels u) := by
  rcases place_cases g levels u with ⟨-, he⟩ | ⟨m, -, hleast, he⟩
  · rw [he]
    exact h
  · obtain ⟨arc, -, ht⟩ := mem_successorLevels.1 hleast.1
    have hm := h.le _ _ ht
    have hlevel : ∀ (id : NodeId) (n : Int), (levels.insert u m)[id]? = some n →
        n = m ∨ levels[id]? = some n := by
      intro id n hn
      rw [Std.HashMap.getElem?_insert] at hn
      split_ifs at hn
      · exact Or.inl (Option.some.inj hn).symm
      · exact Or.inr hn
    rw [he]
    refine ⟨fun id n hn => ?_, fun id n hn hid => ?_⟩
    · rcases hlevel id n hn with rfl | hn
      · omega
      · exact h.le id n hn
    · rcases hlevel id n hn with rfl | hn
      · omega
      · exact h.lt id n hn hid

theorem bounded_settle (hroot : root ∈ g.order) {far : Nat}
    (hfar : IsGreatest {d | ∃ v, g.Distance root v d} far) :
    Bounded g root far (settle g (reachedLevels g root)) := by
  have hreached : ∀ (id : NodeId) (n : Int), (reachedLevels g root)[id]? = some n →
      ReflTransGen g.Leads root id ∧ n ≤ far := by
    intro id n hn
    have hid := (mem_reachedLevels_iff_reaches hroot).1 (Std.HashMap.getElem?_eq_some_iff.1 hn).1
    obtain ⟨d, hd⟩ := exists_distance_of_reaches hroot hid
    rw [getElem?_reachedLevels hroot hd, Option.some.injEq] at hn
    exact ⟨hid, hn ▸ Int.ofNat_le.2 (hfar.2 ⟨id, hd⟩)⟩
  have hstart : Bounded g root far (reachedLevels g root) :=
    ⟨fun id n hn => (hreached id n hn).2, fun id n hn hid => absurd (hreached id n hn).1 hid⟩
  exact settle_induction (fun _ _ h => h.place) hstart

/-- A node from which no way leads to one that the root reaches goes on the level of the greatest
distance. -/
theorem level_of_not_meets (hroot : root ∈ g.order) {far : Nat}
    (hfar : IsGreatest {d | ∃ v, g.Distance root v d} far) (hk : u ∈ g.order)
    (hu : ¬ g.Meets root u) : (level g root).levels[u]? = some (far : Int) := by
  have hnone : (settle g (reachedLevels g root))[u]? = none :=
    Std.HashMap.getElem?_eq_none (mt (mem_settle_iff_meets hroot).1 hu)
  have hbounded := bounded_settle hroot hfar
  obtain ⟨v, hv⟩ := hfar.1
  obtain ⟨p, hp, -⟩ := hv.1
  rw [level_of_mem hroot, getElem?_sink, hnone, Option.none_or, if_pos hk,
    List.max?_eq_some_iff]
  refine ⟨List.mem_filterMap.2 ⟨v, ?_, ?_⟩, fun n hn => ?_⟩
  · exact mem_order_of_trail hroot hp _ List.mem_cons_self
  · rw [← level_eq_settle hroot ⟨v, .refl, hp.reaches⟩]
    exact getElem?_level hroot hv
  · obtain ⟨id, -, hid⟩ := List.mem_filterMap.1 hn
    exact hbounded.le id n hid

/-- **Where the nodes lie that the root does not reach.** All nodes have a level, and those that the
root reaches have the one that they had before the others were placed, their distance. Another
node, if a way leads from it to one of these, lies right above one of its successors, and above the
greatest distance from the root; if no way does, it lies on the level of the greatest distance. -/
theorem level_of_unreached (g : Adjacency) (root : NodeId) (hroot : root ∈ g.order) :
    let levels := (level g root).levels
    (∀ v ∈ g.order, ∃ n, levels[v]? = some n) ∧
    (∀ v, ReflTransGen g.Leads root v → levels[v]? = (reachedLevels g root)[v]? ∧
      ∃ d : Nat, g.Distance root v d ∧ levels[v]? = some (d : Int)) ∧
    ∃ far : Nat, IsGreatest {d | ∃ v, g.Distance root v d} far ∧
      ∀ u ∈ g.order, ¬ ReflTransGen g.Leads root u →
        (g.Meets root u → ∃ n : Int, levels[u]? = some n ∧ n < far ∧
          ∃ v, g.Leads u v ∧ levels[v]? = some (n + 1)) ∧
        (¬ g.Meets root u → levels[u]? = some (far : Int)) := by
  intro levels
  obtain ⟨far, hfar⟩ := exists_isGreatest_distance hroot
  refine ⟨fun v hv => exists_level hroot hv, fun v hv => ?_, far, hfar,
    fun u hk hu => ⟨fun hmeets => ?_, level_of_not_meets hroot hfar hk⟩⟩
  · obtain ⟨d, hd⟩ := exists_distance_of_reaches hroot hv
    have hlevel := getElem?_level hroot hd
    exact ⟨hlevel.trans (getElem?_reachedLevels hroot hd).symm, d, hd, hlevel⟩
  · obtain ⟨n, hn, ⟨v, hleads, -, hv⟩, -⟩ := exists_level_above hroot hu hmeets
    exact ⟨n, hn, (bounded_settle hroot hfar).lt u n (level_eq_settle hroot hmeets ▸ hn) hu,
      v, hleads, hv⟩

/-- Beside an edge from the root, a node that leads to the same node and one in a loop. -/
def strayLoop : List Edge :=
  [⟨0, 1, 2⟩, ⟨1, 3, 2⟩, ⟨2, 4, 4⟩]

theorem leads_strayLoop (h : (ofLists [1, 2, 3, 4] strayLoop).Leads u v) :
    u = 1 ∧ v = 2 ∨ u = 3 ∧ v = 2 ∨ u = 4 ∧ v = 4 := by
  obtain ⟨-, -, e, he, rfl, rfl⟩ := leads_ofLists.1 h
  revert h e
  simp [strayLoop]

theorem level_of_unreached_strayLoop :
    let g := ofLists [1, 2, 3, 4] strayLoop
    (1 : NodeId) ∈ g.order ∧ (level g 1).levels[(3 : NodeId)]? = some 0 ∧
      (level g 1).levels[(4 : NodeId)]? = some 1 := by
  intro g
  have hroot : (1 : NodeId) ∈ g.order := mem_order_ofLists.2 (by decide)
  have hreach : ∀ v, ReflTransGen g.Leads 1 v → v = 1 ∨ v = 2 := by
    intro v hv
    induction hv with
    | refl => exact Or.inl rfl
    | tail _ h ih =>
      have := leads_strayLoop h
      grind
  have hstay : ∀ v, ReflTransGen g.Leads 4 v → v = 4 := by
    intro v hv
    induction hv with
    | refl => rfl
    | tail _ h ih =>
      have := leads_strayLoop h
      grind
  have hone : g.Leads 1 2 := leads_ofLists.2 (by decide)
  have hthree : g.Leads 3 2 := leads_ofLists.2 (by decide)
  have hdistance : g.Distance 1 2 1 := by
    refine ⟨⟨[1], .extend .start hone, rfl⟩, fun p hp => ?_⟩
    cases hp with
    | extend => exact Nat.le_add_left 1 _
  obtain ⟨-, -, far, ⟨⟨v, hv⟩, hfar⟩, hunreached⟩ := level_of_unreached g 1 hroot
  -- no node that the root reaches is farther than `2`
  obtain rfl : far = 1 := by
    refine Nat.le_antisymm ?_ (hfar ⟨2, hdistance⟩)
    obtain ⟨p, hp, -⟩ := hv.1
    rcases hreach v hp.reaches with rfl | rfl
    · exact (hv.2 [] .start).trans (Nat.zero_le 1)
    · exact hv.2 [1] (.extend .start hone)
  refine ⟨hroot, ?_, ?_⟩
  · have hno : ¬ ReflTransGen g.Leads 1 3 := fun h => by simpa using hreach 3 h
    obtain ⟨n, hn, -, w, hw, hlevel⟩ :=
      (hunreached 3 (mem_order_ofLists.2 (by decide)) hno).1 ⟨2, .single hthree, .single hone⟩
    obtain rfl : w = 2 := by simpa using leads_strayLoop hw
    rw [getElem?_level hroot hdistance, Option.some.injEq] at hlevel
    rw [hn, Option.some.injEq]
    omega
  · have hno : ¬ ReflTransGen g.Leads 1 4 := fun h => by simpa using hreach 4 h
    refine (hunreached 4 (mem_order_ofLists.2 (by decide)) hno).2 ?_
    rintro ⟨w, hw, hmeet⟩
    rw [hstay w hw] at hmeet
    exact hno hmeet

end Flow

end IrView
