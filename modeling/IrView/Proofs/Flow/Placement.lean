import Mathlib.Order.Bounds.Basic
import IrView.Flow.Level

/-!
# Placing the nodes that the root does not reach

At its turn in a round a node is placed only if it has no level yet, and above its successors
(`place_cases`). So rounds, which are turns one after the other (`placeAll_eq`), leave every level
that there is as it is, and place no node that has no successor (`getElem?_settle`). In the end the
nodes that were not placed go on the lowest level (`getElem?_sink`).
-/

namespace IrView

namespace Flow

variable {g : Adjacency} {levels : Levels} {id node : NodeId}

/-! ### One turn -/

/-- The levels after the turn of a node. -/
def place (g : Adjacency) (levels : Levels) (id : NodeId) : Levels :=
  (place? g levels id).getD levels

/-- At its turn a node stays as it is if it has a level or none of its successors has one. Otherwise
it gets the level above the highest one of a successor. -/
theorem place_cases (g : Adjacency) (levels : Levels) (id : NodeId) :
    (id ∈ levels ∨ successorLevels g levels id = []) ∧ place g levels id = levels ∨
    ∃ n, id ∉ levels ∧ IsLeast {m | m ∈ successorLevels g levels id} (n + 1) ∧
      place g levels id = levels.insert id n := by
  unfold place place?
  split_ifs with hid
  · exact Or.inl ⟨Or.inl (Std.HashMap.mem_iff_contains.2 hid), rfl⟩
  · cases hmin : (successorLevels g levels id).min? with
    | none => exact Or.inl ⟨Or.inr (List.min?_eq_none_iff.1 hmin), rfl⟩
    | some level =>
      refine Or.inr ⟨level - 1, mt Std.HashMap.mem_iff_contains.1 hid, ?_, rfl⟩
      rw [Int.sub_add_cancel]
      exact List.min?_eq_some_iff.1 hmin

/-- Placing another node leaves a level as it is, and a node without successors is not placed. -/
theorem getElem?_place (h : id ∈ levels ∨ g.arcs id = []) :
    (place g levels node)[id]? = levels[id]? := by
  rcases place_cases g levels node with ⟨-, he⟩ | ⟨n, hnode, hleast, he⟩
  · rw [he]
  · have hne : node ≠ id := by
      rintro rfl
      rcases h with h | h
      · exact hnode h
      · simpa [successorLevels, h] using hleast.1
    simp [he, Std.HashMap.getElem?_insert, hne]

theorem getElem?_foldl_place (order : List NodeId) (h : id ∈ levels ∨ g.arcs id = []) :
    (order.foldl (place g) levels)[id]? = levels[id]? := by
  induction order generalizing levels with
  | nil => rfl
  | cons node order ih =>
    have hplace : (place g levels node)[id]? = levels[id]? := getElem?_place h
    rw [List.foldl_cons, ih, hplace]
    rwa [Std.HashMap.mem_iff_isSome_getElem?, hplace, ← Std.HashMap.mem_iff_isSome_getElem?]

/-! ### Rounds -/

theorem levels_turn (r : Round) : (r.turn g id).levels = place g r.levels id := by
  rw [Round.turn, place]
  split
  · next hplace => rw [hplace, Option.getD_some]
  · next hnone => rw [hnone, Option.getD_none]

/-- The levels after a round, without its flag. -/
theorem placeAll_eq (g : Adjacency) (levels : Levels) :
    placeAll g levels = g.order.foldl (place g) levels :=
  (List.foldl_hom Round.levels fun r _ => (levels_turn r).symm).symm

theorem getElem?_placeAll_eq_self (h : id ∈ levels ∨ g.arcs id = []) :
    (placeAll g levels)[id]? = levels[id]? := by
  rw [placeAll_eq, getElem?_foldl_place g.order h]

theorem getElem?_settle (h : id ∈ levels ∨ g.arcs id = []) :
    (settle g levels)[id]? = levels[id]? := by
  induction levels using settle.induct g with
  | case1 levels next hprogress ih =>
    have hnext : next.levels[id]? = levels[id]? := getElem?_placeAll_eq_self h
    rw [settle, if_pos hprogress]
    refine (ih ?_).trans hnext
    rwa [Std.HashMap.mem_iff_isSome_getElem?, hnext, ← Std.HashMap.mem_iff_isSome_getElem?]
  | case2 levels next hprogress =>
    rw [settle, if_neg hprogress]
    exact getElem?_placeAll_eq_self h

/-! ### The lowest level -/

theorem getElem?_foldl_insertIfNew (order : List NodeId) {lowest : Int} :
    (order.foldl (fun levels id => levels.insertIfNew id lowest) levels)[id]? =
      levels[id]?.or (if id ∈ order then some lowest else none) := by
  induction order generalizing levels with
  | nil => simp
  | cons node order ih =>
    rw [List.foldl_cons, ih, Std.HashMap.getElem?_insertIfNew]
    by_cases hid : node = id
    · subst hid
      by_cases hmem : node ∈ levels
      · simp [hmem]
      · simp [hmem]
    · simp [hid, Ne.symm hid]

/-- What has no level in the end goes on the lowest one that there is. -/
theorem getElem?_sink : (sink g levels)[id]? = levels[id]?.or
    (if id ∈ g.order then (g.order.filterMap fun id => levels[id]?).max? else none) := by
  unfold sink
  split
  · next lowest hmax => rw [getElem?_foldl_insertIfNew, hmax]
  · next hmax => rw [hmax, ite_self, Option.or_none]

end Flow

end IrView
