import Mathlib.Tactic.SplitIfs
import IrView.Lookup

/-!
# Filled groups

Members are put into their groups one by one, with a table that tells where in the list each group
stands (`Grouping.Holds`). What comes out is one group for each key, in the order in which the keys
first appear, and in it all members with the key in their order (`Grouping.groups_foldl_add`).
-/

namespace IrView

namespace Grouping

variable {κ α β : Type} [BEq κ] {members : List (κ × α)} {key : κ} {a : α}

/-! ### Members by their keys -/

/-- The keys, in the order in which they first appear. -/
def keys (members : List (κ × α)) : List κ :=
  (members.map Prod.fst).eraseDups

/-- The members with a key. -/
def membersOf (members : List (κ × α)) (key : κ) : List α :=
  (members.filter fun member => member.1 == key).map Prod.snd

theorem membersOf_concat (key' : κ) : membersOf (members ++ [(key, a)]) key' =
    membersOf members key' ++ if key == key' then [a] else [] := by
  rw [membersOf, List.filter_append, List.map_append, membersOf]
  split_ifs with h <;> simp [h]

variable [LawfulBEq κ]

theorem nodup_keys : (keys members).Nodup :=
  Lookup.nodup_eraseDups _

theorem keys_concat_of_mem (h : key ∈ keys members) :
    keys (members ++ [(key, a)]) = keys members := by
  have hmem : key ∈ members.map Prod.fst := List.mem_eraseDups.1 h
  rw [keys, List.map_append, List.map_singleton, List.eraseDups_append, List.removeAll]
  simp [hmem, keys]

theorem keys_concat_of_notMem (h : key ∉ keys members) :
    keys (members ++ [(key, a)]) = keys members ++ [key] := by
  have hmem : key ∉ members.map Prod.fst := mt List.mem_eraseDups.2 h
  rw [keys, List.map_append, List.map_singleton, List.eraseDups_append, List.removeAll]
  simp [hmem, keys, List.eraseDups_cons]

theorem membersOf_of_notMem (h : key ∉ keys members) : membersOf members key = [] := by
  rw [membersOf, List.map_eq_nil_iff, List.filter_eq_nil_iff]
  intro member hmember heq
  rw [beq_iff_eq] at heq
  exact h (List.mem_eraseDups.2 (heq ▸ List.mem_map_of_mem hmember))

theorem getElem?_concat_eq_some_iff {l : List β} {x y : β} {i : Nat} :
    (l ++ [x])[i]? = some y ↔ l[i]? = some y ∨ l.length = i ∧ x = y := by
  obtain hlt | heq | hgt := Nat.lt_trichotomy i l.length
  · simp [List.getElem?_append_left hlt, Nat.ne_of_gt hlt]
  · simp [heq]
  · have hnone : l[i]? = none := List.getElem?_eq_none (Nat.le_of_lt hgt)
    simp [List.getElem?_append_right (Nat.le_of_lt hgt), hnone, Nat.ne_of_lt hgt,
      Nat.sub_ne_zero_of_lt hgt]

theorem modify_map {keys : List κ} (hnodup : keys.Nodup) {i : Nat}
    (hi : keys[i]? = some key) (h : κ → β) (f : β → β) :
    (keys.map h).modify i f = keys.map fun key' => if key == key' then f (h key') else h key' := by
  refine List.ext_getElem? fun j => ?_
  rw [List.getElem?_modify, List.getElem?_map, List.getElem?_map]
  cases hj : keys[j]? with
  | none => rfl
  | some key' =>
    have hiff : i = j ↔ key = key' := by
      constructor
      · rintro rfl
        exact Option.some.inj (hi.symm.trans hj)
      · rintro rfl
        exact (List.getElem?_inj (List.getElem?_eq_some_iff.1 hi).1 hnodup).1 (hi.trans hj.symm)
    by_cases hij : i = j
    · simp [hij, hiff.1 hij]
    · simp [hij, mt hiff.2 hij]

/-! ### Putting members into groups -/

variable [Hashable κ] {g : Grouping κ α}

/-- The grouping with more members, put into their groups one by one. -/
def addAll (g : Grouping κ α) (more : List (κ × α)) : Grouping κ α :=
  more.foldl (fun g member => g.add member.1 member.2) g

/-- The grouping has the members and no others, and its table knows the places. -/
structure Holds (g : Grouping κ α) (members : List (κ × α)) : Prop where
  groups : g.groups = (keys members).map fun key => (key, membersOf members key)
  places : ∀ (key : κ) (i : Nat), g.places[key]? = some i ↔ (keys members)[i]? = some key

namespace Holds

theorem empty : Holds ({} : Grouping κ α) [] :=
  ⟨rfl, fun key i => by simp [keys]⟩

/-- After a group got its place, it is in the list at that place. -/
theorem placeOf (h : g.Holds members) (key : κ) (a : α) :
    let all := keys (members ++ [(key, a)])
    (g.placeOf key).1.groups = all.map (fun key => (key, membersOf members key)) ∧
      all[(g.placeOf key).2]? = some key ∧
      ∀ (key' : κ) (i : Nat), (g.placeOf key).1.places[key']? = some i ↔ all[i]? = some key' := by
  intro all
  rw [Grouping.placeOf]
  cases hplace : g.places[key]? with
  | some place =>
    have hat := (h.places key place).1 hplace
    have hall : all = keys members := keys_concat_of_mem (List.mem_of_getElem? hat)
    rw [hall]
    exact ⟨h.groups, hat, h.places⟩
  | none =>
    have hnew : key ∉ keys members := by
      intro hmem
      obtain ⟨i, hi⟩ := List.getElem?_of_mem hmem
      have := (h.places key i).2 hi
      rw [hplace] at this
      cases this
    have hlength : g.groups.length = (keys members).length := by
      rw [h.groups, List.length_map]
    have hall : all = keys members ++ [key] := keys_concat_of_notMem hnew
    rw [hall]
    refine ⟨?_, ?_, fun key' i => ?_⟩
    · rw [List.map_append, List.map_singleton, membersOf_of_notMem hnew, h.groups]
    · rw [hlength, List.getElem?_concat_length]
    · rw [Std.HashMap.getElem?_insert, hlength]
      rw [getElem?_concat_eq_some_iff, ← h.places]
      by_cases hkey : key = key'
      · simp [← hkey, hplace]
      · simp [hkey]

theorem add (h : g.Holds members) (key : κ) (a : α) :
    (g.add key a).Holds (members ++ [(key, a)]) := by
  obtain ⟨hgroups, hplace, hplaces⟩ := h.placeOf key a
  refine ⟨?_, hplaces⟩
  show ((g.placeOf key).1.groups).modify (g.placeOf key).2 _ = _
  rw [hgroups, modify_map nodup_keys hplace]
  refine List.map_congr_left fun key' _ => ?_
  rw [membersOf_concat]
  split_ifs with hkey
  · rfl
  · rw [List.append_nil]

theorem addAll (h : g.Holds members) (more : List (κ × α)) :
    (g.addAll more).Holds (members ++ more) := by
  induction more generalizing g members with
  | nil => rwa [List.append_nil]
  | cons member more ih =>
    have := ih (h.add member.1 member.2)
    rwa [List.append_assoc] at this

end Holds

theorem groups_addAll (members : List (κ × α)) : (addAll {} members).groups =
    (keys members).map fun key => (key, membersOf members key) :=
  (Holds.empty.addAll members).groups

/-- Elements that are put into groups one by one, each by its key. -/
theorem groups_foldl_add (key : β → κ) (f : β → α) (l : List β) :
    (l.foldl (fun g b => g.add (key b) (f b)) ({} : Grouping κ α)).groups =
      (l.map key).eraseDups.map fun k => (k, (l.filter fun b => key b == k).map f) := by
  have hfold : l.foldl (fun g b => g.add (key b) (f b)) ({} : Grouping κ α) =
      addAll {} (l.map fun b => (key b, f b)) := by rw [addAll, List.foldl_map]
  rw [hfold, groups_addAll, keys, List.map_map]
  refine List.map_congr_left fun k _ => ?_
  rw [membersOf, List.filter_map, List.map_map]
  rfl

end Grouping

end IrView
