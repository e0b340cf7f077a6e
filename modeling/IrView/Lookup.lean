import Std.Data.HashMap
import IrView.Record

/-!
# Lookup tables and groups

A table by node ids is built from a list of entries and answers as a search through the list would:
`firstOf` with the first entry for an id, `gather` with all of them in order.

A grouping keeps the order instead. Its members are put into their groups one by one: a table tells
the place of each group in the list of groups, and a group that is not in the table yet goes last.
-/

namespace IrView

/-! ### Lookup tables -/

namespace Lookup

variable {β : Type}

/-- The first entry for each id. -/
def firstOf (entries : List (NodeId × β)) : Std.HashMap NodeId β :=
  entries.foldr (fun entry table => table.insert entry.1 entry.2) ∅

/-- All entries for each id, in order. -/
def gather (entries : List (NodeId × β)) : Std.HashMap NodeId (List β) :=
  entries.foldr (fun entry table => table.insert entry.1 (entry.2 :: table.getD entry.1 [])) ∅

theorem firstOf_getElem? (entries : List (NodeId × β)) (id : NodeId) :
    (firstOf entries)[id]? = entries.lookup id := by
  induction entries with
  | nil => simp [firstOf]
  | cons entry entries ih =>
    rw [firstOf, List.foldr_cons, Std.HashMap.getElem?_insert, List.lookup_cons]
    by_cases h : entry.1 = id
    · simp [h]
    · have h' : (id == entry.1) = false := by simpa using fun h' => h h'.symm
      simpa [h, h', firstOf] using ih

theorem gather_getD (entries : List (NodeId × β)) (id : NodeId) :
    (gather entries).getD id [] = (entries.filter fun entry => entry.1 == id).map Prod.snd := by
  induction entries with
  | nil => simp [gather]
  | cons entry entries ih =>
    rw [gather, List.foldr_cons, Std.HashMap.getD_insert]
    by_cases h : entry.1 = id
    · subst h
      simpa [gather] using ih
    · simpa [h, gather] using ih

theorem nodup_eraseDups {α : Type} [BEq α] [LawfulBEq α] (l : List α) : l.eraseDups.Nodup := by
  induction h : l.length using Nat.strongRecOn generalizing l with
  | _ n ih =>
    cases l with
    | nil => exact List.nodup_nil
    | cons a l =>
      have hlt : (l.filter fun b => !b == a).length < n :=
        h ▸ Nat.lt_succ_of_le (List.length_filter_le _ l)
      rw [List.eraseDups_cons, List.nodup_cons]
      refine ⟨fun ha => ?_, ih _ hlt _ rfl⟩
      simpa using (List.mem_filter.1 (List.mem_eraseDups.1 ha)).2

end Lookup

/-! ### Groups -/

/-- Groups while they are filled. -/
structure Grouping (κ α : Type) [BEq κ] [Hashable κ] where
  /-- The groups, each with its members. -/
  groups : List (κ × List α) := []
  /-- The place of each group. -/
  places : Std.HashMap κ Nat := ∅

namespace Grouping

variable {κ α : Type} [BEq κ] [Hashable κ]

/-- The grouping with a place for the group, and the place. -/
def placeOf (g : Grouping κ α) (key : κ) : Grouping κ α × Nat :=
  match g.places[key]? with
  | some place => (g, place)
  | none =>
    let place := g.groups.length
    (⟨g.groups ++ [(key, [])], g.places.insert key place⟩, place)

/-- The grouping with one more member of the group. -/
def add (g : Grouping κ α) (key : κ) (member : α) : Grouping κ α :=
  let (g, place) := g.placeOf key
  { g with groups := g.groups.modify place fun (key, members) => (key, members ++ [member]) }

end Grouping

end IrView
