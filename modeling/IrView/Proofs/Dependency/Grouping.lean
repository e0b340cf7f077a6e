import Mathlib.Data.List.Sort
import IrView.Dependency.Grouping
import IrView.Proofs.Grouping
import IrView.Proofs.Text.ByteOrder

/-!
# Grouped dependency edges

Edges are put into groups one by one. Each pair of ends is listed once, where it first appears, with
all edges between them (`group_eq`), and one edge says what all of these say (`mem_group`). It
stands for edges with its own ends only, so it does not matter whether edges are left out by their
ends before they are grouped or after (`filter_group`).
-/

namespace IrView

namespace Dependency

/-- What is left out does not change where the rest first appears. -/
theorem filter_eraseDups {α : Type} [BEq α] [LawfulBEq α] (p : α → Bool) (l : List α) :
    l.eraseDups.filter p = (l.filter p).eraseDups := by
  induction h : l.length using Nat.strongRecOn generalizing l with
  | _ n ih =>
    cases l with
    | nil => rfl
    | cons a l =>
      have hlt : (l.filter fun b => !b == a).length < n :=
        h ▸ Nat.lt_succ_of_le (List.length_filter_le _ l)
      rw [List.eraseDups_cons]
      by_cases hp : p a = true
      · rw [List.filter_cons_of_pos hp, List.filter_cons_of_pos hp, List.eraseDups_cons,
          ih _ hlt _ rfl, List.filter_comm]
      · rw [List.filter_cons_of_neg hp, List.filter_cons_of_neg hp, ih _ hlt _ rfl,
          List.filter_filter]
        -- what is not `a` is not asked for where `p` holds
        refine congrArg List.eraseDups (List.filter_congr fun b _ => ?_)
        by_cases hb : b = a
        · simp [hb, hp]
        · simp [hb]

variable {edges : List Edge}

/-- Grouped edges by their ends, without the table of places. -/
theorem group_eq (edges : List Edge) : group edges =
    (edges.map Edge.ends).eraseDups.map fun ends =>
      merge ends (edges.filter fun e => e.ends == ends) := by
  have hgroups := Grouping.groups_foldl_add Edge.ends id edges
  simp only [List.map_id, id] at hgroups
  rw [group, hgroups, List.map_map]
  rfl

theorem ends_group : (group edges).map Edge.ends = (edges.map Edge.ends).eraseDups := by
  rw [group_eq, List.map_map]
  exact List.map_id _

theorem mem_group {e : Edge} : e ∈ group edges ↔ e.ends ∈ edges.map Edge.ends ∧
    e = merge e.ends (edges.filter fun r => r.ends == e.ends) := by
  rw [group_eq, List.mem_map]
  constructor
  · rintro ⟨ends, hends, rfl⟩
    exact ⟨List.mem_eraseDups.1 hends, rfl⟩
  · rintro ⟨hends, he⟩
    exact ⟨e.ends, List.mem_eraseDups.2 hends, he.symm⟩

/-- Edges may be left out by their ends before or after they are grouped. -/
theorem filter_group (p : NodeId × NodeId → Bool) :
    (group edges).filter (fun e => p e.ends) = group (edges.filter fun e => p e.ends) := by
  have hends : (edges.filter fun e => p e.ends).map Edge.ends = (edges.map Edge.ends).filter p :=
    List.filter_map.symm
  rw [group_eq, group_eq, hends, ← filter_eraseDups, List.filter_map]
  refine List.map_congr_left fun ends hmem => ?_
  have hp : p ends = true := (List.mem_filter.1 hmem).2
  rw [List.filter_filter]
  refine congrArg (merge ends) (List.filter_congr fun e _ => ?_)
  by_cases he : e.ends = ends
  · simp [he, hp]
  · simp [he]

/-! ### Labels and relations -/

theorem commonRelation_of_two_le {parallel : List Edge} (h : 2 ≤ parallel.length) :
    commonRelation parallel = .unknown := by
  match parallel, h with
  | _ :: _ :: _, _ => rfl

/-- A label consists of the given ones in the order of their bytes, with slashes between them. -/
def Joins (label : String) (labels : List String) : Prop :=
  ∃ names : List String, names.Perm labels ∧
    names.Pairwise (fun a b => Text.bytes a ≤ Text.bytes b) ∧ label = "/".intercalate names

theorem joins_merge (ends : NodeId × NodeId) (parallel : List Edge) :
    Joins (merge ends parallel).label (parallel.map Edge.label) := by
  have hsorted := List.pairwise_mergeSort' (· ≤ ·) (parallel.map Edge.label)
  exact ⟨_, List.mergeSort_perm _ _, hsorted.imp Text.bytes_le_of_le, rfl⟩

/-! ### Schedule edges -/

/-- The edge that says the same of the schedule by an `after` relation. -/
def Edge.inAfterForm (e : Edge) : Edge :=
  match e.relation with
  | .before => ⟨e.target, e.source, "schedule-after", .after⟩
  | .immediatelyBefore => ⟨e.target, e.source, "schedule-imm-after", .immediatelyAfter⟩
  | _ => e

theorem canonical_eq (e : Edge) : e.canonical = e.inAfterForm := by
  obtain ⟨source, target, label, relation⟩ := e
  cases relation <;> rfl

theorem isSchedule_inAfterForm (e : Edge) :
    e.inAfterForm.relation = e.relation ∨
      e.inAfterForm.relation.isSchedule = true ∧ e.relation.isSchedule = true := by
  obtain ⟨source, target, label, relation⟩ := e
  cases relation with
  | before | immediatelyBefore => exact Or.inr ⟨rfl, rfl⟩
  | _ => exact Or.inl rfl

end Dependency

end IrView
