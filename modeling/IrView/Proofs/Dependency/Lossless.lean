import IrView.Lookup
import IrView.Proofs.Dependency.Grouping

/-!
# What grouping keeps

Grouping loses nothing but the order of the edges: the labels of parallel edges can be read off the
label of the edge that stands for them, as long as none of them has a slash itself
(`splitOn_label_merge`). Since the labels are sorted, this edge does not depend on the order of the
edges (`merge_perm`), and an edge that has no parallel one is left as it is. So grouping again
changes nothing (`group_eq_self`).
-/

namespace IrView

namespace Dependency

/-! ### First appearances -/

section FirstAppearance

variable {α : Type} [BEq α] [LawfulBEq α]

/-- What appears first stays first. -/
theorem pairwise_idxOf_eraseDups (l : List α) :
    l.eraseDups.Pairwise fun a b => l.idxOf a < l.idxOf b := by
  induction l with
  | nil => exact .nil
  | cons a l ih =>
    rw [List.eraseDups_cons, ← filter_eraseDups, List.pairwise_cons]
    have hne : ∀ b ∈ l.eraseDups.filter fun b => !b == a, a ≠ b := by
      rintro b hb rfl
      simpa using (List.mem_filter.1 hb).2
    refine ⟨fun b hb => ?_, (ih.filter _).imp_of_mem fun {b c} hb hc hlt => ?_⟩
    · rw [List.idxOf_cons_self, List.idxOf_cons_ne _ (hne b hb)]
      exact Nat.succ_pos _
    · rw [List.idxOf_cons_ne _ (hne b hb), List.idxOf_cons_ne _ (hne c hc)]
      exact Nat.succ_lt_succ hlt

theorem eraseDups_eq_self {l : List α} (h : l.Nodup) : l.eraseDups = l := by
  induction l with
  | nil => rfl
  | cons a l ih =>
    obtain ⟨ha, hl⟩ := List.nodup_cons.1 h
    have hfilter : l.filter (fun b => !b == a) = l := by
      refine List.filter_eq_self.2 fun b hb => ?_
      have hne : b ≠ a := fun he => ha (he ▸ hb)
      simp [hne]
    rw [List.eraseDups_cons, hfilter, ih hl]

theorem eraseDups_perm {l l' : List α} (h : l'.Perm l) : l'.eraseDups.Perm l.eraseDups := by
  refine (List.perm_ext_iff_of_nodup (Lookup.nodup_eraseDups l') (Lookup.nodup_eraseDups l)).2
    fun a => ?_
  rw [List.mem_eraseDups, List.mem_eraseDups, h.mem_iff]

end FirstAppearance

variable {edges edges' parallel parallel' : List Edge} {ends : NodeId × NodeId} {e : Edge}

/-! ### Single edges -/

theorem merge_singleton (e : Edge) : merge e.ends [e] = e := by
  simp [merge, Edge.ends, commonRelation]

theorem filter_ends_of_nodup (h : (edges.map Edge.ends).Nodup) (he : e ∈ edges) :
    edges.filter (fun r => r.ends == e.ends) = [e] := by
  induction edges with
  | nil => cases he
  | cons a edges ih =>
    rw [List.map_cons, List.nodup_cons] at h
    rcases List.mem_cons.1 he with rfl | he
    · rw [List.filter_cons_of_pos (by simp), List.filter_eq_nil_iff.2 fun r hr hends => ?_]
      exact h.1 (List.mem_map.2 ⟨r, hr, beq_iff_eq.1 hends⟩)
    · have hne : a.ends ≠ e.ends := fun heq => h.1 (List.mem_map.2 ⟨e, he, heq.symm⟩)
      rw [List.filter_cons_of_neg (by simpa using hne), ih h.2 he]

/-- Where no edges are parallel, grouping leaves them as they are. -/
theorem group_eq_self (h : (edges.map Edge.ends).Nodup) : group edges = edges := by
  rw [group_eq, eraseDups_eq_self h, List.map_map]
  refine (List.map_congr_left fun e he => ?_).trans (List.map_id edges)
  rw [Function.comp_apply, filter_ends_of_nodup h he, merge_singleton, id]

theorem nodup_ends_group (edges : List Edge) : ((group edges).map Edge.ends).Nodup := by
  rw [ends_group]
  exact Lookup.nodup_eraseDups _

/-! ### Orders of the edges -/

theorem commonRelation_perm (h : parallel'.Perm parallel) :
    commonRelation parallel' = commonRelation parallel := by
  match parallel with
  | [] => rw [h.eq_nil]
  | [e] => rw [List.perm_singleton.1 h]
  | _ :: _ :: _ =>
    have htwo : 2 ≤ parallel'.length := by simp [h.length_eq]
    rw [commonRelation_of_two_le htwo, commonRelation_of_two_le (by simp)]

/-- The edge for parallel ones does not depend on their order. -/
theorem merge_perm (h : parallel'.Perm parallel) : merge ends parallel' = merge ends parallel := by
  have hsorted : ∀ labels : List String,
      (labels.mergeSort fun a b => a ≤ b).Pairwise (· ≤ ·) := List.pairwise_mergeSort' _
  have hlabels : ((parallel'.map Edge.label).mergeSort fun a b => a ≤ b).Perm
      ((parallel.map Edge.label).mergeSort fun a b => a ≤ b) :=
    (List.mergeSort_perm _ _).trans ((h.map _).trans (List.mergeSort_perm _ _).symm)
  rw [merge, merge, hlabels.eq_of_pairwise' (hsorted _) (hsorted _), commonRelation_perm h]

theorem group_perm (h : edges'.Perm edges) : (group edges').Perm (group edges) := by
  have hmerge : ∀ ends, merge ends (edges'.filter fun e => e.ends == ends) =
      merge ends (edges.filter fun e => e.ends == ends) := fun ends => merge_perm (h.filter _)
  simp only [group_eq, hmerge]
  exact (eraseDups_perm (h.map _)).map _

/-! ### Labels -/

/-- The labels of parallel edges can be read off the label of their edge. -/
theorem splitOn_label_merge (hne : parallel ≠ []) (h : ∀ r ∈ parallel, '/' ∉ r.label.toList) :
    (((merge ends parallel).label.toList.splitOn '/').map String.ofList).Perm
      (parallel.map Edge.label) := by
  set labels := (parallel.map Edge.label).mergeSort fun a b => a ≤ b with hlabels
  have hsort : labels.Perm (parallel.map Edge.label) := List.mergeSort_perm _ _
  have hslash : ∀ cs ∈ labels.map String.toList, '/' ∉ cs := by
    intro cs hcs
    obtain ⟨label, hlabel, rfl⟩ := List.mem_map.1 hcs
    obtain ⟨r, hr, rfl⟩ := List.mem_map.1 (hsort.mem_iff.1 hlabel)
    exact h r hr
  have hsome : labels.map String.toList ≠ [] := by
    intro hnil
    have hnone := hsort.symm
    rw [List.map_eq_nil_iff.1 hnil] at hnone
    exact hne (List.map_eq_nil_iff.1 hnone.eq_nil)
  have hsplit : (merge ends parallel).label.toList.splitOn '/' = labels.map String.toList := by
    rw [merge, ← hlabels, String.toList_intercalate]
    exact List.splitOn_intercalate '/' hslash hsome
  have hofList : String.ofList ∘ String.toList = id := funext fun _ => String.ofList_toList
  rw [hsplit, List.map_map, hofList, List.map_id]
  exact hsort

/-- **Grouping is lossless, canonical and idempotent.** Grouping again changes nothing. There is one
edge for each pair of ends, in the order in which the pairs first appear, and in another order of
the edges the same ones come out. If no label of parallel edges has a slash, splitting the label of
their edge at slashes gives their labels, as often as they are there. The relation is that of a
single edge, and unknown otherwise. -/
theorem group_lossless (edges : List Edge) :
    group (group edges) = group edges ∧
    (((group edges).map Edge.ends).Pairwise
        (fun p q => (edges.map Edge.ends).idxOf p < (edges.map Edge.ends).idxOf q) ∧
      ∀ ends, ends ∈ (group edges).map Edge.ends ↔ ends ∈ edges.map Edge.ends) ∧
    (∀ edges', edges'.Perm edges → (group edges').Perm (group edges)) ∧
    ∀ e ∈ group edges,
      let parallel := edges.filter fun r => r.ends == e.ends
      ((∀ r ∈ parallel, '/' ∉ r.label.toList) →
        ((e.label.toList.splitOn '/').map String.ofList).Perm (parallel.map Edge.label)) ∧
      (∀ r, parallel = [r] → e.relation = r.relation) ∧
      (parallel.length ≠ 1 → e.relation = .unknown) := by
  refine ⟨group_eq_self (nodup_ends_group edges), ?_, fun edges' => group_perm,
    fun e he => ?_⟩
  · rw [ends_group]
    exact ⟨pairwise_idxOf_eraseDups _, fun ends => List.mem_eraseDups⟩
  · intro parallel
    obtain ⟨hends, he⟩ := mem_group.1 he
    obtain ⟨r, hr, hrends⟩ := List.mem_map.1 hends
    have hne : parallel ≠ [] :=
      List.ne_nil_of_mem (List.mem_filter.2 ⟨hr, beq_iff_eq.2 hrends⟩)
    have hrelation : e.relation = commonRelation parallel := by rw [he]; rfl
    refine ⟨fun h => ?_, fun r hsingle => ?_, fun hlength => ?_⟩
    · rw [he]
      exact splitOn_label_merge hne h
    · rw [hrelation, hsingle, commonRelation]
    · have hpos := List.length_pos_of_ne_nil hne
      rw [hrelation]
      exact commonRelation_of_two_le (by omega)

/-- Edges in both directions; three are parallel, one of them without a label. -/
def bothWays : List Edge :=
  [⟨1, 2, "requires", .requires⟩, ⟨2, 1, "provides", .provides⟩, ⟨1, 2, "", .unknown⟩,
    ⟨1, 2, "requires", .requires⟩]

theorem group_lossless_bothWays : ∃ e ∈ group bothWays, e.ends = (1, 2) ∧
    (∀ r ∈ bothWays, '/' ∉ r.label.toList) ∧ e.relation = .unknown ∧
    ((e.label.toList.splitOn '/').map String.ofList).Perm ["requires", "", "requires"] := by
  obtain ⟨-, ⟨-, hends⟩, -, hedge⟩ := group_lossless bothWays
  obtain ⟨e, he, hpair⟩ := List.mem_map.1 ((hends (1, 2)).2 (by decide))
  have hslash : ∀ r ∈ bothWays, '/' ∉ r.label.toList := by decide
  obtain ⟨hlabels, -, hrelation⟩ := hedge e he
  rw [hpair] at hlabels hrelation
  exact ⟨e, he, hpair, hslash, hrelation (by decide),
    hlabels fun r hr => hslash r (List.mem_of_mem_filter hr)⟩

end Dependency

end IrView
