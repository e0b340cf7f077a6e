import IrView.Text.Basic

/-!
# Cutting a text at a mark

A text is cut at the first occurrence of a mark if the mark does not occur in front of it
(`afterFirst?_append`), and at the last one if the mark does not occur behind it
(`splitAtLast?_append`).
-/

namespace IrView

namespace Text

variable {mark : Char} {front back cs : List Char}

theorem afterFirst?_append (h : mark ∉ front) :
    afterFirst? mark (front ++ mark :: back) = some back := by
  induction front with
  | nil => simp [afterFirst?]
  | cons c front ih =>
    rw [List.mem_cons, not_or] at h
    rw [List.cons_append, afterFirst?, if_neg (Ne.symm h.1), ih h.2]

theorem afterFirst?_of_notMem (h : mark ∉ cs) : afterFirst? mark cs = none := by
  induction cs with
  | nil => rfl
  | cons c cs ih =>
    rw [List.mem_cons, not_or] at h
    rw [afterFirst?, if_neg (Ne.symm h.1), ih h.2]

theorem splitAtLast?_of_notMem (h : mark ∉ cs) : splitAtLast? mark cs = none := by
  induction cs with
  | nil => rfl
  | cons c cs ih =>
    rw [List.mem_cons, not_or] at h
    rw [splitAtLast?, ih h.2]
    exact if_neg (Ne.symm h.1)

theorem splitAtLast?_append (h : mark ∉ back) :
    splitAtLast? mark (front ++ mark :: back) = some (front, back) := by
  induction front with
  | nil => simp [splitAtLast?, splitAtLast?_of_notMem h]
  | cons c front ih => rw [List.cons_append, splitAtLast?, ih]

/-- A mark that occurs has a last occurrence. -/
theorem exists_last (h : mark ∈ cs) : ∃ front back, cs = front ++ mark :: back ∧ mark ∉ back := by
  obtain ⟨back, front, hreverse, hback⟩ := List.eq_append_cons_of_mem (List.mem_reverse.2 h)
  refine ⟨front.reverse, back.reverse, ?_, mt List.mem_reverse.1 hback⟩
  rw [← List.reverse_reverse cs, hreverse]
  simp

/-- What stands behind the first mark, or everything if there is no mark. -/
theorem afterFirst_eq_iff {text rest : String} : afterFirst mark text = rest ↔
    (∃ front, mark ∉ front ∧ text.toList = front ++ mark :: rest.toList) ∨
      mark ∉ text.toList ∧ text = rest := by
  by_cases h : mark ∈ text.toList
  · obtain ⟨front, back, htext, hfront⟩ := List.eq_append_cons_of_mem h
    have hafter : afterFirst mark text = String.ofList back := by
      rw [afterFirst, htext, afterFirst?_append hfront]
    rw [hafter]
    constructor
    · rintro rfl
      exact Or.inl ⟨front, hfront, by rw [htext, String.toList_ofList]⟩
    · rintro (⟨front', hfront', htext'⟩ | ⟨hno, -⟩)
      · -- the text has one first mark
        have hback : some back = some rest.toList := by
          rw [← afterFirst?_append hfront, ← htext, htext', afterFirst?_append hfront']
        rw [Option.some.inj hback, String.ofList_toList]
      · exact absurd h hno
  · have hafter : afterFirst mark text = text := by
      rw [afterFirst, afterFirst?_of_notMem h]
    rw [hafter]
    constructor
    · intro htext
      exact Or.inr ⟨h, htext⟩
    · rintro (⟨front, -, htext⟩ | ⟨-, htext⟩)
      · exact absurd (htext ▸ by simp) h
      · exact htext

end Text

end IrView
