import Mathlib.Data.List.Basic
import Std.Data.String.ToInt
import IrView.Number.Basic
import IrView.Text.Basic

/-!
# Decimal texts

The decimal text of an integer consists of digits and a minus sign, so a character of another kind
ends it. Zeros between the sign and the digits change the length of a number (`Text.length_zeroPad`)
but not its value (`Number.readId?_zeroPad`). Without a sign a greater number has no shorter text
(`Text.length_toString_le`); a negative number may have a longer text than a greater one.
-/

namespace IrView

namespace Text

theorem isDigit_of_mem_repr {n : Nat} {c : Char} (h : c ∈ n.repr.toList) : c.isDigit = true := by
  rw [Nat.toList_repr] at h
  exact Nat.isDigit_of_mem_toDigits (by decide) (by decide) h

/-- A decimal text consists of digits and a minus sign. -/
theorem isDigit_or_eq_minus {i : Int} {c : Char} (h : c ∈ (toString i).toList) :
    c.isDigit = true ∨ c = '-' := by
  rw [Int.toString_eq_repr] at h
  cases i with
  | ofNat n => exact Or.inl (isDigit_of_mem_repr h)
  | negSucc n =>
    rw [Int.repr, String.toList_append, List.mem_append] at h
    obtain hminus | hdigit := h
    · exact Or.inr (List.mem_singleton.1 hminus)
    · exact Or.inl (isDigit_of_mem_repr hdigit)

theorem toInt?_toString (i : Int) : (toString i).toInt? = some i := by
  rw [Int.toString_eq_repr, Int.toInt?_repr]

/-- A minus sign alone is no number. -/
theorem toInt?_minus : ("-" : String).toInt? = none := by
  have hempty : ("" : String).isNat = false :=
    Bool.eq_false_iff.2 fun h => (String.isNat_iff.1 h).1 rfl
  have happend : ("-" : String) = "-" ++ "" := String.append_empty.symm
  rw [happend, String.toInt?_minus_append, String.toNat?_eq_none_iff.2 hempty, Option.map_none]

theorem toList_toString_ne_nil (i : Int) : (toString i).toList ≠ [] := by
  rw [Int.toString_eq_repr]
  cases i with
  | ofNat n => exact mt String.toList_eq_nil_iff.1 Nat.repr_ne_empty
  | negSucc n => simp [Int.repr]

end Text

/-! ### Padded numbers -/

namespace Number

variable {cs : List Char}

theorem readDigits?_of_isDigit (hne : cs ≠ []) (h : ∀ c ∈ cs, c.isDigit = true) :
    readDigits? cs = some (Nat.ofDigitChars 10 cs 0) := by
  have hempty : cs.isEmpty = false := by simpa using hne
  rw [readDigits?, hempty, List.all_eq_true.2 h]
  rfl

/-- Zeros in front of the digits do not change the value. -/
theorem readDigits?_zeros (k n : Nat) :
    readDigits? (List.replicate k '0' ++ n.repr.toList) = some n := by
  rw [readDigits?_of_isDigit, Nat.ofDigitChars_append, Nat.ofDigitChars_replicate_zero,
    Nat.mul_zero, Nat.toList_repr, Nat.ofDigitChars_ten_toDigits]
  · exact List.append_ne_nil_of_right_ne_nil _ (mt String.toList_eq_nil_iff.1 Nat.repr_ne_empty)
  · intro c hc
    obtain hc | hc := List.mem_append.1 hc
    · rw [List.eq_of_mem_replicate hc]
      rfl
    · exact Text.isDigit_of_mem_repr hc

/-- A text of digits has no sign. -/
theorem readId?_of_isDigit {s : String} (h : ∀ c ∈ s.toList, c.isDigit = true) :
    readId? s = ((readDigits? s.toList).map Int.ofNat).filter fitsWord := by
  rw [readId?]
  split
  · next cs hcs => exact absurd (h '+' (hcs ▸ List.mem_cons_self)) (by decide)
  · next cs hcs => exact absurd (h '-' (hcs ▸ List.mem_cons_self)) (by decide)
  · rfl

end Number

namespace Text

variable {w n : Nat} {i j : Int} {c : Char}

theorem toList_zeroPadNat : (zeroPadNat w n).toList =
    List.replicate (w - n.repr.length) '0' ++ n.repr.toList := by
  rw [zeroPadNat, String.toList_append, String.toList_ofList]
  rfl

theorem isDigit_of_mem_zeroPadNat (h : c ∈ (zeroPadNat w n).toList) : c.isDigit = true := by
  rw [toList_zeroPadNat, List.mem_append] at h
  obtain h | h := h
  · rw [List.eq_of_mem_replicate h]
    rfl
  · exact isDigit_of_mem_repr h

theorem length_zeroPadNat : (zeroPadNat w n).length = max w n.repr.length := by
  rw [← String.length_toList, toList_zeroPadNat, List.length_append, List.length_replicate,
    String.length_toList]
  omega

theorem isDigit_or_eq_minus_of_mem_zeroPad (h : c ∈ (zeroPad w i).toList) :
    c.isDigit = true ∨ c = '-' := by
  rw [zeroPad] at h
  split_ifs at h
  · rw [String.toList_append, List.mem_append] at h
    exact h.symm.imp isDigit_of_mem_zeroPadNat List.mem_singleton.1
  · exact Or.inl (isDigit_of_mem_zeroPadNat h)

/-! ### Lengths -/

theorem length_toString_of_neg (h : i < 0) : (toString i).length = i.natAbs.repr.length + 1 := by
  obtain ⟨n, rfl⟩ := Int.eq_negSucc_of_lt_zero h
  rw [Int.toString_eq_repr, Int.repr, String.length_append]
  exact Nat.add_comm _ _

theorem length_toString_of_nonneg (h : 0 ≤ i) : (toString i).length = i.natAbs.repr.length := by
  obtain ⟨n, rfl⟩ := Int.eq_ofNat_of_zero_le h
  rfl

/-- A padded number is as long as its column, unless it is longer by itself. -/
theorem length_zeroPad (w : Nat) (i : Int) :
    (zeroPad w i).length = max w (toString i).length := by
  rw [zeroPad]
  split_ifs with hneg
  · rw [String.length_append, length_zeroPadNat, length_toString_of_neg hneg]
    show 1 + _ = _
    omega
  · rw [length_zeroPadNat, length_toString_of_nonneg (Int.not_lt.1 hneg)]

/-- Of two numbers without sign the greater one has no shorter text. -/
theorem length_toString_le (hi : 0 ≤ i) (hij : i ≤ j) :
    (toString i).length ≤ (toString j).length := by
  have hle : i.natAbs ≤ j.natAbs := by omega
  rw [length_toString_of_nonneg hi, length_toString_of_nonneg (Int.le_trans hi hij),
    Nat.length_repr_le_iff Nat.length_repr_pos]
  exact Nat.lt_of_le_of_lt hle ((Nat.length_repr_le_iff Nat.length_repr_pos).1 (Nat.le_refl _))

end Text

/-- A padded number reads back, if it fits a word. -/
theorem Number.readId?_zeroPad (w : Nat) (i : Int) :
    Number.readId? (Text.zeroPad w i) = (some i).filter Number.fitsWord := by
  rw [Text.zeroPad]
  split_ifs with hneg
  · have htext : ("-" ++ Text.zeroPadNat (w - 1) i.natAbs).toList =
        '-' :: (Text.zeroPadNat (w - 1) i.natAbs).toList := String.toList_append
    have hvalue : -(i.natAbs : Int) = i := by omega
    simp only [readId?, htext, Text.toList_zeroPadNat, readDigits?_zeros]
    exact congrArg (fun i => (some i).filter fitsWord) hvalue
  · rw [readId?_of_isDigit fun c => Text.isDigit_of_mem_zeroPadNat, Text.toList_zeroPadNat,
      readDigits?_zeros]
    have hvalue : Int.ofNat i.natAbs = i := Int.natAbs_of_nonneg (Int.not_lt.1 hneg)
    rw [Option.map_some, hvalue]

end IrView
