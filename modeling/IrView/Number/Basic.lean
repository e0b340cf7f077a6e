/-!
# Whole numbers

A whole number is written as a run of ASCII digits behind an optional sign. `readIndex?` reads a
position in a list, which fits an unsigned 64-bit word, and `readId?` a node id, which fits a signed
one.

The total of a list adds up what each element counts for. It goes down when one element counts for
less and no other one for more, and so does the number of elements with a property when one loses it
and no other one gets it.
-/

namespace IrView

namespace Number

/-! ### Reading -/

/-- The value of a non-empty run of ASCII digits. -/
def readDigits? (cs : List Char) : Option Nat :=
  if !cs.isEmpty && cs.all Char.isDigit then some (Nat.ofDigitChars 10 cs 0) else none

/-- Reads a position: digits behind an optional plus sign, below `2^64`. -/
def readIndex? (s : String) : Option Nat :=
  let digits := match s.toList with
    | '+' :: cs => cs
    | cs => cs
  (readDigits? digits).filter (· < Nat.pow 2 64)

/-- Whether `i` fits a signed 64-bit word. -/
def fitsWord (i : Int) : Bool :=
  -(Nat.pow 2 63 : Int) ≤ i && i < (Nat.pow 2 63 : Int)

/-- Reads a node id: digits behind an optional sign, in the range of a signed 64-bit word. -/
def readId? (s : String) : Option Int :=
  let value : Option Int := match s.toList with
    | '+' :: cs => (readDigits? cs).map Int.ofNat
    | '-' :: cs => (readDigits? cs).map fun n => -(n : Int)
    | cs => (readDigits? cs).map Int.ofNat
  value.filter fitsWord

/-! ### Totals and counts -/

variable {α : Type}

/-- What the elements of a list count for together. -/
def total (count : α → Nat) : List α → Nat
  | [] => 0
  | x :: xs => count x + total count xs

@[simp]
theorem total_nil (count : α → Nat) : total count [] = 0 :=
  rfl

@[simp]
theorem total_cons (count : α → Nat) (x : α) (xs : List α) :
    total count (x :: xs) = count x + total count xs :=
  rfl

theorem total_le {l : List α} {p q : α → Nat} (h : ∀ x, p x ≤ q x) : total p l ≤ total q l := by
  induction l with
  | nil => exact Nat.le_refl _
  | cons b l ih => exact Nat.add_le_add (h b) ih

theorem total_lt {l : List α} {p q : α → Nat} {a : α} (ha : a ∈ l) (hlt : p a < q a)
    (h : ∀ x, p x ≤ q x) : total p l < total q l := by
  induction l with
  | nil => simp at ha
  | cons b l ih =>
    rcases List.mem_cons.1 ha with rfl | ha
    · exact Nat.add_lt_add_of_lt_of_le hlt (total_le h)
    · exact Nat.add_lt_add_of_le_of_lt (h b) (ih ha)

theorem countP_lt {l : List α} {p q : α → Bool} {a : α} (ha : a ∈ l) (hp : p a = false)
    (hq : q a = true) (h : ∀ x, p x = true → q x = true) : l.countP p < l.countP q := by
  induction l with
  | nil => simp at ha
  | cons b l ih =>
    have hle : l.countP p ≤ l.countP q := List.countP_mono_left fun x _ => h x
    rw [List.countP_cons, List.countP_cons]
    rcases List.mem_cons.1 ha with rfl | ha
    · simp only [hp, hq, Bool.false_eq_true, ↓reduceIte]
      omega
    · have := ih ha
      by_cases hb : p b = true
      · simp only [hb, h b hb, ↓reduceIte]
        omega
      · simp only [hb, Bool.false_eq_true, ↓reduceIte]
        omega

end Number

end IrView
