import IrView.Proofs.Json.Grammar

/-!
# Number literals that are read

The reader of number literals accepts what the grammar allows, and nothing else. It reads as far as
it can, so a literal is read in full only if what stands behind it cannot be part of a number
(`EndsNumber`). Each part of a literal, which are the digits in front of the point, the fraction and
the exponent, has one lemma for either direction.
-/

namespace IrView

namespace Json

/-! ### Runs of digits -/

/-- No digit comes next. -/
def EndsDigits (rest : Source) : Prop :=
  isDigit rest.head?.join = false

/-- Nothing comes next that could belong to a number. -/
structure EndsNumber (rest : Source) : Prop where
  noDigit : EndsDigits rest
  noPoint : rest.head? ≠ some (some '.')
  noMark : isExponentMark rest.head?.join = false

theorem takeDigits_of_endsDigits {rest : Source} (h : EndsDigits rest) :
    takeDigits rest = ([], rest) := by
  unfold takeDigits
  split
  case h_1 c rest => simp_all [EndsDigits, isDigit]
  case h_2 => rfl

theorem takeDigits_append {w : List Char} {rest : Source} (hw : ∀ c ∈ w, c.isDigit = true)
    (h : EndsDigits rest) : takeDigits (w.map some ++ rest) = (digitValues w, rest) := by
  induction w with
  | nil => simp [digitValues, takeDigits_of_endsDigits h]
  | cons c w ih =>
    simp only [List.forall_mem_cons] at hw
    simp [takeDigits, hw.1, ih hw.2, digitValues]

/-- Digits are taken as long as there are any. -/
theorem exists_takeDigits (cs : List Char) :
    ∃ w cs', cs = w ++ cs' ∧ (∀ c ∈ w, c.isDigit = true) ∧
      takeDigits (cs.map some) = (digitValues w, cs'.map some) := by
  induction cs with
  | nil => exact ⟨[], [], rfl, by simp, by simp [takeDigits, digitValues]⟩
  | cons c cs ih =>
    obtain ⟨w, cs', rfl, hw, hdigits⟩ := ih
    rw [List.map_append] at hdigits
    by_cases hc : c.isDigit
    · exact ⟨c :: w, cs', rfl, by simpa [hc] using hw,
        by simp [takeDigits, hc, hdigits, digitValues]⟩
    · exact ⟨[], c :: (w ++ cs'), rfl, by simp, by simp [takeDigits, hc, digitValues]⟩

theorem digit_eq_zero {c : Char} (h : c.isDigit = true) : c.toNat - '0'.toNat = 0 ↔ c = '0' := by
  simp only [Char.isDigit, Bool.and_eq_true, decide_eq_true_eq, ge_iff_le, Char.reduceToNat] at *
  have hval : '0'.toNat ≤ c.toNat := h.1
  constructor
  · intro hzero
    exact Char.toNat_inj.1 (by simp at hval ⊢; omega)
  · rintro rfl
    rfl

/-! ### Number literals -/

theorem whole_digits {c : Char} {w : List Char} (hw : ∀ x ∈ c :: w, x.isDigit = true)
    (hzero : c = '0' → w = []) : Whole (ofDigits (digitValues (c :: w))) (c :: w) := by
  by_cases hc : c = '0'
  · obtain rfl := hzero hc
    subst hc
    exact .zero
  · exact .digits hc ⟨by simp, hw⟩

theorem readWhole_of_takeDigits {source rest : Source} {c : Char} {w : List Char}
    (hc : c.isDigit = true) (h : takeDigits source = (digitValues (c :: w), rest)) :
    readWhole? source =
      if c = '0' ∧ w ≠ [] then none else some (ofDigits (digitValues (c :: w)), rest) := by
  have hzero := digit_eq_zero hc
  unfold readWhole?
  rw [h]
  cases w with
  | nil => simp [digitValues, ofDigits]
  | cons d w =>
    by_cases hc : c = '0'
    · simp [digitValues, hc]
    · have hne := mt hzero.1 hc
      simp [digitValues, hc]
      split <;> simp_all

theorem readWhole_append {n : Nat} {w : List Char} {rest : Source} (hw : Whole n w)
    (h : EndsDigits rest) : readWhole? (w.map some ++ rest) = some (n, rest) := by
  cases hw with
  | zero =>
    have hdigits := takeDigits_append (w := ['0']) (by simp) h
    rw [readWhole_of_takeDigits rfl hdigits]
    simp [digitValues, ofDigits]
  | digits hfirst hw =>
    have hdigits := takeDigits_append hw.isDigit h
    rw [readWhole_of_takeDigits (hw.isDigit _ (by simp)) hdigits]
    simp [hfirst]

theorem whole_of_readWhole {cs : List Char} {n : Nat} {rest : Source}
    (h : readWhole? (cs.map some) = some (n, rest)) : Splits (Whole n) cs rest := by
  obtain ⟨w, cs', rfl, hw, hdigits⟩ := exists_takeDigits cs
  cases w with
  | nil =>
    rw [readWhole?, hdigits] at h
    cases h
  | cons c w =>
    rw [readWhole_of_takeDigits (hw c (by simp)) hdigits] at h
    split at h
    next => cases h
    next hzero =>
      cases h
      exact ⟨_, cs', whole_digits hw (by simpa using hzero), rfl, rfl⟩

theorem readFraction_append {ds : List Nat} {w : List Char} {rest : Source} (hw : Fraction ds w)
    (h : EndsDigits rest) (hpoint : rest.head? ≠ some (some '.')) :
    readFraction? (w.map some ++ rest) = some (ds, rest) := by
  cases hw with
  | absent =>
    unfold readFraction?
    split <;> simp_all
  | @digits w hw =>
    have hdigits := takeDigits_append hw.isDigit h
    have hne := hw.ne_nil
    cases w <;> simp_all [readFraction?, digitValues]

theorem fraction_of_readFraction {cs : List Char} {ds : List Nat} {rest : Source}
    (h : readFraction? (cs.map some) = some (ds, rest)) : Splits (Fraction ds) cs rest := by
  unfold readFraction? at h
  split at h
  next source hsource =>
    obtain ⟨cs, rfl, rfl⟩ := exists_eq_append ['.'] hsource
    obtain ⟨w, cs', rfl, hw, hdigits⟩ := exists_takeDigits cs
    rw [hdigits] at h
    cases w with
    | nil => cases h
    | cons c w =>
      cases h
      exact ⟨_, cs', .digits ⟨by simp, hw⟩, rfl, rfl⟩
  next =>
    cases h
    exact ⟨[], cs, .absent, rfl, rfl⟩

theorem readSign_append {negative : Bool} {x w : List Char} {rest : Source}
    (hx : Sign negative x) (hw : IsDigits w) :
    readSign ((x ++ w).map some ++ rest) = (negative, w.map some ++ rest) := by
  cases hx with
  | absent =>
    cases w with
    | nil => exact absurd rfl hw.ne_nil
    | cons c w =>
      -- a digit is no sign
      have hc := hw.isDigit c (by simp)
      unfold readSign
      split <;> simp_all [Char.isDigit]
  | plus | minus => rfl

theorem exists_readSign (cs : List Char) :
    ∃ x cs', cs = x ++ cs' ∧ Sign (readSign (cs.map some)).1 x ∧
      (readSign (cs.map some)).2 = cs'.map some := by
  unfold readSign
  split
  next source hsource =>
    obtain ⟨cs, rfl, rfl⟩ := exists_eq_append ['-'] hsource
    exact ⟨_, cs, rfl, .minus, rfl⟩
  next source hsource =>
    obtain ⟨cs, rfl, rfl⟩ := exists_eq_append ['+'] hsource
    exact ⟨_, cs, rfl, .plus, rfl⟩
  next => exact ⟨[], cs, rfl, .absent, rfl⟩

theorem isExponentMark_some {mark : Char} :
    isExponentMark (some mark) = true ↔ mark = 'e' ∨ mark = 'E' := by
  unfold isExponentMark
  split <;> simp_all

theorem readExponent_digits {mark : Char} {source rest : Source} {w : List Char}
    (hmark : mark = 'e' ∨ mark = 'E') (hw : w ≠ [])
    (h : takeDigits (readSign source).2 = (digitValues w, rest)) :
    readExponent? (some mark :: source) = some (some (if (readSign source).1 then
      -(ofDigits (digitValues w) : Int) else ofDigits (digitValues w)), rest) := by
  cases w with
  | nil => exact absurd rfl hw
  | cons c w =>
    simp only [readExponent?, isExponentMark_some.2 hmark, if_true]
    rw [h]
    rfl

theorem readExponent_append {e : Option Int} {w : List Char} {rest : Source} (hw : Exponent e w)
    (h : EndsDigits rest) (hmark : isExponentMark rest.head?.join = false) :
    readExponent? (w.map some ++ rest) = some (e, rest) := by
  cases hw with
  | absent => cases rest <;> simp_all [readExponent?]
  | @digits mark negative x w hm hx hw =>
    have hsign : readSign ((x ++ w).map some ++ rest) = (negative, w.map some ++ rest) :=
      readSign_append hx hw
    have hdigits := takeDigits_append hw.isDigit h
    have hread := readExponent_digits hm hw.ne_nil (by rw [hsign]; exact hdigits)
    rwa [hsign] at hread

theorem exponent_of_readExponent {cs : List Char} {e : Option Int} {rest : Source}
    (h : readExponent? (cs.map some) = some (e, rest)) : Splits (Exponent e) cs rest := by
  cases cs with
  | nil =>
    cases h
    exact ⟨[], [], .absent, rfl, rfl⟩
  | cons mark cs =>
    by_cases hmark : isExponentMark (some mark) = true
    · obtain ⟨x, cs, rfl, hx, hsign⟩ := exists_readSign cs
      obtain ⟨w, cs', rfl, hw, hdigits⟩ := exists_takeDigits cs
      rw [← hsign] at hdigits
      cases w with
      | nil =>
        simp only [readExponent?, List.map_cons, hmark, if_true] at h
        rw [hdigits] at h
        cases h
      | cons c w =>
        have hmark := isExponentMark_some.1 hmark
        rw [List.map_cons, readExponent_digits hmark (by simp) hdigits] at h
        cases h
        exact ⟨_, cs', .digits hmark hx ⟨by simp, hw⟩, by simp, rfl⟩
    · simp only [List.map_cons, readExponent?, hmark] at h
      cases h
      exact ⟨[], mark :: cs, .absent, rfl, rfl⟩

theorem Exponent.endsDigits {e : Option Int} {x : List Char} {rest : Source} (hx : Exponent e x)
    (h : EndsNumber rest) :
    EndsDigits (x.map some ++ rest) ∧ (x.map some ++ rest).head? ≠ some (some '.') := by
  cases hx with
  | absent => exact ⟨h.noDigit, h.noPoint⟩
  | digits hmark =>
    rcases hmark with rfl | rfl <;> exact ⟨rfl, by simp⟩

theorem Fraction.endsDigits {ds : List Nat} {f : List Char} {rest : Source} (hf : Fraction ds f)
    (h : EndsDigits rest) : EndsDigits (f.map some ++ rest) := by
  cases hf with
  | absent => exact h
  | digits => rfl

theorem Magnitude.head {n : Nat} {ds : List Nat} {e : Option Int} {w : List Char}
    (h : Magnitude n ds e w) : ∃ c v, w = c :: v ∧ c.isDigit = true := by
  obtain ⟨hw, _, _⟩ := h
  cases hw with
  | zero => exact ⟨_, _, rfl, rfl⟩
  | digits _ hw => exact ⟨_, _, rfl, hw.isDigit _ (by simp)⟩

theorem readMagnitude_append {n : Nat} {ds : List Nat} {e : Option Int} {w : List Char}
    {rest : Source} (hw : Magnitude n ds e w) (h : EndsNumber rest) :
    ∃ r r', readWhole? (w.map some ++ rest) = some (n, r) ∧ readFraction? r = some (ds, r') ∧
      readExponent? r' = some (e, rest) := by
  obtain ⟨hw, hf, hx⟩ := hw
  obtain ⟨hdigit, hpoint⟩ := hx.endsDigits h
  exact ⟨_, _, by simpa using readWhole_append hw (hf.endsDigits hdigit),
    readFraction_append hf hdigit hpoint, readExponent_append hx h.noDigit h.noMark⟩

theorem magnitude_of_readMagnitude {cs : List Char} {n : Nat} {ds : List Nat} {e : Option Int}
    {r r' rest : Source} (hwhole : readWhole? (cs.map some) = some (n, r))
    (hfraction : readFraction? r = some (ds, r')) (hexponent : readExponent? r' = some (e, rest)) :
    Splits (Magnitude n ds e) cs rest := by
  obtain ⟨w, cs, hw, rfl, rfl⟩ := whole_of_readWhole hwhole
  obtain ⟨f, cs, hf, rfl, rfl⟩ := fraction_of_readFraction hfraction
  obtain ⟨x, cs, hx, rfl, rfl⟩ := exponent_of_readExponent hexponent
  exact ⟨_, cs, .parts hw hf hx, by simp, rfl⟩

theorem readMinus_cases (cs : List Char) :
    (∃ cs', cs = '-' :: cs' ∧ readMinus (cs.map some) = (true, cs'.map some)) ∨
      readMinus (cs.map some) = (false, cs.map some) := by
  unfold readMinus
  split
  next source hsource =>
    obtain ⟨cs, rfl, rfl⟩ := exists_eq_append ['-'] hsource
    exact .inl ⟨cs, rfl, rfl⟩
  next => exact .inr rfl

/-- A number literal is read in full if it ends. -/
theorem readNumber_append {n : Number} {w : List Char} {rest : Source} (hw : NumberText n w)
    (h : EndsNumber rest) : readNumber? (w.map some ++ rest) = some (n, rest) := by
  cases hw with
  | positive hw =>
    obtain ⟨c, v, rfl, hc⟩ := hw.head
    have hminus : readMinus ((c :: v).map some ++ rest) = (false, (c :: v).map some ++ rest) := by
      unfold readMinus
      split <;> simp_all [Char.isDigit]
    obtain ⟨r, r', hwhole, hfraction, hexponent⟩ := readMagnitude_append hw h
    simp only [readNumber?, hminus, hwhole, Option.bind_eq_bind, Option.bind_some, hfraction,
      hexponent, Option.pure_def]
  | negative hw =>
    obtain ⟨r, r', hwhole, hfraction, hexponent⟩ := readMagnitude_append hw h
    simp [readNumber?, readMinus, hwhole, hfraction, hexponent]

/-- What is read is a number literal. -/
theorem numberText_of_readNumber {cs : List Char} {n : Number} {rest : Source}
    (h : readNumber? (cs.map some) = some (n, rest)) : Splits (NumberText n) cs rest := by
  simp only [readNumber?, Option.bind_eq_bind, Option.bind_eq_some_iff, Option.pure_def,
    Option.some.injEq, Prod.mk.injEq, Prod.exists] at h
  obtain ⟨whole, r, hwhole, fraction, r', hfraction, exponent, _, hexponent, rfl, rfl⟩ := h
  rcases readMinus_cases cs with ⟨cs, rfl, hminus⟩ | hminus
  · rw [hminus] at hwhole ⊢
    obtain ⟨w, cs', hw, rfl, rfl⟩ := magnitude_of_readMagnitude hwhole hfraction hexponent
    exact ⟨_, cs', .negative hw, rfl, rfl⟩
  · rw [hminus] at hwhole ⊢
    obtain ⟨w, cs', hw, rfl, rfl⟩ := magnitude_of_readMagnitude hwhole hfraction hexponent
    exact ⟨_, cs', .positive hw, rfl, rfl⟩

end Json

end IrView
