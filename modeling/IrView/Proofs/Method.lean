import IrView.Method
import IrView.Proofs.Text.Decimal

/-!
# Choosing a pass

A selector that can be read as a position is taken as one, and any other selector as a name
(`Number.readIndex?_eq_some_iff`). A name is looked up among the names first, so the name under
which an earlier pass is displayed never hides a pass (`Method.findPass_of_mem`), but a name that can
be read as a position does (`Method.position_hides_name`). Every pass is found by its position.
-/

namespace IrView

/-! ### Texts of positions -/

namespace Number

/-- The text can be read as the position: ASCII digits behind an optional plus sign, with a value
that fits an unsigned 64-bit word. -/
def IsPositionText (s : String) (i : Nat) : Prop :=
  i < Nat.pow 2 64 ∧ ∃ digits : List Char, (s.toList = digits ∨ s.toList = '+' :: digits) ∧
    digits ≠ [] ∧ (∀ c ∈ digits, c.isDigit = true) ∧ Nat.ofDigitChars 10 digits 0 = i

theorem readDigits?_eq_some_iff {cs : List Char} {i : Nat} : readDigits? cs = some i ↔
    cs ≠ [] ∧ (∀ c ∈ cs, c.isDigit = true) ∧ Nat.ofDigitChars 10 cs 0 = i := by
  rw [readDigits?]
  simp [and_assoc]

theorem readIndex?_eq_some_iff {s : String} {i : Nat} :
    readIndex? s = some i ↔ IsPositionText s i := by
  simp only [readIndex?, Option.filter_eq_some_iff, decide_eq_true_eq]
  rw [and_comm]
  refine and_congr_right fun _ => ?_
  split
  next digits hplus =>
    rw [readDigits?_eq_some_iff]
    constructor
    · intro h
      exact ⟨digits, Or.inr hplus, h⟩
    · rintro ⟨digits', hdigits | hdigits, h⟩
      · -- a plus sign is no digit
        exact absurd (h.2.1 '+' (by simp [← hdigits, hplus])) (by decide)
      · rw [hplus, List.cons_inj_right] at hdigits
        exact hdigits ▸ h
  next hno =>
    rw [readDigits?_eq_some_iff]
    constructor
    · intro h
      exact ⟨s.toList, Or.inl rfl, h⟩
    · rintro ⟨digits, rfl | hdigits, h⟩
      · exact h
      · exact absurd hdigits (hno digits)

/-- The decimal text of a position can be read as it. -/
theorem isPositionText_toString {i : Nat} (h : i < Nat.pow 2 64) : IsPositionText (toString i) i := by
  refine ⟨h, i.repr.toList, Or.inl rfl, mt String.toList_eq_nil_iff.1 Nat.repr_ne_empty, ?_, ?_⟩
  · intro c hc
    exact Text.isDigit_of_mem_repr hc
  · rw [Nat.toList_repr, Nat.ofDigitChars_ten_toDigits]

end Number

namespace Method

variable {m : Method} {p q : Pass} {name selector : String} {i : Nat}

/-! ### Names -/

/-- The pass is the first one with the name. -/
def FirstNamed (m : Method) (name : String) (p : Pass) : Prop :=
  ∃ front back, m.passes = front ++ p :: back ∧ p.name = name ∧ ∀ q ∈ front, q.name ≠ name

theorem find?_name_eq_some_iff :
    m.passes.find? (fun p => p.name == name) = some p ↔ m.FirstNamed name p := by
  rw [List.find?_eq_some_iff_append, FirstNamed]
  simp only [beq_iff_eq, Bool.not_eq_true', beq_eq_false_iff_ne]
  constructor
  · rintro ⟨hname, front, back, hpasses, hfront⟩
    exact ⟨front, back, hpasses, hname, hfront⟩
  · rintro ⟨front, back, hpasses, hname, hfront⟩
    exact ⟨hname, front, back, hpasses, hfront⟩

theorem exists_firstNamed (h : p ∈ m.passes) : ∃ q, m.FirstNamed p.name q := by
  have hsome : (m.passes.find? fun q => q.name == p.name).isSome = true :=
    List.find?_isSome.2 ⟨p, h, beq_self_eq_true _⟩
  obtain ⟨q, hq⟩ := Option.isSome_iff_exists.1 hsome
  exact ⟨q, find?_name_eq_some_iff.1 hq⟩

/-- A name goes before all names under which passes are displayed. -/
theorem passNamed?_of_firstNamed (h : m.FirstNamed name p) : m.passNamed? name = some p := by
  rw [passNamed?, find?_name_eq_some_iff.2 h]
  rfl

/-! ### Selectors -/

theorem findPass_of_readIndex? (h : Number.readIndex? selector = some i) :
    m.findPass selector = .ok p ↔ m.passes[i]? = some p := by
  rw [findPass, h]
  dsimp only
  cases m.passes[i]? <;> simp

theorem findPass_of_name (h : Number.readIndex? selector = none) :
    m.findPass selector = .ok p ↔ m.passNamed? selector = some p := by
  rw [findPass, h]
  dsimp only
  cases m.passNamed? selector <;> simp

theorem findPass_of_isPositionText (h : Number.IsPositionText selector i) :
    m.findPass selector = .ok p ↔ m.passes[i]? = some p :=
  findPass_of_readIndex? (Number.readIndex?_eq_some_iff.2 h)

/-- A pass whose name cannot be read as a position, or else the first pass of that name, is found by
its name. -/
theorem findPass_of_mem (h : p ∈ m.passes) (hname : ∀ i, ¬ Number.IsPositionText p.name i) :
    ∃ q, m.findPass p.name = .ok q ∧ m.FirstNamed p.name q := by
  obtain ⟨q, hq⟩ := exists_firstNamed h
  have hindex : Number.readIndex? p.name = none := by
    rw [Option.eq_none_iff_forall_ne_some]
    intro i hi
    exact hname i (Number.readIndex?_eq_some_iff.1 hi)
  exact ⟨q, (findPass_of_name hindex).2 (passNamed?_of_firstNamed hq), hq⟩

/-- **Names and positions select passes.** The name of a pass selects the first pass that has this
very name, unless it can be read as a position; then it selects what stands at the position. The
decimal text of a position selects the pass that stands there. -/
theorem findPass_selects (m : Method) :
    (∀ p ∈ m.passes, (∀ i, ¬ Number.IsPositionText p.name i) →
      ∃ q, m.findPass p.name = .ok q ∧ m.FirstNamed p.name q) ∧
    (∀ p ∈ m.passes, ∀ i, Number.IsPositionText p.name i →
      ∀ q, m.findPass p.name = .ok q ↔ m.passes[i]? = some q) ∧
    ∀ i p, i < Nat.pow 2 64 → m.passes[i]? = some p → m.findPass (toString i) = .ok p := by
  refine ⟨fun p hp hname => findPass_of_mem hp hname, ?_, ?_⟩
  · intro p _ i hname q
    exact findPass_of_isPositionText hname
  · intro i p hi hp
    exact (findPass_of_isPositionText (Number.isPositionText_toString hi)).2 hp

/-- A pass that left nothing behind. -/
def emptyPass (index : Nat) (name : String) : Pass where
  index := index
  name := name
  nanos := 0
  hir := none
  lir := none

/-- A pass that is displayed under the name of the next one, and passes with numbers as names. -/
def numbered : Method where
  className := ""
  name := ""
  descriptor := ""
  dependencies := { nodes := [], edges := [] }
  passes := [emptyPass 0 "LoopPass", emptyPass 1 "Loop", emptyPass 2 "7", emptyPass 3 "0"]

/-- A name goes before a display name, also that of an earlier pass. -/
theorem findPass_displayed : (emptyPass 0 "LoopPass").displayName = "Loop" ∧
    ∃ q, numbered.findPass "Loop" = .ok q ∧ numbered.FirstNamed "Loop" q := by
  have hname : ∀ i, ¬ Number.IsPositionText "Loop" i := by
    intro i hi
    have hindex : Number.readIndex? "Loop" = none := by decide
    rw [Number.readIndex?_eq_some_iff.2 hi] at hindex
    cases hindex
  have hmem : emptyPass 1 "Loop" ∈ numbered.passes := List.mem_cons_of_mem _ List.mem_cons_self
  exact ⟨by decide, (findPass_selects numbered).1 _ hmem hname⟩

/-- A name that can be read as a position finds no pass, or another one. -/
theorem position_hides_name : emptyPass 2 "7" ∈ numbered.passes ∧
    (∀ q, numbered.findPass "7" ≠ .ok q) ∧ emptyPass 3 "0" ∈ numbered.passes ∧
    numbered.findPass "0" = .ok (emptyPass 0 "LoopPass") := by
  have hmem : ∀ p ∈ [emptyPass 2 "7", emptyPass 3 "0"], p ∈ numbered.passes := by
    simp [numbered]
  refine ⟨hmem _ List.mem_cons_self, ?_, hmem _ (List.mem_cons_of_mem _ List.mem_cons_self), rfl⟩
  intro q hq
  cases hq

end Method

end IrView
