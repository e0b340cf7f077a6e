import IrView.Proofs.Json.Grammar

/-!
# String literals that are read

The reader of string literals accepts the bodies that the grammar allows, and nothing else, and it
gives the text that the body spells.

A literal is read one character or escape after the other. What has been read and what is still to
come together spell a text under the condition `Unfinished.Spells`, which every step of the reader
keeps. The only difficulty is a high surrogate: it is half of a character until its low one comes.
-/

namespace IrView

namespace Json

/-! ### Spelling a text -/

theorem shortEscape_ne_u {e c : Char} (h : shortEscape? e = some c) : e ≠ 'u' := by
  rintro rfl
  simp [shortEscape?] at h

theorem spells_nil {s : List Char} : Spells s [] ↔ s = [] := by
  constructor
  · intro h
    cases h
    rfl
  · rintro rfl
    exact .nil

theorem spells_plain {s w : List Char} {c : Char} (hc : IsPlain c) :
    Spells s (c :: w) ↔ ∃ t, s = c :: t ∧ Spells t w := by
  constructor
  · intro h
    cases h with
    | plain _ h => exact ⟨_, rfl, h⟩
    | short | unit | pair => exact absurd rfl hc.ne_backslash
  · rintro ⟨t, rfl, h⟩
    exact .plain hc h

theorem spells_short {s w : List Char} {e c : Char} (he : shortEscape? e = some c) :
    Spells s ('\\' :: e :: w) ↔ ∃ t, s = c :: t ∧ Spells t w := by
  constructor
  · intro h
    cases h with
    | plain hc _ => exact absurd rfl hc.ne_backslash
    | short he' h => exact ⟨_, by rw [he] at he'; cases he'; rfl, h⟩
    | unit | pair => exact absurd rfl (shortEscape_ne_u he)
  · rintro ⟨t, rfl, h⟩
    exact .short he h

/-- The body goes on with an escape of the second half of a pair, and spells the text with it. -/
def SpellsLow (high : Nat) (s w : List Char) : Prop :=
  ∃ a b c d low t v, w = '\\' :: 'u' :: a :: b :: c :: d :: v ∧ hexUnit? a b c d = some low ∧
    IsLow low ∧ s = pairChar high low :: t ∧ Spells t v

theorem spells_unit {s w : List Char} {a b c d : Char} {n : Nat} (hn : hexUnit? a b c d = some n) :
    Spells s ('\\' :: 'u' :: a :: b :: c :: d :: w) ↔
      (IsHigh n ∧ SpellsLow n s w) ∨
      (¬ IsHigh n ∧ ¬ IsLow n ∧ ∃ t, s = Char.ofNat n :: t ∧ Spells t w) := by
  constructor
  · intro h
    cases h with
    | plain hc _ => exact absurd rfl hc.ne_backslash
    | short he _ => exact absurd rfl (shortEscape_ne_u he)
    | unit hn' hhigh hlow h =>
      rw [hn] at hn'
      cases hn'
      exact .inr ⟨hhigh, hlow, _, rfl, h⟩
    | pair hn' hlow' hhigh hlow h =>
      rw [hn] at hn'
      cases hn'
      exact .inl ⟨hhigh, _, _, _, _, _, _, _, rfl, hlow', hlow, rfl, h⟩
  · rintro (⟨hhigh, _, _, _, _, _, _, _, rfl, hlow', hlow, rfl, h⟩ | ⟨hhigh, hlow, t, rfl, h⟩)
    · exact .pair hn hlow' hhigh hlow h
    · exact .unit hn hhigh hlow h

theorem not_spellsLow_nil {high : Nat} {s : List Char} : ¬ SpellsLow high s [] := by
  rintro ⟨_, _, _, _, _, _, _, h, -⟩
  cases h

theorem not_spellsLow_plain {high : Nat} {s w : List Char} {c : Char} (hc : IsPlain c) :
    ¬ SpellsLow high s (c :: w) := by
  rintro ⟨_, _, _, _, _, _, _, h, -⟩
  cases h
  exact hc.ne_backslash rfl

theorem not_spellsLow_short {high : Nat} {s w : List Char} {e c : Char}
    (he : shortEscape? e = some c) : ¬ SpellsLow high s ('\\' :: e :: w) := by
  rintro ⟨_, _, _, _, _, _, _, h, -⟩
  cases h
  exact shortEscape_ne_u he rfl

theorem spellsLow_unit {high : Nat} {s w : List Char} {a b c d : Char} {n : Nat}
    (hn : hexUnit? a b c d = some n) :
    SpellsLow high s ('\\' :: 'u' :: a :: b :: c :: d :: w) ↔
      IsLow n ∧ ∃ t, s = pairChar high n :: t ∧ Spells t w := by
  constructor
  · rintro ⟨_, _, _, _, low, t, _, h, hlow', hlow, rfl, ht⟩
    cases h
    rw [hn] at hlow'
    cases hlow'
    exact ⟨hlow, t, rfl, ht⟩
  · rintro ⟨hlow, t, rfl, ht⟩
    exact ⟨a, b, c, d, n, t, w, rfl, hn, hlow, rfl, ht⟩

theorem exists_eq_append_cons {α : Type} {s l : List α} {c : α} {P : List α → Prop} :
    (∃ t, s = l ++ t ∧ ∃ t', t = c :: t' ∧ P t') ↔ ∃ t, s = l ++ c :: t ∧ P t := by
  constructor
  · rintro ⟨_, rfl, t, rfl, h⟩
    exact ⟨t, rfl, h⟩
  · rintro ⟨t, rfl, h⟩
    exact ⟨_, rfl, t, rfl, h⟩

theorem not_isLow_of_isHigh {n : Nat} (h : IsHigh n) : ¬ IsLow n := by
  simp only [IsHigh, IsLow] at *
  omega

/-! ### String literals -/

/-- What has been read of a literal and the rest of its body together spell the text. -/
def Unfinished.Spells (u : Unfinished) (s w : List Char) : Prop :=
  u.sound = true ∧ ∃ t, s = u.chars.reverse ++ t ∧
    match u.high with
    | none => Json.Spells t w
    | some high => SpellsLow high t w

theorem Unfinished.spells_empty {s w : List Char} :
    Unfinished.empty.Spells s w ↔ Json.Spells s w := by
  simp [Unfinished.Spells, Unfinished.empty]

theorem Unfinished.content_eq_some {u : Unfinished} {s : String} :
    u.content = some s ↔ u.Spells s.toList [] := by
  obtain ⟨chars, high, sound⟩ := u
  cases high with
  | some high => simp [Unfinished.content, Unfinished.Spells, not_spellsLow_nil]
  | none =>
    cases sound <;>
      simp [Unfinished.content, Unfinished.Spells, spells_nil, String.ext_iff, eq_comm]

theorem Unfinished.spells_plain {u : Unfinished} {s w : List Char} {c : Char} (hc : IsPlain c) :
    u.Spells s (c :: w) ↔ (u.push c).Spells s w := by
  obtain ⟨chars, high, sound⟩ := u
  cases high with
  | some high => simp [Unfinished.push, Unfinished.Spells, not_spellsLow_plain hc]
  | none => simp [Unfinished.push, Unfinished.Spells, Json.spells_plain hc, exists_eq_append_cons]

theorem Unfinished.spells_short {u : Unfinished} {s w : List Char} {e c : Char}
    (he : shortEscape? e = some c) : u.Spells s ('\\' :: e :: w) ↔ (u.push c).Spells s w := by
  obtain ⟨chars, high, sound⟩ := u
  cases high with
  | some high => simp [Unfinished.push, Unfinished.Spells, not_spellsLow_short he]
  | none => simp [Unfinished.push, Unfinished.Spells, Json.spells_short he, exists_eq_append_cons]

theorem Unfinished.spells_unit {u : Unfinished} {s w : List Char} {a b c d : Char} {n : Nat}
    (hn : hexUnit? a b c d = some n) :
    u.Spells s ('\\' :: 'u' :: a :: b :: c :: d :: w) ↔ (u.pushUnit n).Spells s w := by
  obtain ⟨chars, high, sound⟩ := u
  unfold Unfinished.pushUnit
  split
  case isTrue hhigh =>
    -- a high surrogate waits for its low one, and if one is waiting already nothing is spelled
    have hlow := not_isLow_of_isHigh hhigh
    cases high with
    | some high => simp [Unfinished.Spells, spellsLow_unit hn, hlow]
    | none => simp [Unfinished.Spells, Json.spells_unit hn, show IsHigh n from hhigh]
  case isFalse hhigh =>
    split
    case isTrue hlow =>
      -- a low surrogate makes one character with the high one that waits, and spells nothing alone
      cases high with
      | some high =>
        simp [Unfinished.Spells, spellsLow_unit hn, show IsLow n from hlow, pairChar,
          exists_eq_append_cons]
      | none =>
        simp [Unfinished.Spells, Unfinished.spoil, Json.spells_unit hn, show IsLow n from hlow,
          show ¬ IsHigh n from hhigh]
    case isFalse hlow =>
      cases high with
      | some high =>
        simp [Unfinished.push, Unfinished.Spells, spellsLow_unit hn, show ¬ IsLow n from hlow]
      | none =>
        simp [Unfinished.push, Unfinished.Spells, Json.spells_unit hn, show ¬ IsLow n from hlow,
          show ¬ IsHigh n from hhigh, exists_eq_append_cons]

theorem readString_plain {u : Unfinished} {rest : Source} {c : Char} (hc : IsPlain c) :
    readString u (some c :: rest) = readString (u.push c) rest := by
  have hquote := hc.ne_quote
  have hslash := hc.ne_backslash
  have hprintable := hc.printable
  rw [readString.eq_def]
  split <;> grind

theorem readString_short {u : Unfinished} {rest : Source} {e c : Char}
    (he : shortEscape? e = some c) :
    readString u (some '\\' :: some e :: rest) = readString (u.push c) rest := by
  have hu := shortEscape_ne_u he
  rw [readString.eq_def]
  split <;> grind

theorem readString_unit {u : Unfinished} {rest : Source} {a b c d : Char} {n : Nat}
    (hn : hexUnit? a b c d = some n) :
    readString u (some '\\' :: some 'u' :: some a :: some b :: some c :: some d :: rest) =
      readString (u.pushUnit n) rest := by
  rw [readString, hn]

/-- A body with its closing quote is read to the end. -/
theorem readString_body {w : List Char} (hw : Body w) :
    ∀ (u : Unfinished) (rest : Source), ∃ content,
      readString u (w.map some ++ some '"' :: rest) = some (content, rest) ∧
      ∀ s, content = some s ↔ u.Spells s.toList w := by
  induction hw with
  | nil => exact fun u rest => ⟨u.content, by simp [readString], fun s => u.content_eq_some⟩
  | plain hc _ ih =>
    intro u rest
    obtain ⟨content, hread, hcontent⟩ := ih (u.push _) rest
    exact ⟨content, by simpa [readString_plain hc] using hread,
      fun s => (hcontent s).trans (Unfinished.spells_plain hc).symm⟩
  | short he _ ih =>
    intro u rest
    obtain ⟨content, hread, hcontent⟩ := ih (u.push _) rest
    exact ⟨content, by simpa [readString_short he] using hread,
      fun s => (hcontent s).trans (Unfinished.spells_short he).symm⟩
  | unit hn _ ih =>
    intro u rest
    obtain ⟨content, hread, hcontent⟩ := ih (u.pushUnit _) rest
    exact ⟨content, by simpa [readString_unit hn] using hread,
      fun s => (hcontent s).trans (Unfinished.spells_unit hn).symm⟩

/-- What is read is a body with its closing quote. -/
theorem body_of_readString {u : Unfinished} {source rest : Source} {content : Content} :
    ∀ {cs : List Char}, cs.map some = source → readString u source = some (content, rest) →
      Splits (fun x => ∃ w, Body w ∧ x = w ++ ['"']) cs rest := by
  fun_induction readString u source with
  | case1 => simp
  | case2 u source =>
    rintro cs hcs ⟨⟩
    obtain ⟨cs', rfl, rfl⟩ := exists_eq_append ['"'] hcs
    exact ⟨_, cs', ⟨[], .nil, rfl⟩, rfl, rfl⟩
  | case3 u a b c d source n hn ih =>
    -- an escape of four digits
    intro cs hcs hread
    obtain ⟨cs, rfl, rfl⟩ := exists_eq_append ['\\', 'u', a, b, c, d] hcs
    obtain ⟨_, cs', ⟨w, hw, rfl⟩, rfl, rfl⟩ := ih rfl hread
    exact ⟨_, cs', ⟨_, .unit hn hw, rfl⟩, rfl, rfl⟩
  | case5 u e source _ c he ih =>
    -- an escape of one letter
    intro cs hcs hread
    obtain ⟨cs, rfl, rfl⟩ := exists_eq_append ['\\', e] hcs
    obtain ⟨_, cs', ⟨w, hw, rfl⟩, rfl, rfl⟩ := ih rfl hread
    exact ⟨_, cs', ⟨_, .short he hw, rfl⟩, rfl, rfl⟩
  | case9 u c source hquote _ _ hslash hc ih =>
    -- a character that stands for itself
    intro cs hcs hread
    obtain ⟨cs, rfl, rfl⟩ := exists_eq_append [c] hcs
    obtain ⟨_, cs', ⟨w, hw, rfl⟩, rfl, rfl⟩ := ih rfl hread
    exact ⟨_, cs', ⟨_, .plain ⟨hquote, hslash, hc⟩ hw, rfl⟩, rfl, rfl⟩
  | case10 u source =>
    -- a gap, which a text does not have
    intro cs hcs
    simp [List.map_eq_cons_iff] at hcs
  | _ => simp

/-! ### Whole literals -/

/-- A literal whose body is allowed is read in full, and gives the text that the body spells. -/
theorem readString_append {w : List Char} {content : Content} (hw : Body w)
    (hcontent : ∀ s, content = some s ↔ Spells s.toList w) (rest : Source) :
    readString .empty (w.map some ++ some '"' :: rest) = some (content, rest) := by
  obtain ⟨content', hread, hcontent'⟩ := readString_body hw .empty rest
  have hsame : content = content' := by
    ext s
    rw [hcontent s, hcontent' s, Unfinished.spells_empty]
  rw [hread, hsame]

/-- What is read is a literal whose body is allowed, and the text that the body spells. -/
theorem literal_of_readString {cs : List Char} {content : Content} {rest : Source}
    (h : readString .empty (cs.map some) = some (content, rest)) :
    ∃ w cs', Body w ∧ (∀ s, content = some s ↔ Spells s.toList w) ∧ cs = w ++ '"' :: cs' ∧
      rest = cs'.map some := by
  obtain ⟨_, cs', ⟨w, hw, rfl⟩, rfl, rfl⟩ := body_of_readString rfl h
  obtain ⟨content', hread, hcontent'⟩ := readString_body hw .empty (cs'.map some)
  have hsame : content' = content := by
    simp only [List.map_append, List.map_cons, List.map_nil, List.append_assoc] at h
    cases hread.symm.trans h
    rfl
  subst hsame
  exact ⟨w, cs', hw, fun s => (hcontent' s).trans Unfinished.spells_empty, by simp, rfl⟩

end Json

end IrView
