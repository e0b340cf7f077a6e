import IrView.Json.Printer
import IrView.Proofs.Json.Reading

/-!
# Writing what is read

The printer writes a value in one of the ways that the grammar allows, on one line as well as over
several (`written_text`), so reading gives the value back. A value is printable if its strings spell
texts and the digits behind the point of its numbers are decimal digits (`Printable`).

Texts that spell tokens may be put together (`Lexed.append`). So what has to be shown is that each
literal is well formed, and that brackets, commas, line breaks and spaces stand around the parts of
a value as its tokens say.
-/

namespace IrView

namespace Json

/-- A value that the printer writes as it is. -/
inductive Printable : Value → Prop
  | null : Printable .null
  | bool (b : Bool) : Printable (.bool b)
  | number {n : Number} (h : ∀ d ∈ n.fraction, d < 10) : Printable (.number n)
  | string (s : String) : Printable (.string (some s))
  | array {items : List Value} (h : ∀ v ∈ items, Printable v) : Printable (.array items)
  | object {members : List (Content × Value)} (hkeys : ∀ m ∈ members, m.1.isSome = true)
      (h : ∀ m ∈ members, Printable m.2) : Printable (.object members)

/-! ### Texts put together -/

theorem Lexed.blanks {ts : List Token} {w cs : List Char} (hw : ∀ c ∈ w, IsBlank c)
    (h : Lexed ts cs) : Lexed ts (w ++ cs) := by
  cases h with
  | done hcs =>
    refine .done fun c hc => ?_
    rcases List.mem_append.1 hc with hc | hc
    · exact hw c hc
    · exact hcs c hc
  | token hx ht h =>
    rw [← List.append_assoc]
    refine .token (fun c hc => ?_) ht h
    rcases List.mem_append.1 hc with hc | hc
    · exact hw c hc
    · exact hx c hc

theorem Lexed.append {ts ts' : List Token} {cs cs' : List Char} (h : Lexed ts cs)
    (h' : Lexed ts' cs') : Lexed (ts ++ ts') (cs ++ cs') := by
  induction h with
  | done hw => exact h'.blanks hw
  | token hw ht _ ih =>
    rw [List.append_assoc, List.append_assoc, List.cons_append]
    exact .token hw ht ih

theorem TokenText.lexed {t : Token} {w : List Char} (h : TokenText t w) : Lexed [t] w := by
  have hdone : Lexed [] [] := .done fun _ hc => nomatch hc
  simpa using Lexed.token (w := []) (fun _ hc => nomatch hc) h hdone

/-! ### String literals -/

theorem Spells.body {s w : List Char} (h : Spells s w) : Body w := by
  induction h with
  | nil => exact .nil
  | plain hc _ ih => exact .plain hc ih
  | short he _ ih => exact .short he ih
  | unit hn _ _ _ ih => exact .unit hn ih
  | pair hn hn' _ _ _ ih => exact .unit hn (.unit hn' ih)

/-- A body that spells a text spells no other one. -/
theorem Spells.tokenText {s : String} {w : List Char} (h : Spells s.toList w) :
    TokenText (.string (some s)) ('"' :: (w ++ ['"'])) := by
  obtain ⟨content, -, hcontent⟩ := readString_body h.body .empty []
  have hspells : ∀ t : String, content = some t ↔ Spells t.toList w := fun t =>
    (hcontent t).trans Unfinished.spells_empty
  refine .string h.body fun t => ?_
  rw [← (hspells s).2 h]
  exact hspells t

/-- A control character is written with its code, in two hexadecimal digits behind two zeros. -/
theorem controlEscape_ofNat : ∀ n < 32, ∃ a b, controlEscape (Char.ofNat n) =
    ['\\', 'u', '0', '0', a, b] ∧ hexUnit? '0' '0' a b = some n := by
  have h : ∀ n < 32, controlEscape (Char.ofNat n) =
      ['\\', 'u', '0', '0', (n / 16).digitChar, (n % 16).digitChar] ∧
      hexUnit? '0' '0' (n / 16).digitChar (n % 16).digitChar = some n := by decide
  exact fun n hn => ⟨_, _, h n hn⟩

theorem spells_controlEscape {c : Char} {s w : List Char} (hc : c.toNat < 32)
    (h : Spells s w) : Spells (c :: s) (controlEscape c ++ w) := by
  obtain ⟨a, b, hescape, hunit⟩ := controlEscape_ofNat c.toNat hc
  have hhigh : ¬ IsHigh c.toNat := by
    simp only [IsHigh]
    omega
  have hlow : ¬ IsLow c.toNat := by
    simp only [IsLow]
    omega
  have hspells := Spells.unit hunit hhigh hlow h
  rw [Char.ofNat_toNat] at hescape hspells
  rw [hescape]
  exact hspells

theorem spells_escapeChar (c : Char) {s w : List Char} (h : Spells s w) :
    Spells (c :: s) (escapeChar c ++ w) := by
  unfold escapeChar
  split
  case h_8 _ hquote hbackslash _ _ _ _ _ =>
    by_cases hc : c.val < 0x20
    · rw [if_pos hc]
      exact spells_controlEscape hc h
    · rw [if_neg hc]
      exact .plain ⟨hquote, hbackslash, hc⟩ h
  all_goals exact .short rfl h

theorem tokenText_quote (s : String) : TokenText (.string (some s)) (quote s).toList := by
  have hspells : ∀ cs : List Char, Spells cs (cs.flatMap escapeChar) := by
    intro cs
    induction cs with
    | nil => exact .nil
    | cons c cs ih => exact spells_escapeChar c ih
  simpa [quote] using (hspells s.toList).tokenText

/-! ### Number literals -/

theorem isDigits_toDigits (n : Nat) : IsDigits (Nat.toDigits 10 n) :=
  ⟨Nat.toDigits_ne_nil, fun _ hc => Nat.isDigit_of_mem_toDigits (by decide) (by decide) hc⟩

theorem ofDigits_toDigits (n : Nat) : ofDigits (digitValues (Nat.toDigits 10 n)) = n := by
  rw [ofDigits, digitValues, List.foldl_map]
  exact Nat.ofDigitChars_ten_toDigits

/-- Only zero begins with a zero. -/
theorem exists_toDigits_eq_cons {n : Nat} (hn : 0 < n) :
    ∃ c w, Nat.toDigits 10 n = c :: w ∧ c ≠ '0' := by
  induction n using Nat.strongRecOn with
  | _ n ih =>
    by_cases hlt : n < 10
    · have hdigit : ∀ d < 10, 0 < d → d.digitChar ≠ '0' := by decide
      exact ⟨_, [], Nat.toDigits_of_lt_base hlt, hdigit n hlt hn⟩
    · obtain ⟨c, w, hdigits, hc⟩ := ih (n / 10) (by omega) (by omega)
      rw [Nat.toDigits_of_base_le (by decide) (by omega), hdigits]
      exact ⟨c, _, List.cons_append, hc⟩

theorem whole_toDigits (n : Nat) : Whole n (Nat.toDigits 10 n) := by
  cases n with
  | zero => exact .zero
  | succ n =>
    obtain ⟨c, w, hdigits, hc⟩ := exists_toDigits_eq_cons (Nat.succ_pos n)
    have hvalue := ofDigits_toDigits (n + 1)
    have hrun := isDigits_toDigits (n + 1)
    rw [hdigits] at hvalue hrun ⊢
    exact hvalue ▸ .digits hc hrun

theorem fraction_toString {ds : List Nat} (h : ∀ d ∈ ds, d < 10) :
    Fraction ds (if ds.isEmpty then "" else "." ++ String.join (ds.map toString)).toList := by
  have hdigit : ∀ d < 10, (toString d).toList = [d.digitChar] ∧
      d.digitChar.isDigit = true ∧ d.digitChar.toNat - '0'.toNat = d := by decide
  have hjoin : (String.join (ds.map toString)).toList = ds.map Nat.digitChar := by
    have hsingle : (ds.map toString).map String.toList = ds.map fun d => [d.digitChar] := by
      rw [List.map_map]
      exact List.map_congr_left fun d hd => (hdigit d (h d hd)).1
    rw [String.toList_join, List.flatMap_def, hsingle, ← List.flatMap_def, List.map_eq_flatMap]
  have hvalues : digitValues (ds.map Nat.digitChar) = ds := by
    rw [digitValues, List.map_map]
    exact (List.map_congr_left fun d hd => (hdigit d (h d hd)).2.2).trans (List.map_id ds)
  cases ds with
  | nil => exact .absent
  | cons d ds =>
    have hrun : IsDigits ((d :: ds).map Nat.digitChar) := by
      refine ⟨by simp, fun c hc => ?_⟩
      obtain ⟨e, he, rfl⟩ := List.mem_map.1 hc
      exact (hdigit e (h e he)).2.1
    rw [List.isEmpty_cons, if_neg Bool.false_ne_true, String.toList_append, hjoin]
    conv => arg 1; rw [← hvalues]
    exact .digits hrun

theorem exponent_toString (e : Option Int) :
    Exponent e (e.elim "" fun e => "e" ++ toString e).toList := by
  cases e with
  | none => exact .absent
  | some e =>
    have htext : ("e" ++ toString e).toList = 'e' :: (toString e).toList := by
      rw [String.toList_append]
      rfl
    show Exponent _ ("e" ++ toString e).toList
    rw [htext, Int.toString_eq_repr]
    cases e with
    | ofNat n =>
      have hexponent := Exponent.digits (Or.inl (rfl : 'e' = 'e')) .absent (isDigits_toDigits n)
      simpa [ofDigits_toDigits, Int.repr, Nat.toList_repr] using hexponent
    | negSucc n =>
      have hexponent := Exponent.digits (Or.inl (rfl : 'e' = 'e')) .minus
        (isDigits_toDigits (n + 1))
      simpa [ofDigits_toDigits, Int.repr, Nat.toList_repr, Int.negSucc_eq] using hexponent

theorem toList_text (n : Number) : n.text.toList = (if n.negative then ['-'] else []) ++
    (Nat.toDigits 10 n.whole ++
      ((if n.fraction.isEmpty then "" else "." ++ String.join (n.fraction.map toString)).toList ++
        (n.exponent.elim "" fun e => "e" ++ toString e).toList)) := by
  obtain ⟨negative, whole, fraction, exponent⟩ := n
  cases negative <;> cases exponent <;> simp [Number.text]

theorem numberText_text {n : Number} (h : ∀ d ∈ n.fraction, d < 10) :
    NumberText n n.text.toList := by
  have hmagnitude := Magnitude.parts (whole_toDigits n.whole) (fraction_toString h)
    (exponent_toString n.exponent)
  rw [toList_text]
  obtain ⟨negative, whole, fraction, exponent⟩ := n
  cases negative with
  | false => exact .positive hmagnitude
  | true => exact .negative hmagnitude

/-! ### Arrays and objects -/

theorem compactItems_eq_map (vs : List Value) : compactItems vs = vs.map Value.compact := by
  induction vs with
  | nil => rfl
  | cons v vs ih => rw [compactItems, ih, List.map_cons]

theorem compactMembers_eq_map (ms : List (Content × Value)) :
    compactMembers ms = ms.map fun m => contentText m.1 ++ ":" ++ m.2.compact := by
  induction ms with
  | nil => rfl
  | cons m ms ih => rw [compactMembers, ih, List.map_cons]

theorem prettyItems_eq_map (level : Nat) (vs : List Value) :
    prettyItems level vs = vs.map (Value.pretty level) := by
  induction vs with
  | nil => rfl
  | cons v vs ih => rw [prettyItems, ih, List.map_cons]

theorem prettyMembers_eq_map (level : Nat) (ms : List (Content × Value)) :
    prettyMembers level ms = ms.map fun m => contentText m.1 ++ ": " ++ m.2.pretty level := by
  induction ms with
  | nil => rfl
  | cons m ms ih => rw [prettyMembers, ih, List.map_cons]

/-- Parts are spelled with commas between them if what stands between their texts is a comma and
white space. -/
theorem lexed_separated {α : Type} {tokens : α → List Token} {text : α → String} {sep : String}
    (hsep : Lexed [.comma] sep.toList) {l : List α}
    (h : ∀ a ∈ l, Lexed (tokens a) (text a).toList) :
    Lexed (separated (l.map tokens)) (sep.intercalate (l.map text)).toList := by
  rw [separated, String.toList_intercalate, List.map_map]
  induction l with
  | nil => exact .done fun _ hc => nomatch hc
  | cons a l ih =>
    rw [List.forall_mem_cons] at h
    cases l with
    | nil => simpa using h.1
    | cons b l =>
      simp only [List.map_cons, List.intercalate_cons_cons] at ih ⊢
      exact (h.1.append hsep).append (ih h.2)

theorem isBlank_of_mem_newline {level : Nat} {c : Char} (hc : c ∈ (newline level).toList) :
    IsBlank c := by
  rw [newline, String.toList_append, List.mem_append] at hc
  rcases hc with hc | hc
  · exact Or.inr (Or.inr (Or.inl (List.mem_singleton.1 hc)))
  · rw [String.toList_ofList] at hc
    exact Or.inl (List.eq_of_mem_replicate hc)

section

variable {α : Type} {tokens : α → List Token} {text : α → String} {first last : Token}
  {opening closing : String} {l : List α}

theorem lexed_line (hfirst : TokenText first opening.toList) (hlast : TokenText last closing.toList)
    (h : ∀ a ∈ l, Lexed (tokens a) (text a).toList) :
    Lexed (first :: (separated (l.map tokens) ++ [last]))
      (opening ++ ",".intercalate (l.map text) ++ closing).toList := by
  have hsep : Lexed [.comma] ",".toList := TokenText.comma.lexed
  have hparts := lexed_separated hsep h
  simpa [List.append_assoc] using hfirst.lexed.append (hparts.append hlast.lexed)

theorem lexed_block (level : Nat) (hfirst : TokenText first opening.toList)
    (hlast : TokenText last closing.toList) (h : ∀ a ∈ l, Lexed (tokens a) (text a).toList) :
    Lexed (first :: (separated (l.map tokens) ++ [last]))
      (block level opening closing (l.map text)).toList := by
  cases l with
  | nil => simpa [block, separated] using hfirst.lexed.append hlast.lexed
  | cons a l =>
    have hblank : ∀ level, ∀ c ∈ (newline level).toList, IsBlank c :=
      fun _ _ => isBlank_of_mem_newline
    have hsep : Lexed [.comma] ("," ++ newline (level + 1)).toList := by
      rw [String.toList_append]
      exact TokenText.comma.lexed.append (.done (hblank (level + 1)))
    have hparts := (lexed_separated hsep h).blanks (hblank (level + 1))
    have hall := hfirst.lexed.append (hparts.append (hlast.lexed.blanks (hblank level)))
    simpa [block, List.append_assoc] using hall

end

/-! ### Values -/

theorem lexed_bool (b : Bool) : Lexed [.bool b] (if b then "true" else "false").toList := by
  cases b with
  | false => exact TokenText.false.lexed
  | true => exact TokenText.true.lexed

theorem lexed_compact {v : Value} (h : Printable v) : Lexed v.tokens v.compact.toList := by
  induction h with
  | null => exact TokenText.null.lexed
  | bool b => exact lexed_bool b
  | number h => exact (TokenText.number (numberText_text h)).lexed
  | string s => exact (tokenText_quote s).lexed
  | array _ ih =>
    rw [Value.tokens, itemParts_eq_map, Value.compact, compactItems_eq_map]
    exact lexed_line .openArray .closeArray ih
  | object hkeys _ ih =>
    rw [Value.tokens, memberParts_eq_map, Value.compact, compactMembers_eq_map]
    refine lexed_line .openObject .closeObject fun m hm => ?_
    obtain ⟨key, hkey⟩ := Option.isSome_iff_exists.1 (hkeys m hm)
    have hmember := (tokenText_quote key).lexed.append (TokenText.colon.lexed.append (ih m hm))
    simpa [hkey, contentText, List.append_assoc] using hmember

theorem lexed_pretty {v : Value} (h : Printable v) (level : Nat) :
    Lexed v.tokens (v.pretty level).toList := by
  induction h generalizing level with
  | null =>
    rw [Value.pretty]
    exact TokenText.null.lexed
  | bool b =>
    rw [Value.pretty]
    exact lexed_bool b
  | number h => exact (TokenText.number (numberText_text h)).lexed
  | string s => exact (tokenText_quote s).lexed
  | array _ ih =>
    rw [Value.tokens, itemParts_eq_map, Value.pretty, prettyItems_eq_map]
    exact lexed_block level .openArray .closeArray fun v hv => ih v hv (level + 1)
  | object hkeys _ ih =>
    rw [Value.tokens, memberParts_eq_map, Value.pretty, prettyMembers_eq_map]
    refine lexed_block level .openObject .closeObject fun m hm => ?_
    obtain ⟨key, hkey⟩ := Option.isSome_iff_exists.1 (hkeys m hm)
    have hspace : Lexed m.2.tokens (' ' :: (m.2.pretty (level + 1)).toList) :=
      (ih m hm (level + 1)).blanks (w := [' ']) fun c hc => Or.inl (List.mem_singleton.1 hc)
    have hmember := (tokenText_quote key).lexed.append (TokenText.colon.lexed.append hspace)
    simpa [hkey, contentText, List.append_assoc] using hmember

/-- **What the printer writes is a way to write the value**, on one line as well as over several. -/
theorem written_text (pretty : Bool) {v : Value} (h : Printable v) :
    Written v (v.text pretty) := by
  cases pretty with
  | false => exact lexed_compact h
  | true => exact lexed_pretty h 0

end Json

end IrView
