import Mathlib.Data.List.Basic
import IrView.Render.Dot

/-!
# Quoted values

A value is quoted by three replacements, one after the other. In their order none of them replaces
what an earlier one wrote, so they quote each character by itself (`Dot.toList_escape`). A quoted
value is closed by the quote behind it and by none inside (`Dot.closed_escape`), and it can be read
back (`Dot.unescape_escape`).
-/

namespace IrView

namespace Dot

/-! ### Reading values -/

/-- What stands before the quote that closes a value, and what stands behind that quote. A backslash
belongs to the character behind it, so a quote behind a backslash closes nothing. -/
def closing? : List Char → Option (List Char × List Char)
  | [] => none
  | '"' :: rest => some ([], rest)
  | '\\' :: c :: rest => (closing? rest).map fun (raw, behind) => ('\\' :: c :: raw, behind)
  | c :: rest => (closing? rest).map fun (raw, behind) => (c :: raw, behind)

/-- A text that can stand between quotes: it keeps to its line, and whatever stands behind it, the
quote behind it closes it. -/
def Closed (raw : String) : Prop :=
  '\n' ∉ raw.toList ∧
    ∀ behind, closing? (raw.toList ++ '"' :: behind) = some (raw.toList, behind)

/-- What quoted characters say. -/
def unescapeChars : List Char → List Char
  | [] => []
  | '\\' :: 'n' :: rest => '\n' :: unescapeChars rest
  | '\\' :: c :: rest => c :: unescapeChars rest
  | c :: rest => c :: unescapeChars rest

/-- What a quoted value says. -/
def unescape (raw : String) : String :=
  String.ofList (unescapeChars raw.toList)

/-! ### Characters of values -/

/-- A character inside a quoted value. -/
def escapeChar (c : Char) : List Char :=
  if c = '\\' then ['\\', '\\']
  else if c = '"' then ['\\', '"']
  else if c = '\n' then ['\\', 'n']
  else [c]

theorem toList_escape (value : String) :
    (escape value).toList = value.toList.flatMap escapeChar := by
  rw [escape, String.toList_ofList, replace, replace, replace, List.flatMap_assoc,
    List.flatMap_assoc]
  refine congrArg (List.flatMap · _) (funext fun c => ?_)
  by_cases hbackslash : c = '\\'
  · subst hbackslash
    rfl
  by_cases hquote : c = '"'
  · subst hquote
    rfl
  simp [escapeChar, hbackslash, hquote]

theorem escapeChar_cases (c : Char) :
    c = '\\' ∧ escapeChar c = ['\\', '\\'] ∨ c = '"' ∧ escapeChar c = ['\\', '"'] ∨
      c = '\n' ∧ escapeChar c = ['\\', 'n'] ∨
      c ≠ '\\' ∧ c ≠ '"' ∧ c ≠ '\n' ∧ escapeChar c = [c] := by
  unfold escapeChar
  split_ifs <;> simp_all

theorem lineFeed_notMem_escape (value : String) : '\n' ∉ (escape value).toList := by
  rw [toList_escape, List.mem_flatMap]
  rintro ⟨c, -, hc⟩
  obtain ⟨-, h⟩ | ⟨-, h⟩ | ⟨-, h⟩ | ⟨-, -, hne, h⟩ := escapeChar_cases c
  · simp [h] at hc
  · simp [h] at hc
  · simp [h] at hc
  · rw [h, List.mem_singleton] at hc
    exact hne hc.symm

theorem closing?_escapeChar (c : Char) (rest : List Char) :
    closing? (escapeChar c ++ rest) =
      (closing? rest).map fun (raw, behind) => (escapeChar c ++ raw, behind) := by
  obtain ⟨-, h⟩ | ⟨-, h⟩ | ⟨-, h⟩ | ⟨hbackslash, hquote, -, h⟩ := escapeChar_cases c
  · rw [h]
    rfl
  · rw [h]
    rfl
  · rw [h]
    rfl
  · rw [h]
    simp [closing?, hbackslash]

theorem closing?_escape (value : String) (behind : List Char) :
    closing? ((escape value).toList ++ '"' :: behind) = some ((escape value).toList, behind) := by
  rw [toList_escape]
  induction value.toList with
  | nil => rfl
  | cons c cs ih =>
    rw [List.flatMap_cons, List.append_assoc, closing?_escapeChar, ih]
    rfl

/-- A quoted value is closed by the quote behind it. -/
theorem closed_escape (value : String) : Closed (escape value) :=
  ⟨lineFeed_notMem_escape value, closing?_escape value⟩

theorem unescapeChars_escapeChar (c : Char) (rest : List Char) :
    unescapeChars (escapeChar c ++ rest) = c :: unescapeChars rest := by
  obtain ⟨hc, h⟩ | ⟨hc, h⟩ | ⟨hc, h⟩ | ⟨hbackslash, -, -, h⟩ := escapeChar_cases c
  · rw [h, hc]
    rfl
  · rw [h, hc]
    rfl
  · rw [h, hc]
    rfl
  · rw [h]
    simp [unescapeChars, hbackslash]

/-- A quoted value says the value. -/
theorem unescape_escape (value : String) : unescape (escape value) = value := by
  have hchars : unescapeChars (value.toList.flatMap escapeChar) = value.toList := by
    induction value.toList with
    | nil => rfl
    | cons c cs ih => rw [List.flatMap_cons, unescapeChars_escapeChar, ih]
  rw [unescape, toList_escape, hchars, String.ofList_toList]

end Dot

end IrView
