import IrView.Proofs.Text.Decimal
import IrView.Render.Dot

/-!
# Names in DOT

DOT takes a name without quotes if it is an identifier or a numeral and no keyword. Names of nodes
and boxes are always such names (`Dot.isLegal_nodeName`, `Dot.isLegal_clusterName`); the name of a
graph is one just if it does not begin with a digit in front of something else, is not empty and no
keyword (`Dot.isLegal_sanitize_iff`). Different ids give nodes different names: the name tells the
id (`Dot.idOf?_nodeName`).
-/

namespace IrView

namespace Dot

/-! ### Legal names -/

/-- A letter, a digit or an underscore. -/
def isWordChar (c : Char) : Bool :=
  c.isAlphanum || c == '_'

/-- The words that DOT keeps for itself, however they are capitalized. -/
def keywords : List String :=
  ["node", "edge", "graph", "digraph", "subgraph", "strict"]

/-- Whether the characters are a letter or an underscore and then letters, digits and
underscores. -/
def isIdentifier : List Char → Bool
  | [] => false
  | c :: cs => (c.isAlpha || c == '_') && cs.all isWordChar

/-- Whether the characters are one or more digits. -/
def isNumeral (cs : List Char) : Bool :=
  !cs.isEmpty && cs.all Char.isDigit

/-- Whether DOT takes the name without quotes. -/
def isLegal (name : String) : Bool :=
  (isIdentifier name.toList || isNumeral name.toList) && !keywords.contains name.toLower

theorem isAlpha_of_mem_keyword {word : String} (h : word ∈ keywords) {c : Char}
    (hc : c ∈ word.toList) : c.isAlpha = true := by
  have hall : keywords.all (fun word => word.toList.all Char.isAlpha) = true := by decide
  exact List.all_eq_true.1 (List.all_eq_true.1 hall word h) c hc

theorem isAlpha_of_toLower {c : Char} (h : c.toLower.isAlpha = true) : c.isAlpha = true := by
  unfold Char.toLower at h
  split at h
  case isTrue hupper =>
    show (c.isUpper || c.isLower) = true
    rw [Bool.or_eq_true]
    exact Or.inl (decide_eq_true hupper)
  case isFalse => exact h

/-- However it is capitalized, a keyword has letters only. -/
theorem isAlpha_of_mem {name : String} (h : name.toLower ∈ keywords) {c : Char}
    (hc : c ∈ name.toList) : c.isAlpha = true := by
  have hmem : c.toLower ∈ name.toLower.toList := by
    show c.toLower ∈ (name.map Char.toLower).toList
    rw [String.toList_map]
    exact List.mem_map_of_mem hc
  exact isAlpha_of_toLower (isAlpha_of_mem_keyword h hmem)

/-- An identifier with a character that is no letter is legal. -/
theorem isLegal_of_isIdentifier {name : String} (h : isIdentifier name.toList = true) {c : Char}
    (hc : c ∈ name.toList) (hletter : c.isAlpha = false) : isLegal name = true := by
  have hkeyword : name.toLower ∉ keywords := by
    intro hmem
    rw [isAlpha_of_mem hmem hc] at hletter
    cases hletter
  simp [isLegal, h, hkeyword]

/-! ### Sanitized names -/

/-- A character of a sanitized name. -/
def sanitizeChar (c : Char) : Char :=
  if c.isAlphanum then c else '_'

theorem toList_sanitize (name : String) :
    (sanitize name).toList = name.toList.map sanitizeChar := by
  rw [sanitize, String.toList_ofList]
  rfl

theorem isWordChar_sanitizeChar (c : Char) : isWordChar (sanitizeChar c) = true := by
  unfold sanitizeChar isWordChar
  split_ifs with h
  · simp [h]
  · rfl

theorem sanitize_eq_self {name : String} (h : ∀ c ∈ name.toList, c.isAlphanum = true) :
    sanitize name = name := by
  refine String.toList_injective ?_
  rw [toList_sanitize]
  exact (List.map_congr_left fun c hc => if_pos (h c hc)).trans (List.map_id' _)

theorem isDigit_sanitizeChar (c : Char) : (sanitizeChar c).isDigit = c.isDigit := by
  unfold sanitizeChar
  split_ifs with h
  · rfl
  · have hdigit : c.isDigit = false := by simp_all [Char.isAlphanum]
    rw [hdigit]
    rfl

theorem isAlpha_eq_false_of_isDigit {c : Char} (h : c.isDigit = true) : c.isAlpha = false := by
  show (decide ('A'.val ≤ c.val ∧ c.val ≤ 'Z'.val) ||
    decide ('a'.val ≤ c.val) && decide (c.val ≤ 'z'.val)) = false
  simp only [Char.isDigit, ge_iff_le, UInt32.le_iff_toNat_le, Bool.and_eq_true, decide_eq_true_eq,
    Bool.or_eq_false_iff, Bool.and_eq_false_iff, decide_eq_false_iff_not] at h ⊢
  have h9 : '9'.val.toNat = 57 := rfl
  have hA : 'A'.val.toNat = 65 := rfl
  have ha : 'a'.val.toNat = 97 := rfl
  omega

/-- A sanitized character may begin an identifier unless it is a digit. -/
theorem begins_sanitizeChar (c : Char) :
    ((sanitizeChar c).isAlpha || sanitizeChar c == '_') = !c.isDigit := by
  by_cases hdigit : c.isDigit = true
  · have hne : c ≠ '_' := by
      rintro rfl
      cases hdigit
    simp [sanitizeChar, Char.isAlphanum, hdigit, isAlpha_eq_false_of_isDigit hdigit, hne]
  · by_cases hletter : c.isAlpha = true
    · simp [sanitizeChar, Char.isAlphanum, hdigit, hletter]
    · simp [sanitizeChar, Char.isAlphanum, hdigit, hletter]

theorem isIdentifier_sanitize (c : Char) (cs : List Char) :
    isIdentifier ((c :: cs).map sanitizeChar) = !c.isDigit := by
  have hall : (cs.map sanitizeChar).all isWordChar = true := by
    simp [isWordChar_sanitizeChar]
  rw [List.map_cons, isIdentifier, hall, Bool.and_true, begins_sanitizeChar]

theorem isNumeral_sanitize (cs : List Char) : isNumeral (cs.map sanitizeChar) = isNumeral cs := by
  simp [isNumeral, isDigit_sanitizeChar, Function.comp_def]

/-- Sanitizing makes no keyword of a name that is none. -/
theorem toLower_sanitize_mem_keywords_iff {name : String} :
    (sanitize name).toLower ∈ keywords ↔ name.toLower ∈ keywords := by
  have hsame : (∀ c ∈ name.toList, (sanitizeChar c).isAlpha = true) → sanitize name = name := by
    intro h
    refine sanitize_eq_self fun c hc => ?_
    by_contra hother
    have := h c hc
    rw [sanitizeChar, if_neg hother] at this
    cases this
  constructor
  · intro h
    rwa [hsame fun c hc => isAlpha_of_mem h (toList_sanitize name ▸ List.mem_map_of_mem hc)] at h
  · intro h
    have hletter : ∀ c ∈ name.toList, (sanitizeChar c).isAlpha = true := by
      intro c hc
      have hc : c.isAlpha = true := isAlpha_of_mem h hc
      rwa [sanitizeChar, if_pos (by simp [Char.isAlphanum, hc])]
    rwa [hsame hletter]

/-- **A sanitized name is legal** just if the name is not empty, does not begin with a digit in
front of something that is no digit, and is no keyword. -/
theorem isLegal_sanitize_iff {name : String} : isLegal (sanitize name) = true ↔
    (∃ c cs, name.toList = c :: cs ∧ (c.isDigit = true → ∀ d ∈ cs, d.isDigit = true)) ∧
      name.toLower ∉ keywords := by
  rw [isLegal, Bool.and_eq_true, Bool.not_eq_true', toList_sanitize, isNumeral_sanitize,
    List.contains_eq_mem, decide_eq_false_iff_not, toLower_sanitize_mem_keywords_iff]
  refine and_congr_left' ?_
  cases hname : name.toList with
  | nil => simp [isIdentifier, isNumeral]
  | cons c cs =>
    rw [isIdentifier_sanitize, isNumeral]
    by_cases hdigit : c.isDigit = true
    · simp [hdigit]
    · simp [hdigit]

/-! ### Names of nodes and boxes -/

theorem isAlphanum_of_isDigit {c : Char} (h : c.isDigit = true) : c.isAlphanum = true := by
  simp [Char.isAlphanum, h]

/-- A sanitized decimal text still tells the number: its minus sign became an underscore. -/
def restore (name : String) : String :=
  String.ofList (name.toList.map fun c => if c = '_' then '-' else c)

theorem restore_sanitize_toString (i : Int) : restore (sanitize (toString i)) = toString i := by
  refine String.toList_injective ?_
  rw [restore, String.toList_ofList, toList_sanitize, List.map_map]
  refine (List.map_congr_left fun c hc => ?_).trans (List.map_id' _)
  obtain hdigit | rfl := Text.isDigit_or_eq_minus hc
  · have hne : c ≠ '_' := by
      rintro rfl
      cases hdigit
    simp [sanitizeChar, isAlphanum_of_isDigit hdigit, hne]
  · rfl

theorem sanitize_toString_injective : Function.Injective fun i : Int => sanitize (toString i) := by
  intro i j h
  have hrestored : restore (sanitize (toString i)) = restore (sanitize (toString j)) :=
    congrArg restore h
  rw [restore_sanitize_toString, restore_sanitize_toString] at hrestored
  have hread := congrArg String.toInt? hrestored
  rwa [Text.toInt?_toString, Text.toInt?_toString, Option.some_inj] at hread

theorem toList_nodeName (id : NodeId) :
    (nodeName id).toList = 'n' :: (sanitize (toString id)).toList := by
  rw [nodeName, toList_sanitize, toList_sanitize, String.toList_append, List.map_append]
  rfl

/-- The id that a name of a node tells. -/
def idOf? (name : String) : Option NodeId :=
  match name.toList with
  | 'n' :: cs => (restore (String.ofList cs)).toInt?
  | _ => none

theorem idOf?_nodeName (id : NodeId) : idOf? (nodeName id) = some id := by
  rw [idOf?, toList_nodeName]
  show (restore (String.ofList (sanitize (toString id)).toList)).toInt? = some id
  rw [String.ofList_toList, restore_sanitize_toString, Text.toInt?_toString]

theorem nodeName_injective : Function.Injective nodeName := by
  intro id id' h
  have hread := congrArg idOf? h
  rwa [idOf?_nodeName, idOf?_nodeName, Option.some_inj] at hread

theorem isWordChar_of_mem_sanitize {name : String} {c : Char} (h : c ∈ (sanitize name).toList) :
    isWordChar c = true := by
  rw [toList_sanitize] at h
  obtain ⟨d, -, rfl⟩ := List.mem_map.1 h
  exact isWordChar_sanitizeChar d

theorem isLegal_clusterName (container : String) : isLegal (clusterName container) = true := by
  have hchars : (clusterName container).toList = "cluster_".toList ++ (sanitize container).toList :=
    String.toList_append
  have hword : ∀ c ∈ (sanitize container).toList, isWordChar c = true :=
    fun _ => isWordChar_of_mem_sanitize
  refine isLegal_of_isIdentifier (c := '_') ?_ ?_ rfl
  · rw [hchars]
    simpa [isIdentifier, isWordChar] using hword
  · rw [hchars]
    simp

/-- The decimal text of an id has a digit or a minus sign, so its name is no keyword. -/
theorem isLegal_nodeName (id : NodeId) : isLegal (nodeName id) = true := by
  obtain ⟨c, hc⟩ := List.exists_mem_of_ne_nil _ (Text.toList_toString_ne_nil id)
  have hword : ∀ d ∈ (sanitize (toString id)).toList, isWordChar d = true :=
    fun _ => isWordChar_of_mem_sanitize
  refine isLegal_of_isIdentifier (c := sanitizeChar c) ?_ ?_ ?_
  · rw [toList_nodeName]
    simpa [isIdentifier] using hword
  · rw [toList_nodeName, toList_sanitize]
    exact List.mem_cons_of_mem _ (List.mem_map_of_mem hc)
  · obtain hdigit | rfl := Text.isDigit_or_eq_minus hc
    · rw [sanitizeChar, if_pos (isAlphanum_of_isDigit hdigit)]
      exact isAlpha_eq_false_of_isDigit hdigit
    · rfl

end Dot

end IrView
