/-!
# Texts

White space, lines, columns and what occurs where in a text. Widths count characters. A text that
is wider than its column is never cut.
-/

namespace IrView

namespace Text

/-! ### White space -/

/-- The characters with the Unicode property `White_Space`. -/
def isBlank (c : Char) : Bool :=
  (9 ≤ c.val && c.val ≤ 13) || c.val == 0x20 || c.val == 0x85 || c.val == 0xA0 ||
    c.val == 0x1680 || (0x2000 ≤ c.val && c.val ≤ 0x200A) || c.val == 0x2028 ||
    c.val == 0x2029 || c.val == 0x202F || c.val == 0x205F || c.val == 0x3000

/-- A list of characters without the blanks at its end. -/
def dropBlankEnd (cs : List Char) : List Char :=
  (cs.reverse.dropWhile isBlank).reverse

/-- The text without the blanks at its end. -/
def trimEnd (s : String) : String :=
  String.ofList (dropBlankEnd s.toList)

/-- The text without the blanks at either end. -/
def trim (s : String) : String :=
  String.ofList (dropBlankEnd (s.toList.dropWhile isBlank))

/-! ### Lines -/

/-- The parts of the text between its line feeds; one more than there are line feeds. -/
def lines (s : String) : List String :=
  (s.toList.splitOn '\n').map String.ofList

/-- The non-empty lines of the text, joined into one line by a bar. -/
def fold (s : String) : String :=
  " | ".intercalate ((lines s).filter fun l => !l.isEmpty)

/-- The characters before the first line feed, without a carriage return directly before it. -/
def firstLine : List Char → List Char
  | [] => []
  | '\n' :: _ => []
  | '\r' :: '\n' :: _ => []
  | c :: cs => c :: firstLine cs

/-- The first line of the text. -/
def first (s : String) : String :=
  String.ofList (firstLine s.toList)

/-! ### Columns -/

/-- The text, moved to the right end of a column of width `w`. -/
def alignRight (w : Nat) (s : String) : String :=
  String.ofList (List.replicate (w - s.length) ' ') ++ s

/-- The text, at the left end of a column of width `w`. -/
def alignLeft (w : Nat) (s : String) : String :=
  s ++ String.ofList (List.replicate (w - s.length) ' ')

/-- The digits of `n`, with zeros in front up to a total of `w` characters. -/
def zeroPadNat (w n : Nat) : String :=
  String.ofList (List.replicate (w - (toString n).length) '0') ++ toString n

/-- The decimal text of `i` with zeros between sign and digits, up to a total of `w`
characters. -/
def zeroPad (w : Nat) (i : Int) : String :=
  if i < 0 then "-" ++ zeroPadNat (w - 1) i.natAbs else zeroPadNat w i.natAbs

/-! ### Occurrences -/

/-- Whether `needle` is a contiguous part of the list. -/
def occursIn (needle : List Char) : List Char → Bool
  | [] => needle.isEmpty
  | c :: cs => needle.isPrefixOf (c :: cs) || occursIn needle cs

theorem occursIn_iff {needle cs : List Char} : occursIn needle cs = true ↔ needle <:+: cs := by
  induction cs with
  | nil => simp [occursIn]
  | cons c cs ih => simp [occursIn, ih, List.infix_cons_iff]

/-- Whether `needle` is a contiguous part of the text. -/
def contains (s needle : String) : Bool :=
  occursIn needle.toList s.toList

/-- What stands before the last occurrence of `mark`, if it occurs. -/
def beforeLast? (mark : List Char) : List Char → Option (List Char)
  | [] => if mark.isEmpty then some [] else none
  | c :: cs =>
    match beforeLast? mark cs with
    | some front => some (c :: front)
    | none => if mark.isPrefixOf (c :: cs) then some [] else none

/-- The parts before and after the last occurrence of the character `mark`, if it occurs. -/
def splitAtLast? (mark : Char) : List Char → Option (List Char × List Char)
  | [] => none
  | c :: cs =>
    match splitAtLast? mark cs with
    | some (front, back) => some (c :: front, back)
    | none => if c = mark then some ([], cs) else none

/-- What stands after the first occurrence of the character `mark`, if it occurs. -/
def afterFirst? (mark : Char) : List Char → Option (List Char)
  | [] => none
  | c :: cs => if c = mark then some cs else afterFirst? mark cs

/-- What stands after the first occurrence of `mark`, or everything when it does not occur. -/
def afterFirst (mark : Char) (s : String) : String :=
  match afterFirst? mark s.toList with
  | some rest => String.ofList rest
  | none => s

end Text

end IrView
