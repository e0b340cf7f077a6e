import IrView.Number.Basic

/-!
# Dates and times in a configuration

No setting takes a date or a time, but one may stand where nothing is read, and then it must be
one of the calendar and the clock. A date may be followed by a time, and the two of them by an
offset from universal time. The readers here give the characters behind what they read.
-/

namespace IrView

namespace Toml

/-! ### Parts -/

/-- A number of two digits in a range, and the rest. -/
def readPair? (first last : Nat) : List Char → Option (Nat × List Char)
  | a :: b :: cs =>
    match Number.readDigits? [a, b] with
    | some n => if first ≤ n && n ≤ last then some (n, cs) else none
    | none => none
  | _ => none

/-- A number of four digits, and the rest. -/
def readYear? : List Char → Option (Nat × List Char)
  | a :: b :: c :: d :: cs => (Number.readDigits? [a, b, c, d]).map fun year => (year, cs)
  | _ => none

/-- The characters behind a mark. -/
def afterMark? (mark : Char) : List Char → Option (List Char)
  | c :: cs => if c = mark then some cs else none
  | [] => none

/-! ### Dates -/

/-- Whether the year has a leap day. -/
def isLeap (year : Nat) : Bool :=
  year % 4 == 0 && (year % 100 != 0 || year % 400 == 0)

/-- The number of days in a month. -/
def daysIn (year month : Nat) : Nat :=
  match month with
  | 2 => if isLeap year then 29 else 28
  | 4 | 6 | 9 | 11 => 30
  | _ => 31

/-- The characters behind a date. -/
def afterDate? (cs : List Char) : Option (List Char) := do
  let (year, cs) ← readYear? cs
  let cs ← afterMark? '-' cs
  let (month, cs) ← readPair? 1 12 cs
  let cs ← afterMark? '-' cs
  let (_, cs) ← readPair? 1 (daysIn year month) cs
  return cs

/-! ### Times -/

/-- The characters behind the fraction of a second, if there is one. -/
def skipFraction : List Char → List Char
  | '.' :: c :: cs => if c.isDigit then cs.dropWhile Char.isDigit else '.' :: c :: cs
  | cs => cs

/-- The characters behind a time of day; a minute may have a leap second. -/
def afterTime? (cs : List Char) : Option (List Char) := do
  let (_, cs) ← readPair? 0 23 cs
  let cs ← afterMark? ':' cs
  let (_, cs) ← readPair? 0 59 cs
  let cs ← afterMark? ':' cs
  let (_, cs) ← readPair? 0 60 cs
  return skipFraction cs

/-- The characters behind hours and minutes. -/
def afterHours? (cs : List Char) : Option (List Char) := do
  let (_, cs) ← readPair? 0 23 cs
  let cs ← afterMark? ':' cs
  let (_, cs) ← readPair? 0 59 cs
  return cs

/-- The characters behind an offset, if there is one. -/
def skipOffset (cs : List Char) : List Char :=
  match cs with
  | 'Z' :: rest | 'z' :: rest => rest
  | '+' :: rest | '-' :: rest => (afterHours? rest).getD cs
  | _ => cs

/-- The characters behind the time that belongs to a date, if there is one. -/
def skipTime (cs : List Char) : List Char :=
  match cs with
  | 'T' :: rest | 't' :: rest | ' ' :: rest => ((afterTime? rest).map skipOffset).getD cs
  | _ => cs

/-- The characters behind a date, a time, or both. -/
def afterMoment? (cs : List Char) : Option (List Char) :=
  ((afterDate? cs).map skipTime).or (afterTime? cs)

end Toml

end IrView
