import IrView.Json.Token
import IrView.Number.Basic

/-!
# Numbers in a configuration

No setting takes a number, but a number may stand where nothing is read, and then it must be well
formed and in range: a whole number fits a signed 64-bit word, and a decimal one does not round to
positive infinity. The readers here give the characters behind a number.
-/

namespace IrView

namespace Toml

/-! ### Digits -/

/-- The digits behind a first one, without the single underscores between them, and the rest. -/
def readMoreDigits? (isDigit : Char → Bool) : List Char → Option (List Char × List Char)
  | '_' :: c :: cs =>
    if isDigit c then (readMoreDigits? isDigit cs).map fun (ds, rest) => (c :: ds, rest) else none
  | ['_'] => none
  | c :: cs =>
    if isDigit c then (readMoreDigits? isDigit cs).map fun (ds, rest) => (c :: ds, rest)
    else some ([], c :: cs)
  | [] => some ([], [])

/-- A non-empty run of digits, without the underscores, and the rest. -/
def readDigits? (isDigit : Char → Bool) : List Char → Option (List Char × List Char)
  | c :: cs =>
    if isDigit c then (readMoreDigits? isDigit cs).map fun (ds, rest) => (c :: ds, rest) else none
  | [] => none

/-- The digits before the point, and the rest: a zero in front is the only digit. -/
def readWhole? : List Char → Option (List Char × List Char)
  | '0' :: cs => some (['0'], cs)
  | cs => readDigits? Char.isDigit cs

/-- The digits behind a point, if one comes next, and the rest. -/
def readFraction? : List Char → Option (List Char × List Char)
  | '.' :: cs => readDigits? Char.isDigit cs
  | cs => some ([], cs)

/-- Whether a minus comes next, and the characters behind the sign. -/
def readSign : List Char → Bool × List Char
  | '-' :: cs => (true, cs)
  | '+' :: cs => (false, cs)
  | cs => (false, cs)

/-- The number that digits spell. -/
def valueOf (digits : List Char) : Nat :=
  Nat.ofDigitChars 10 digits 0

/-- The exponent, if one comes next, and the rest. -/
def readExponent? : List Char → Option (Option Int × List Char)
  | 'e' :: cs | 'E' :: cs =>
    let (negative, cs) := readSign cs
    (readDigits? Char.isDigit cs).map fun (ds, rest) =>
      (some (if negative then -(valueOf ds : Int) else valueOf ds), rest)
  | cs => some (none, cs)

/-! ### Ranges -/

/-- Whether `digits * 10 ^ exponent` is too large for a double: whether it reaches the number half
way between the greatest double and the next power of two. A number of another length than that
one is decided by its length. -/
def overflows (digits : List Char) (exponent : Int) : Bool :=
  let digits := digits.dropWhile (· == '0')
  let length := digits.length + exponent
  if digits.isEmpty || length < 309 then false
  else if 309 < length then true
  else
    let limit := (Nat.pow 2 54 - 1) * Nat.pow 2 970
    match exponent with
    | .ofNat k => limit ≤ valueOf digits * Nat.pow 10 k
    | .negSucc k => limit * Nat.pow 10 (k + 1) ≤ valueOf digits

/-- Whether the digit belongs to base eight. -/
def isOctal (c : Char) : Bool :=
  '0' ≤ c && c ≤ '7'

/-- Whether the digit belongs to base two. -/
def isBinary (c : Char) : Bool :=
  c == '0' || c == '1'

/-! ### Numbers -/

/-- The characters behind a whole number in another base than ten. -/
def afterBased? (base : Nat) (isDigit : Char → Bool) (cs : List Char) : Option (List Char) :=
  match readDigits? isDigit cs with
  | some (ds, rest) =>
    let value := (ds.filterMap Json.hexDigit?).foldl (fun n d => base * n + d) 0
    if Number.fitsWord value then some rest else none
  | none => none

/-- The characters behind a number in base ten without its sign. -/
def afterDecimal? (negative : Bool) (cs : List Char) : Option (List Char) := do
  let (whole, cs) ← readWhole? cs
  let (fraction, cs) ← readFraction? cs
  let (exponent, cs) ← readExponent? cs
  if fraction.isEmpty && exponent.isNone then
    let value : Int := if negative then -(valueOf whole : Int) else valueOf whole
    if Number.fitsWord value then some cs else none
  else if !negative && overflows (whole ++ fraction) (exponent.getD 0 - fraction.length) then none
  else some cs

/-- The characters behind a number. -/
def afterNumber? : List Char → Option (List Char)
  | '0' :: 'x' :: cs => afterBased? 16 (fun c => (Json.hexDigit? c).isSome) cs
  | '0' :: 'o' :: cs => afterBased? 8 isOctal cs
  | '0' :: 'b' :: cs => afterBased? 2 isBinary cs
  | cs =>
    match readSign cs with
    | (_, 'i' :: 'n' :: 'f' :: rest) => some rest
    | (_, 'n' :: 'a' :: 'n' :: rest) => some rest
    | (negative, rest) => afterDecimal? negative rest

end Toml

end IrView
