/-!
# Doubles and their texts

A finite double is a signed magnitude `m * 2 ^ e`. Everything that is printed about a double is
computed from this exact form, so no rounding happens before the digits are chosen. There are two
texts: one with a fixed number of places, and the shortest one that reads back.
-/

namespace IrView

namespace Number

/-! ### The exact value -/

/-- What a double denotes. -/
inductive Binary64 where
  | nan
  | infinite (negative : Bool)
  | finite (negative : Bool) (mantissa : Nat) (exponent : Int)
  deriving DecidableEq, Repr

/-- The double with the given bits. -/
def Binary64.ofBits (bits : UInt64) : Binary64 :=
  let negative := bits >>> 63 == 1
  let biased := ((bits >>> 52) &&& 0x7FF).toNat
  let fraction := (bits &&& 0xFFFFFFFFFFFFF).toNat
  if biased = 0x7FF then
    if fraction = 0 then .infinite negative else .nan
  else if biased = 0 then .finite negative fraction (-1074)
  else .finite negative (Nat.pow 2 52 + fraction) ((biased : Int) - 1075)

/-- The double as an exact value. -/
def Binary64.ofFloat (x : Float) : Binary64 :=
  .ofBits x.toBits

/-- The magnitude `m * 2 ^ e` as a fraction of two natural numbers. -/
def ratio (m : Nat) (e : Int) : Nat × Nat :=
  match e with
  | .ofNat k => (m * Nat.pow 2 k, 1)
  | .negSucc k => (m, Nat.pow 2 (k + 1))

/-! ### A fixed number of places

A number is rounded to a fixed number of decimal places from its exact binary value. A half goes
to the even neighbour. -/

/-- The natural number nearest to `num / den`; a half goes to the even neighbour. -/
def roundToEven (num den : Nat) : Nat :=
  let below := num / den
  let twice := 2 * (num % den)
  if twice < den then below
  else if den < twice then below + 1
  else if below % 2 = 0 then below
  else below + 1

/-- The magnitude `m * 2 ^ e` with `places` digits behind the point. -/
def fixedMagnitude (places m : Nat) (e : Int) : String :=
  let (num, den) := ratio m e
  let digits := toString (roundToEven (num * Nat.pow 10 places) den)
  let cs := List.replicate (places + 1 - digits.length) '0' ++ digits.toList
  let front := String.ofList (cs.take (cs.length - places))
  if places = 0 then front else front ++ "." ++ String.ofList (cs.drop (cs.length - places))

/-- A double with `places` digits behind the point. -/
def fixed (places : Nat) (x : Float) : String :=
  match Binary64.ofFloat x with
  | .nan => "NaN"
  | .infinite negative => if negative then "-inf" else "inf"
  | .finite negative m e =>
    if negative then "-" ++ fixedMagnitude places m e else fixedMagnitude places m e

/-! ### The shortest decimal that reads back

The numbers that round to a double `m * 2 ^ e` form an interval around it, whose ends belong to it
when `m` is even. Of the decimal grids `10 ^ g`, coarsest first, the first one with a point in the
interval gives the digits; the value's two neighbours on the grid are the only candidates, the
nearer one wins and a tie goes up. Seventeen digits always suffice.

The digits are then written out in full, without an exponent. -/

/-- A decimal `digits * 10 ^ exponent`. -/
structure Decimal where
  digits : Nat
  exponent : Int
  deriving DecidableEq, Repr

/-- The interval of numbers that round to a double, with a common denominator. -/
structure Rounding where
  low : Nat
  value : Nat
  high : Nat
  denominator : Nat
  /-- Whether the ends belong to the interval. -/
  closed : Bool
  deriving Repr

/-- The interval around `m * 2 ^ e`. Below a power of two the doubles lie twice as close, except
at the least exponent. -/
def Rounding.around (m : Nat) (e : Int) : Rounding :=
  let quarter := ratio 1 (e - 2)
  { low := quarter.1 * (if m = Nat.pow 2 52 ∧ e > -1074 then 4 * m - 1 else 4 * m - 2)
    value := quarter.1 * (4 * m)
    high := quarter.1 * (4 * m + 2)
    denominator := quarter.2
    closed := m % 2 = 0 }

/-- Whether `digits * 10 ^ g` lies in the interval. -/
def Rounding.admits (r : Rounding) (digits : Nat) (g : Int) : Bool :=
  let (point, unit) := match g with
    | .ofNat k => (digits * Nat.pow 10 k * r.denominator, 1)
    | .negSucc k => (digits * r.denominator, Nat.pow 10 (k + 1))
  if r.closed then r.low * unit ≤ point && point ≤ r.high * unit
  else r.low * unit < point && point < r.high * unit

/-- The number of decimal digits before the point of a value of at least one; one minus the
number of zeros behind the point of a smaller value. -/
def Rounding.magnitude (r : Rounding) : Int :=
  if r.value ≥ r.denominator then (toString (r.value / r.denominator)).length
  else 1 - ((toString ((r.denominator - 1) / r.value)).length : Int)

/-- The point of the grid `10 ^ g` that the interval admits: the nearer neighbour of the value, or
the only one. -/
def Rounding.onGrid? (r : Rounding) (g : Int) : Option Decimal :=
  let (num, den) := match g with
    | .ofNat k => (r.value, r.denominator * Nat.pow 10 k)
    | .negSucc k => (r.value * Nat.pow 10 (k + 1), r.denominator)
  let below := num / den
  let nearerAbove := den ≤ 2 * (num % den)
  match r.admits below g, r.admits (below + 1) g with
  | true, true => some ⟨if nearerAbove then below + 1 else below, g⟩
  | true, false => some ⟨below, g⟩
  | false, true => some ⟨below + 1, g⟩
  | false, false => none

/-- The shortest decimal in the interval of the positive double `m * 2 ^ e`, and of those the
nearest. -/
def shortest (m : Nat) (e : Int) : Decimal :=
  let r := Rounding.around m e
  let grids := (List.range 18).map fun (n : Nat) => r.magnitude - (n : Int)
  (grids.findSome? r.onGrid?).getD ⟨0, 0⟩

/-- A decimal written out in full, without an exponent. -/
def Decimal.positional (d : Decimal) : String :=
  let digits := toString d.digits
  match d.exponent with
  | .ofNat k => digits ++ String.ofList (List.replicate k '0')
  | .negSucc k =>
    let places := k + 1
    let padded := String.ofList (List.replicate (places + 1 - digits.length) '0') ++ digits
    let cs := padded.toList
    String.ofList (cs.take (cs.length - places)) ++ "." ++
      String.ofList (cs.drop (cs.length - places))

/-- The text of a double: the shortest digits that read back, never with an exponent. -/
def text (x : Float) : String :=
  match Binary64.ofFloat x with
  | .nan => "NaN"
  | .infinite negative => if negative then "-inf" else "inf"
  | .finite negative m e =>
    let magnitude := if m = 0 then "0" else (shortest m e).positional
    if negative then "-" ++ magnitude else magnitude

/-- The value as a whole number, when it is one. -/
def whole? (x : Float) : Option Int :=
  match Binary64.ofFloat x with
  | .finite negative m e =>
    let (num, den) := ratio m e
    if num % den = 0 then
      some (if negative then -((num / den : Nat) : Int) else ((num / den : Nat) : Int))
    else none
  | _ => none

end Number

end IrView
