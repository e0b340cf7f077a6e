import IrView.Json.Value

/-!
# The double of a number literal

A literal is read as a significand and a power of ten. The significand takes the digits in order,
as long as it fits an unsigned 64-bit word; digits behind the first one that does not fit only move
the power of ten, and behind the point they are passed over. Significand and power are each rounded
to a double and then combined by one multiplication or division, or by several divisions when the
power is below every double.
-/

namespace IrView

namespace Json

/-- A significand, a power of ten, and whether all digits so far have fit. -/
structure Scaled where
  significand : Nat
  exponent : Int
  fits : Bool

/-- Takes a digit before the point. -/
def Scaled.pushWhole (s : Scaled) (digit : Nat) : Scaled :=
  if s.fits && 10 * s.significand + digit < Nat.pow 2 64 then
    { s with significand := 10 * s.significand + digit }
  else { s with exponent := s.exponent + 1, fits := false }

/-- Takes a digit behind the point. -/
def Scaled.pushFraction (s : Scaled) (digit : Nat) : Scaled :=
  if s.fits && 10 * s.significand + digit < Nat.pow 2 64 then
    { s with significand := 10 * s.significand + digit, exponent := s.exponent - 1 }
  else { s with fits := false }

/-- The decimal digits of a number, most significant first. -/
def digits (n : Nat) : List Nat :=
  (Nat.toDigits 10 n).map fun c => c.toNat - '0'.toNat

/-- The significand and power of ten of the digits of a literal. -/
def Number.scaled (n : Number) : Scaled :=
  let whole := (digits n.whole).foldl Scaled.pushWhole ⟨0, 0, true⟩
  n.fraction.foldl Scaled.pushFraction { whole with fits := true }

/-- The double nearest to a power of ten. -/
def powerOfTen (k : Nat) : Float :=
  Float.ofScientific 1 false k

/-- The double `f * 10 ^ e`, unless it is too large. -/
def scale (f : Float) (e : Int) : Option Float :=
  if 0 ≤ e then
    if e ≤ 308 then
      let product := f * powerOfTen e.toNat
      if product.isInf then none else some product
    else if f == 0 then some f
    else none
  else if -308 ≤ e then some (f / powerOfTen (-e).toNat)
  else if f == 0 then some f
  else scale (f / powerOfTen 308) (e + 308)
  termination_by (-e).toNat
  decreasing_by omega

/-- The double without its sign, unless it is too large. An exponent beyond the range of a signed
32-bit word makes every number but zero too large or zero. -/
def Number.magnitude? (n : Number) : Option Float :=
  let s := n.scaled
  let exponent := n.exponent.getD 0
  if exponent.natAbs < Nat.pow 2 31 then scale (Float.ofNat s.significand) (s.exponent + exponent)
  else if 0 < exponent && s.significand != 0 then none
  else some 0

/-- The double of a literal, unless it is too large. -/
def Number.toFloat? (n : Number) : Option Float :=
  n.magnitude?.map fun f => if n.negative then -f else f

end Json

end IrView
