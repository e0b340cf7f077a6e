import IrView.Json.Float
import IrView.Number.Basic

/-!
# Records in JSON

A record is written as an object or, by position, as an array. In an object a field of the record
may stand once, in any place, and other members are passed over. In an array the fields stand in
the order of the record, and fields at the end may be missing if they have a default.
-/

namespace IrView

namespace Json

/-! ### Plain values -/

/-- The text of a string. -/
def Value.string? : Value → Option String
  | .string content => content
  | _ => none

/-- The truth value of `true` and `false`. -/
def Value.bool? : Value → Option Bool
  | .bool b => some b
  | _ => none

/-- The whole number of a literal without point and exponent that fits a signed 64-bit word. A
zero with a minus sign is no whole number. -/
def Number.int? (n : Number) : Option Int :=
  if n.fraction.isEmpty && n.exponent.isNone && !(n.negative && n.whole == 0) then
    let value : Int := if n.negative then -(n.whole : Int) else n.whole
    if Number.fitsWord value then some value else none
  else none

/-- The whole number that fits a signed 64-bit word. -/
def Value.int? : Value → Option Int
  | .number n => n.int?
  | _ => none

/-- The double of a number. -/
def Value.float? : Value → Option Float
  | .number n => n.toFloat?
  | _ => none

/-- The items of an array. -/
def Value.list? {α : Type} (read : Value → Option α) : Value → Option (List α)
  | .array items => items.mapM read
  | _ => none

/-- `null`, or what `read` accepts. -/
def Value.nullable? {α : Type} (read : Value → Option α) : Value → Option (Option α)
  | .null => some none
  | v => (read v).map some

/-! ### Fields -/

/-- The fields that a record was given. -/
structure Fields where
  /-- Whether they were given by position. -/
  positional : Bool
  given : List (String × Value)

/-- The fields of a record with the given field names. -/
def Value.fields? (names : List String) : Value → Option Fields
  | .object members => do
    let members ← members.mapM fun (key, value) => key.map fun key => (key, value)
    let given := members.filter fun (key, _) => names.contains key
    if (given.map Prod.fst).Nodup then some ⟨false, given⟩ else none
  | .array values => if values.length ≤ names.length then some ⟨true, names.zip values⟩ else none
  | _ => none

/-- The value given for a field. -/
def Fields.get? (fields : Fields) (name : String) : Option Value :=
  fields.given.lookup name

/-- A field that must be given. -/
def Fields.required {α : Type} (fields : Fields) (name : String) (read : Value → Option α) :
    Option α :=
  (fields.get? name).bind read

/-- A field with a default. -/
def Fields.getD {α : Type} (fields : Fields) (name : String) (default : α)
    (read : Value → Option α) : Option α :=
  match fields.get? name with
  | some v => read v
  | none => some default

/-- A field that may be `null`, and may be missing unless fields are given by position. -/
def Fields.optional {α : Type} (fields : Fields) (name : String) (read : Value → Option α) :
    Option (Option α) :=
  if fields.positional then fields.required name (Value.nullable? read)
  else fields.getD name none (Value.nullable? read)

end Json

end IrView
