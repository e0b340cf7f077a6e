/-!
# JSON values

A number keeps the parts of its literal, so that each reader decides what fits. A string literal
may spell something that is no text, such as half of a surrogate pair; its content is then
unknown. Members of an object keep their order, repeated keys included.
-/

namespace IrView

namespace Json

/-- A number literal: `-whole.fraction` with an exponent. -/
structure Number where
  negative : Bool
  whole : Nat
  /-- The digits behind the point; empty when the literal has no point. -/
  fraction : List Nat
  exponent : Option Int
  deriving DecidableEq, Repr

/-- The content of a string literal, unless it spells no text. -/
abbrev Content := Option String

/-- A JSON value. -/
inductive Value where
  | null
  | bool (b : Bool)
  | number (n : Number)
  | string (content : Content)
  | array (items : List Value)
  | object (members : List (Content × Value))
  deriving Repr

/-- The literal of a whole number. -/
def Number.ofInt (i : Int) : Number :=
  ⟨i < 0, i.natAbs, [], none⟩

/-- The value of a whole number. -/
def Value.ofInt (i : Int) : Value :=
  .number (.ofInt i)

/-- The value of a text. -/
def Value.ofString (s : String) : Value :=
  .string (some s)

/-- An object with the given members. -/
def Value.record (members : List (String × Value)) : Value :=
  .object (members.map fun (key, value) => (some key, value))

end Json

end IrView
