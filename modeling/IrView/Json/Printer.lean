import IrView.Json.Value

/-!
# Writing JSON

A value is written on one line without spaces, or over several lines with two spaces of
indentation for each level. A string is written as it is, apart from the quote, the backslash and
the control characters below the space.
-/

namespace IrView

namespace Json

/-! ### Scalars -/

/-- The four hexadecimal digits of a code below the space. -/
def controlEscape (c : Char) : List Char :=
  let digits := Nat.toDigits 16 c.toNat
  ['\\', 'u'] ++ List.replicate (4 - digits.length) '0' ++ digits

/-- A character inside a string literal. -/
def escapeChar (c : Char) : List Char :=
  match c with
  | '"' => ['\\', '"']
  | '\\' => ['\\', '\\']
  | '\n' => ['\\', 'n']
  | '\r' => ['\\', 'r']
  | '\t' => ['\\', 't']
  | '\x08' => ['\\', 'b']
  | '\x0c' => ['\\', 'f']
  | c => if c.val < 0x20 then controlEscape c else [c]

/-- The string literal of a text. -/
def quote (s : String) : String :=
  "\"" ++ String.ofList (s.toList.flatMap escapeChar) ++ "\""

/-- A string literal; unknown content is written as a replacement character. -/
def contentText (content : Content) : String :=
  quote (content.getD "\ufffd")

/-- A number literal. -/
def Number.text (n : Number) : String :=
  let fraction := if n.fraction.isEmpty then "" else
    "." ++ String.join (n.fraction.map toString)
  let exponent := match n.exponent with
    | some e => "e" ++ toString e
    | none => ""
  (if n.negative then "-" else "") ++ toString n.whole ++ fraction ++ exponent

/-! ### On one line -/

mutual

/-- The value on one line. -/
def Value.compact : Value → String
  | .null => "null"
  | .bool b => if b then "true" else "false"
  | .number n => n.text
  | .string content => contentText content
  | .array items => "[" ++ ",".intercalate (compactItems items) ++ "]"
  | .object members => "\x7b" ++ ",".intercalate (compactMembers members) ++ "\x7d"

/-- The items of an array, each on one line. -/
def compactItems : List Value → List String
  | [] => []
  | v :: vs => v.compact :: compactItems vs

/-- The members of an object, each on one line. -/
def compactMembers : List (Content × Value) → List String
  | [] => []
  | (key, v) :: ms => (contentText key ++ ":" ++ v.compact) :: compactMembers ms

end

/-! ### Over several lines -/

/-- A line break and the indentation of a level. -/
def newline (level : Nat) : String :=
  "\n" ++ String.ofList (List.replicate (2 * level) ' ')

/-- Parts between brackets, each on a line of its own one level further in. -/
def block (level : Nat) (first last : String) (parts : List String) : String :=
  if parts.isEmpty then first ++ last
  else first ++ newline (level + 1) ++ ("," ++ newline (level + 1)).intercalate parts ++
    newline level ++ last

mutual

/-- The value over several lines, inside `level` levels. -/
def Value.pretty (level : Nat) : Value → String
  | .null => "null"
  | .bool b => if b then "true" else "false"
  | .number n => n.text
  | .string content => contentText content
  | .array items => block level "[" "]" (prettyItems (level + 1) items)
  | .object members => block level "\x7b" "\x7d" (prettyMembers (level + 1) members)

/-- The items of an array. -/
def prettyItems (level : Nat) : List Value → List String
  | [] => []
  | v :: vs => v.pretty level :: prettyItems level vs

/-- The members of an object. -/
def prettyMembers (level : Nat) : List (Content × Value) → List String
  | [] => []
  | (key, v) :: ms => (contentText key ++ ": " ++ v.pretty level) :: prettyMembers level ms

end

/-- The text of a value, over several lines or on one. -/
def Value.text (pretty : Bool) (v : Value) : String :=
  if pretty then v.pretty 0 else v.compact

end Json

end IrView
