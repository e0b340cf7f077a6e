import IrView.Json.Reader

/-!
# The grammar of JSON

A value has one sequence of tokens (`Value.tokens`), and a token may be spelled in several ways
(`TokenText`). A text is a way to write a value if it spells the tokens of the value one after the
other, with any white space between them and around them (`Written`).

The body of a string literal spells a text if each character of the text stands for itself, or for
an escape of one letter or of four hexadecimal digits, or for a pair of surrogates (`Spells`). A
body that holds a surrogate without its other half is well formed and spells no text.
-/

namespace IrView

namespace Json

/-! ### String literals -/

/-- A character that may stand for itself in a string literal. -/
structure IsPlain (c : Char) : Prop where
  ne_quote : c ≠ '"'
  ne_backslash : c ≠ '\\'
  printable : ¬ c.val < 0x20

/-- A unit that is the first half of a surrogate pair. -/
def IsHigh (unit : Nat) : Prop :=
  0xD800 ≤ unit ∧ unit < 0xDC00

/-- A unit that is the second half of a surrogate pair. -/
def IsLow (unit : Nat) : Prop :=
  0xDC00 ≤ unit ∧ unit < 0xE000

/-- The character of a surrogate pair. -/
def pairChar (high low : Nat) : Char :=
  Char.ofNat (0x10000 + (high - 0xD800) * 0x400 + (low - 0xDC00))

/-- What may stand between the quotes of a string literal. -/
inductive Body : List Char → Prop
  | nil : Body []
  | plain {c : Char} {w : List Char} (hc : IsPlain c) (hw : Body w) : Body (c :: w)
  | short {e c : Char} {w : List Char} (he : shortEscape? e = some c) (hw : Body w) :
      Body ('\\' :: e :: w)
  | unit {a b c d : Char} {n : Nat} {w : List Char} (hn : hexUnit? a b c d = some n)
      (hw : Body w) : Body ('\\' :: 'u' :: a :: b :: c :: d :: w)

/-- The body of a string literal spells the text. -/
inductive Spells : List Char → List Char → Prop
  | nil : Spells [] []
  | plain {c : Char} {s w : List Char} (hc : IsPlain c) (h : Spells s w) : Spells (c :: s) (c :: w)
  | short {e c : Char} {s w : List Char} (he : shortEscape? e = some c) (h : Spells s w) :
      Spells (c :: s) ('\\' :: e :: w)
  | unit {a b c d : Char} {n : Nat} {s w : List Char} (hn : hexUnit? a b c d = some n)
      (hhigh : ¬ IsHigh n) (hlow : ¬ IsLow n) (h : Spells s w) :
      Spells (Char.ofNat n :: s) ('\\' :: 'u' :: a :: b :: c :: d :: w)
  | pair {a b c d a' b' c' d' : Char} {high low : Nat} {s w : List Char}
      (hn : hexUnit? a b c d = some high) (hn' : hexUnit? a' b' c' d' = some low)
      (hhigh : IsHigh high) (hlow : IsLow low) (h : Spells s w) :
      Spells (pairChar high low :: s)
        ('\\' :: 'u' :: a :: b :: c :: d :: '\\' :: 'u' :: a' :: b' :: c' :: d' :: w)

/-! ### Number literals -/

/-- A run of decimal digits. -/
structure IsDigits (w : List Char) : Prop where
  ne_nil : w ≠ []
  isDigit : ∀ c ∈ w, c.isDigit = true

/-- The values of digits. -/
def digitValues (w : List Char) : List Nat :=
  w.map fun c => c.toNat - '0'.toNat

/-- The part of a number in front of the point. -/
inductive Whole : Nat → List Char → Prop
  | zero : Whole 0 ['0']
  | digits {first : Char} {w : List Char} (hfirst : first ≠ '0') (hw : IsDigits (first :: w)) :
      Whole (ofDigits (digitValues (first :: w))) (first :: w)

/-- The part of a number behind the point. -/
inductive Fraction : List Nat → List Char → Prop
  | absent : Fraction [] []
  | digits {w : List Char} (hw : IsDigits w) : Fraction (digitValues w) ('.' :: w)

/-- The sign of an exponent: whether it is a minus. -/
inductive Sign : Bool → List Char → Prop
  | absent : Sign false []
  | plus : Sign false ['+']
  | minus : Sign true ['-']

/-- The exponent of a number. -/
inductive Exponent : Option Int → List Char → Prop
  | absent : Exponent none []
  | digits {mark : Char} {negative : Bool} {x w : List Char} (hmark : mark = 'e' ∨ mark = 'E')
      (hx : Sign negative x) (hw : IsDigits w) :
      Exponent (some (if negative then -(ofDigits (digitValues w) : Int)
        else ofDigits (digitValues w))) (mark :: (x ++ w))

/-- A number without its sign. -/
inductive Magnitude : Nat → List Nat → Option Int → List Char → Prop
  | parts {n : Nat} {ds : List Nat} {e : Option Int} {w f x : List Char} (hw : Whole n w)
      (hf : Fraction ds f) (hx : Exponent e x) : Magnitude n ds e (w ++ (f ++ x))

/-- The literal spells the number. -/
inductive NumberText : Number → List Char → Prop
  | positive {n : Nat} {ds : List Nat} {e : Option Int} {w : List Char}
      (hw : Magnitude n ds e w) : NumberText ⟨false, n, ds, e⟩ w
  | negative {n : Nat} {ds : List Nat} {e : Option Int} {w : List Char}
      (hw : Magnitude n ds e w) : NumberText ⟨true, n, ds, e⟩ ('-' :: w)

/-! ### Tokens -/

/-- The text spells the token. -/
inductive TokenText : Token → List Char → Prop
  | openArray : TokenText .openArray ['[']
  | closeArray : TokenText .closeArray [']']
  | openObject : TokenText .openObject ['{']
  | closeObject : TokenText .closeObject ['}']
  | colon : TokenText .colon [':']
  | comma : TokenText .comma [',']
  | null : TokenText .null ['n', 'u', 'l', 'l']
  | true : TokenText (.bool true) ['t', 'r', 'u', 'e']
  | false : TokenText (.bool false) ['f', 'a', 'l', 's', 'e']
  | number {n : Number} {w : List Char} (hw : NumberText n w) : TokenText (.number n) w
  | string {content : Content} {w : List Char} (hw : Body w)
      (hcontent : ∀ s, content = some s ↔ Spells s.toList w) :
      TokenText (.string content) ('"' :: (w ++ ['"']))

/-- A character of white space. -/
def IsBlank (c : Char) : Prop :=
  c = ' ' ∨ c = '\t' ∨ c = '\n' ∨ c = '\r'

/-- The text spells the tokens, with white space between them and around them. -/
inductive Lexed : List Token → List Char → Prop
  | done {w : List Char} (hw : ∀ c ∈ w, IsBlank c) : Lexed [] w
  | token {t : Token} {ts : List Token} {w x rest : List Char} (hw : ∀ c ∈ w, IsBlank c)
      (ht : TokenText t x) (h : Lexed ts rest) : Lexed (t :: ts) (w ++ (x ++ rest))

/-! ### Values -/

/-- Parts with commas between them. -/
def separated (parts : List (List Token)) : List Token :=
  [Token.comma].intercalate parts

mutual

/-- The tokens of a value. -/
def Value.tokens : Value → List Token
  | .null => [.null]
  | .bool b => [.bool b]
  | .number n => [.number n]
  | .string content => [.string content]
  | .array items => .openArray :: (separated (itemParts items) ++ [.closeArray])
  | .object members => .openObject :: (separated (memberParts members) ++ [.closeObject])

/-- The tokens of each item. -/
def itemParts : List Value → List (List Token)
  | [] => []
  | v :: vs => v.tokens :: itemParts vs

/-- The tokens of each member. -/
def memberParts : List (Content × Value) → List (List Token)
  | [] => []
  | (key, v) :: ms => (.string key :: .colon :: v.tokens) :: memberParts ms

end

/-- The text is a way to write the value. -/
def Written (v : Value) (text : String) : Prop :=
  Lexed v.tokens text.toList

/-! ### Parts of a text -/

/-- The text begins with a part as described, and the source holds what stands behind it. -/
def Splits (part : List Char → Prop) (cs : List Char) (rest : Source) : Prop :=
  ∃ w cs', part w ∧ cs = w ++ cs' ∧ rest = cs'.map some

theorem exists_eq_append {cs : List Char} {rest : Source} (w : List Char)
    (h : cs.map some = w.map some ++ rest) : ∃ cs', cs = w ++ cs' ∧ rest = cs'.map some := by
  obtain ⟨v, cs', rfl, hv, rfl⟩ := List.map_eq_append_iff.1 h
  rw [List.map_inj_right (fun _ _ => Option.some.inj)] at hv
  exact ⟨cs', by rw [hv], rfl⟩

end Json

end IrView
