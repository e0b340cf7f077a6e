import IrView.Json.Source
import IrView.Json.Value

/-!
# JSON tokens

`nextToken` takes one token off a source. A gap in the source is allowed inside a string literal
only, where it makes the content unknown.
-/

namespace IrView

namespace Json

/-- A token of JSON. -/
inductive Token where
  | openArray
  | closeArray
  | openObject
  | closeObject
  | colon
  | comma
  | null
  | bool (b : Bool)
  | number (n : Number)
  | string (content : Content)
  deriving Repr

/-! ### String literals -/

/-- A string literal that is being read: its characters, last one first, and a high surrogate that
waits for its low one. -/
structure Unfinished where
  chars : List Char
  high : Option Nat
  /-- Whether everything read so far spells text. -/
  sound : Bool

/-- The literal before its first character. -/
def Unfinished.empty : Unfinished :=
  ⟨[], none, true⟩

/-- Goes on with a character; a waiting surrogate stays alone. -/
def Unfinished.push (u : Unfinished) (c : Char) : Unfinished :=
  ⟨c :: u.chars, none, u.sound && u.high.isNone⟩

/-- Goes on with a gap. -/
def Unfinished.spoil (u : Unfinished) : Unfinished :=
  { u with sound := false }

/-- Goes on with a 16-bit unit given by an escape. Two surrogates make one character. -/
def Unfinished.pushUnit (u : Unfinished) (code : Nat) : Unfinished :=
  if 0xD800 ≤ code ∧ code < 0xDC00 then ⟨u.chars, some code, u.sound && u.high.isNone⟩
  else if 0xDC00 ≤ code ∧ code < 0xE000 then
    match u.high with
    | some high => ⟨Char.ofNat (0x10000 + (high - 0xD800) * 0x400 + (code - 0xDC00)) :: u.chars,
        none, u.sound⟩
    | none => u.spoil
  else u.push (Char.ofNat code)

/-- The content of the finished literal. -/
def Unfinished.content (u : Unfinished) : Content :=
  if u.sound && u.high.isNone then some (String.ofList u.chars.reverse) else none

/-- The value of a hexadecimal digit. -/
def hexDigit? (c : Char) : Option Nat :=
  if c.isDigit then some (c.toNat - '0'.toNat)
  else if 'a' ≤ c ∧ c ≤ 'f' then some (c.toNat - 'a'.toNat + 10)
  else if 'A' ≤ c ∧ c ≤ 'F' then some (c.toNat - 'A'.toNat + 10)
  else none

/-- The value of four hexadecimal digits. -/
def hexUnit? (a b c d : Char) : Option Nat := do
  let w ← hexDigit? a
  let x ← hexDigit? b
  let y ← hexDigit? c
  let z ← hexDigit? d
  return ((w * 16 + x) * 16 + y) * 16 + z

/-- The character that a short escape stands for. -/
def shortEscape? : Char → Option Char
  | '"' => some '"'
  | '\\' => some '\\'
  | '/' => some '/'
  | 'b' => some '\x08'
  | 'f' => some '\x0c'
  | 'n' => some '\n'
  | 'r' => some '\r'
  | 't' => some '\t'
  | _ => none

/-- Reads a string literal to its closing quote. -/
def readString (u : Unfinished) : Source → Option (Content × Source)
  | [] => none
  | some '"' :: rest => some (u.content, rest)
  | some '\\' :: some 'u' :: some a :: some b :: some c :: some d :: rest =>
    match hexUnit? a b c d with
    | some code => readString (u.pushUnit code) rest
    | none => none
  | some '\\' :: some e :: rest =>
    match shortEscape? e with
    | some c => readString (u.push c) rest
    | none => none
  | some '\\' :: _ => none
  | some c :: rest => if c.val < 0x20 then none else readString (u.push c) rest
  | none :: rest => readString u.spoil rest

theorem length_lt_of_readString {u : Unfinished} {source rest : Source} {content : Content}
    (h : readString u source = some (content, rest)) : rest.length < source.length := by
  fun_induction readString u source <;> simp_all <;> omega

/-! ### Number literals -/

/-- Whether the next character is a decimal digit. -/
def isDigit : Option Char → Bool
  | some c => c.isDigit
  | none => false

/-- The values of the leading digits, and the rest. -/
def takeDigits : Source → List Nat × Source
  | some c :: rest =>
    if c.isDigit then
      let (digits, rest) := takeDigits rest
      ((c.toNat - '0'.toNat) :: digits, rest)
    else ([], some c :: rest)
  | source => ([], source)

theorem length_takeDigits (source : Source) :
    (takeDigits source).1.length + (takeDigits source).2.length = source.length := by
  fun_induction takeDigits source <;> grind

/-- The number written by decimal digits, most significant first. -/
def ofDigits (digits : List Nat) : Nat :=
  digits.foldl (fun n d => 10 * n + d) 0

/-- Reads the part of a number behind its sign: no superfluous leading zero. -/
def readWhole? (source : Source) : Option (Nat × Source) :=
  match takeDigits source with
  | ([d], rest) => some (d, rest)
  | (0 :: _, _) => none
  | ([], _) => none
  | (digits, rest) => some (ofDigits digits, rest)

/-- Reads the part behind a point, if there is one: at least one digit. -/
def readFraction? : Source → Option (List Nat × Source)
  | some '.' :: source =>
    match takeDigits source with
    | ([], _) => none
    | (digits, rest) => some (digits, rest)
  | source => some ([], source)

/-- The sign in front of an exponent; no sign counts as plus. -/
def readSign : Source → Bool × Source
  | some '-' :: rest => (true, rest)
  | some '+' :: rest => (false, rest)
  | source => (false, source)

/-- Whether the next character announces an exponent. -/
def isExponentMark : Option Char → Bool
  | some 'e' => true
  | some 'E' => true
  | _ => false

/-- Reads an exponent, if there is one: at least one digit behind an optional sign. -/
def readExponent? (source : Source) : Option (Option Int × Source) :=
  match source with
  | mark :: rest =>
    if isExponentMark mark then
      let (negative, rest) := readSign rest
      match takeDigits rest with
      | ([], _) => none
      | (digits, rest) =>
        some (some (if negative then -(ofDigits digits : Int) else ofDigits digits), rest)
    else some (none, source)
  | [] => some (none, source)

/-- Whether a minus sign comes first, and what follows it. -/
def readMinus : Source → Bool × Source
  | some '-' :: rest => (true, rest)
  | source => (false, source)

/-- Reads a number literal. -/
def readNumber? (source : Source) : Option (Number × Source) := do
  let (negative, source) := readMinus source
  let (whole, source) ← readWhole? source
  let (fraction, source) ← readFraction? source
  let (exponent, source) ← readExponent? source
  return (⟨negative, whole, fraction, exponent⟩, source)

theorem length_lt_of_readWhole {source rest : Source} {n : Nat}
    (h : readWhole? source = some (n, rest)) : rest.length < source.length := by
  have total := length_takeDigits source
  unfold readWhole? at h
  generalize takeDigits source = split at h total
  obtain ⟨_ | ⟨d, ds⟩, r⟩ := split
  · simp at h
  · split at h <;> simp_all <;> omega

theorem length_le_of_readFraction {source rest : Source} {ds : List Nat}
    (h : readFraction? source = some (ds, rest)) : rest.length ≤ source.length := by
  unfold readFraction? at h
  split at h
  · next s =>
    have := length_takeDigits s
    split at h <;> grind
  · grind

theorem length_readSign_le (source : Source) : (readSign source).2.length ≤ source.length := by
  unfold readSign
  split <;> grind

theorem length_readMinus_le (source : Source) : (readMinus source).2.length ≤ source.length := by
  unfold readMinus
  split <;> grind

theorem length_le_of_readExponent {source rest : Source} {e : Option Int}
    (h : readExponent? source = some (e, rest)) : rest.length ≤ source.length := by
  unfold readExponent? at h
  split at h
  · next mark s =>
    have h₁ := length_readSign_le s
    have h₂ := length_takeDigits (readSign s).2
    split at h
    · dsimp only at h
      split at h <;> grind
    · grind
  · grind

theorem length_lt_of_readNumber {source rest : Source} {n : Number}
    (h : readNumber? source = some (n, rest)) : rest.length < source.length := by
  simp only [readNumber?, Option.bind_eq_bind, Option.bind_eq_some_iff, Option.pure_def,
    Option.some.injEq, Prod.mk.injEq, Prod.exists] at h
  obtain ⟨whole, s₁, h₁, fraction, s₂, h₂, exponent, s₃, h₃, -, rfl⟩ := h
  have := length_readMinus_le source
  have := length_lt_of_readWhole h₁
  have := length_le_of_readFraction h₂
  have := length_le_of_readExponent h₃
  omega

/-! ### All tokens -/

/-- What the start of a source holds: nothing more, a token with the source behind it, or neither.
-/
inductive Next where
  | finished
  | token (t : Token) (rest : Source)
  | malformed

/-- Takes the first token off a source, together with the white space before it. -/
def nextToken : Source → Next
  | [] => .finished
  | some ' ' :: rest => nextToken rest
  | some '\t' :: rest => nextToken rest
  | some '\n' :: rest => nextToken rest
  | some '\r' :: rest => nextToken rest
  | some '[' :: rest => .token .openArray rest
  | some ']' :: rest => .token .closeArray rest
  | some '{' :: rest => .token .openObject rest
  | some '}' :: rest => .token .closeObject rest
  | some ':' :: rest => .token .colon rest
  | some ',' :: rest => .token .comma rest
  | some '"' :: rest =>
    match readString .empty rest with
    | some (content, rest) => .token (.string content) rest
    | none => .malformed
  | some 'n' :: some 'u' :: some 'l' :: some 'l' :: rest => .token .null rest
  | some 't' :: some 'r' :: some 'u' :: some 'e' :: rest => .token (.bool true) rest
  | some 'f' :: some 'a' :: some 'l' :: some 's' :: some 'e' :: rest => .token (.bool false) rest
  | source =>
    match readNumber? source with
    | some (n, rest) => .token (.number n) rest
    | none => .malformed

theorem length_lt_of_nextToken {source rest : Source} {t : Token}
    (h : nextToken source = .token t rest) : rest.length < source.length := by
  fun_induction nextToken source with
  | case12 s content r hr =>
    have := length_lt_of_readString hr
    grind
  | case17 s _ _ _ _ _ _ _ _ _ _ _ _ _ _ _ n r hr =>
    have := length_lt_of_readNumber hr
    grind
  | _ => grind

end Json

end IrView
