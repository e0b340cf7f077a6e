import IrView.Json.Token

/-!
# Texts and keys in a configuration

A text stands between single or double quotes, and over several lines between three of them. Only
double quotes know escapes. A key is a bare word or a quoted text on one line.
-/

namespace IrView

namespace Toml

/-! ### Characters -/

/-- Whether the character separates words on a line. -/
def isGap (c : Char) : Bool :=
  c == ' ' || c == '\t'

/-- Whether the character may stand in texts and comments: no control character but the tab. -/
def isPlain (c : Char) : Bool :=
  c == '\t' || (0x20 ≤ c.val && c.val != 0x7F)

/-- The characters behind leading spaces and tabs. -/
def skipGap (cs : List Char) : List Char :=
  cs.dropWhile isGap

/-- The characters behind a line break, if one comes next. -/
def afterBreak? : List Char → Option (List Char)
  | '\n' :: cs => some cs
  | '\r' :: '\n' :: cs => some cs
  | _ => none

/-! ### Escapes -/

/-- The character that a short escape stands for. -/
def shortEscape? : Char → Option Char
  | 'b' => some '\x08'
  | 't' => some '\t'
  | 'n' => some '\n'
  | 'f' => some '\x0c'
  | 'r' => some '\r'
  | '"' => some '"'
  | '\\' => some '\\'
  | _ => none

/-- The character with the code point that so many hexadecimal digits give, and the rest. -/
def readCode? (count : Nat) (cs : List Char) : Option (Char × List Char) := do
  let values ← (cs.take count).mapM Json.hexDigit?
  let code := values.foldl (fun n d => 16 * n + d) 0
  if values.length = count && code.isValidChar then some (Char.ofNat code, cs.drop count) else none

/-- Reads an escape behind its backslash. -/
def readEscape? : List Char → Option (Char × List Char)
  | 'u' :: cs => readCode? 4 cs
  | 'U' :: cs => readCode? 8 cs
  | e :: cs => (shortEscape? e).map fun c => (c, cs)
  | [] => none

/-! ### Texts on one line -/

/-- Reads a text to its closing double quote; `read` holds its characters so far, last one
first. -/
def readBasic (read : List Char) (cs : List Char) : Option (String × List Char) :=
  match cs with
  | [] => none
  | '"' :: rest => some (String.ofList read.reverse, rest)
  | '\\' :: rest =>
    match readEscape? rest with
    | some (c, after) => if after.length < rest.length then readBasic (c :: read) after else none
    | none => none
  | c :: rest => if isPlain c then readBasic (c :: read) rest else none
  termination_by cs.length

/-- Reads a text to its closing single quote. -/
def readLiteral (read : List Char) : List Char → Option (String × List Char)
  | [] => none
  | '\'' :: rest => some (String.ofList read.reverse, rest)
  | c :: rest => if isPlain c then readLiteral (c :: read) rest else none

/-! ### Texts over several lines -/

/-- The characters without the line break that may follow the opening quotes. -/
def skipBreak (cs : List Char) : List Char :=
  (afterBreak? cs).getD cs

/-- The text that ends here, and the rest. Of up to five quotes the last three close the text. -/
def closeLong (quote : Char) (read rest : List Char) : String × List Char :=
  let extra := (rest.takeWhile (· == quote)).length
  let extra := min extra 2
  (String.ofList (read.reverse ++ List.replicate extra quote), rest.drop extra)

/-- The characters behind a backslash at the end of a line: all white space is left out. -/
def continuation? (cs : List Char) : Option (List Char) :=
  match afterBreak? (skipGap cs) with
  | some rest => some (skipBlank rest)
  | none => none
where
  /-- The characters behind spaces, tabs and line breaks. -/
  skipBlank : List Char → List Char
    | '\r' :: '\n' :: cs => skipBlank cs
    | c :: cs => if isGap c || c == '\n' then skipBlank cs else c :: cs
    | [] => []

/-- Reads a text to its three closing double quotes. -/
def readLongBasic (read : List Char) (cs : List Char) : Option (String × List Char) :=
  match cs with
  | [] => none
  | '"' :: '"' :: '"' :: rest => some (closeLong '"' read rest)
  | '\\' :: rest =>
    match continuation? rest with
    | some after =>
      if after.length < rest.length then readLongBasic read after else none
    | none =>
      match readEscape? rest with
      | some (c, after) =>
        if after.length < rest.length then readLongBasic (c :: read) after else none
      | none => none
  | '\r' :: '\n' :: rest => readLongBasic ('\n' :: read) rest
  | c :: rest => if isPlain c || c == '\n' then readLongBasic (c :: read) rest else none
  termination_by cs.length

/-- Reads a text to its three closing single quotes. -/
def readLongLiteral (read : List Char) : List Char → Option (String × List Char)
  | [] => none
  | '\'' :: '\'' :: '\'' :: rest => some (closeLong '\'' read rest)
  | '\r' :: '\n' :: rest => readLongLiteral ('\n' :: read) rest
  | c :: rest => if isPlain c || c == '\n' then readLongLiteral (c :: read) rest else none

/-! ### Keys -/

/-- Whether the character may stand in a bare key. -/
def isBare (c : Char) : Bool :=
  c.isAlphanum || c == '_' || c == '-'

/-- Reads one part of a key. -/
def readPart? : List Char → Option (String × List Char)
  | '"' :: cs => readBasic [] cs
  | '\'' :: cs => readLiteral [] cs
  | cs =>
    match cs.takeWhile isBare with
    | [] => none
    | word => some (String.ofList word, cs.dropWhile isBare)

/-- Reads the parts of a dotted key, with gaps around its dots, and the gap behind it. -/
def readParts? (cs : List Char) : Option (List String × List Char) :=
  match readPart? cs with
  | none => none
  | some (part, rest) =>
    match skipGap rest with
    | '.' :: more =>
      let next := skipGap more
      if next.length < cs.length then
        (readParts? next).map fun (parts, rest) => (part :: parts, rest)
      else none
    | rest => some ([part], rest)
  termination_by cs.length

/-- The number of levels that tables and lists, or the parts of a key, may not reach. -/
def depthLimit : Nat :=
  80

/-- Reads a dotted key and the gap behind it. -/
def readKey? (cs : List Char) : Option (List String × List Char) :=
  (readParts? cs).filter fun (parts, _) => parts.length < depthLimit

end Toml

end IrView
