import IrView.Toml.Moment
import IrView.Toml.Number
import IrView.Toml.Text
import IrView.Toml.Value

/-!
# Reading a configuration

A configuration is a list of lines: entries, section headers and comments. Sections inside
sections and lists of sections have no place in a configuration and are refused, as is whatever is
written twice or nested too deeply.
-/

namespace IrView

namespace Toml

/-! ### Values -/

/-- The characters behind a comment, up to its line break; nothing if the comment holds a control
character. -/
def afterComment? : List Char → Option (List Char)
  | '#' :: cs =>
    match cs.dropWhile isPlain with
    | [] => some []
    | rest => (afterBreak? rest).map fun _ => rest
  | cs => some cs

/-- The characters behind spaces, line breaks and comments, as they may stand in a list. -/
def skipLoose? (cs : List Char) : Option (List Char) :=
  match skipGap cs with
  | '#' :: rest =>
    match afterComment? ('#' :: rest) with
    | some after => if after.length < cs.length then skipLoose? after else none
    | none => none
  | rest =>
    match afterBreak? rest with
    | some after => if after.length < cs.length then skipLoose? after else none
    | none => some rest
  termination_by cs.length

mutual

/-- Reads a value. Entering a list or a table and going on to a next item each use up one of the
`steps`, of which twice the number of characters is always enough; entering also uses up one of
the `levels`. -/
def readValue? : Nat → Nat → List Char → Option (Value × List Char)
  | _, _, '"' :: '"' :: '"' :: cs =>
    (readLongBasic [] (skipBreak cs)).map fun (s, rest) => (.text s, rest)
  | _, _, '"' :: cs => (readBasic [] cs).map fun (s, rest) => (.text s, rest)
  | _, _, '\'' :: '\'' :: '\'' :: cs =>
    (readLongLiteral [] (skipBreak cs)).map fun (s, rest) => (.text s, rest)
  | _, _, '\'' :: cs => (readLiteral [] cs).map fun (s, rest) => (.text s, rest)
  | _, _, 't' :: 'r' :: 'u' :: 'e' :: cs => some (.bool true, cs)
  | _, _, 'f' :: 'a' :: 'l' :: 's' :: 'e' :: cs => some (.bool false, cs)
  | steps + 1, levels + 1, '[' :: cs => readItems? steps levels [] cs
  | steps + 1, levels + 1, '{' :: cs =>
    match skipGap cs with
    | '}' :: rest => some (.table false [], rest)
    | rest => readInline? steps levels [] rest
  | _, _, cs => ((afterMoment? cs).or (afterNumber? cs)).map fun rest => (.other, rest)

/-- Reads the items of a list to its closing bracket. -/
def readItems? : Nat → Nat → List Value → List Char → Option (Value × List Char)
  | 0, _, _, _ => none
  | steps + 1, levels, items, cs =>
    match skipLoose? cs with
    | some (']' :: rest) => some (.list items.reverse, rest)
    | some rest =>
      match readValue? steps levels rest with
      | some (v, rest) =>
        match skipLoose? rest with
        | some (',' :: rest) => readItems? steps levels (v :: items) rest
        | some (']' :: rest) => some (.list (v :: items).reverse, rest)
        | _ => none
      | none => none
    | none => none

/-- Reads the entries of a table to its closing brace. -/
def readInline? : Nat → Nat → Entries → List Char → Option (Value × List Char)
  | 0, _, _, _ => none
  | steps + 1, levels, entries, cs =>
    match readKey? (skipGap cs) with
    | some (key, '=' :: rest) =>
      match readValue? steps levels (skipGap rest) with
      | some (v, rest) =>
        match insert key v entries with
        | some entries =>
          match skipGap rest with
          | ',' :: rest => readInline? steps levels entries rest
          | '}' :: rest => some (.table false entries, rest)
          | _ => none
        | none => none
      | none => none
    | _ => none

end

/-! ### Lines -/

/-- A line of a configuration. -/
inductive Line where
  | blank
  | header (name : String)
  | entry (key : List String) (v : Value)

/-- Ends a line: a gap, a comment, and a line break or the end of the text. -/
def endLine? (line : Line) (cs : List Char) : Option (Line × List Char) :=
  match afterComment? (skipGap cs) with
  | some [] => some (line, [])
  | some rest => (afterBreak? rest).map fun rest => (line, rest)
  | none => none

/-- Reads a line. -/
def readLine? (cs : List Char) : Option (Line × List Char) :=
  match skipGap cs with
  | [] => some (.blank, [])
  | '#' :: rest => endLine? .blank ('#' :: rest)
  | '\n' :: rest => some (.blank, rest)
  | '\r' :: rest => endLine? .blank ('\r' :: rest)
  | '[' :: rest =>
    match readKey? (skipGap rest) with
    | some ([name], ']' :: rest) => endLine? (.header name) rest
    | _ => none
  | rest =>
    match readKey? rest with
    | some (key, '=' :: rest) =>
      match readValue? (2 * rest.length + 2) (depthLimit - 1) (skipGap rest) with
      | some (v, rest) => endLine? (.entry key v) rest
      | none => none
    | _ => none

/-! ### The whole text -/

/-- What has been read: the entries in front of the sections together with the closed sections,
and the section that is being read. -/
structure Document where
  entries : Entries
  current : Option (String × Entries)

/-- Closes the section that is being read. -/
def Document.close (d : Document) : Option Entries :=
  match d.current with
  | some (name, entries) => insert [name] (.table false entries) d.entries
  | none => some d.entries

/-- Takes a line. -/
def Document.push (d : Document) : Line → Option Document
  | .blank => some d
  | .header name =>
    match d.close with
    | some entries =>
      match entries.lookup name with
      | some _ => none
      | none => some ⟨entries, some (name, [])⟩
    | none => none
  | .entry key v =>
    match d.current with
    | some (name, entries) =>
      (insert key v entries).map fun entries => { d with current := some (name, entries) }
    | none => (insert key v d.entries).map fun entries => { d with entries }

/-- Reads the remaining lines. -/
def readLines? (d : Document) (cs : List Char) : Option Entries :=
  if cs.isEmpty then d.close
  else
    match readLine? cs with
    | some (line, rest) =>
      match d.push line with
      | some d => if rest.length < cs.length then readLines? d rest else none
      | none => none
    | none => none
  termination_by cs.length

/-- The entries of a configuration. A byte order mark at its start is passed over. -/
def parse (text : String) : Option Entries :=
  match text.toList with
  | '\ufeff' :: cs => readLines? ⟨[], none⟩ cs
  | cs => readLines? ⟨[], none⟩ cs

end Toml

end IrView
