/-!
# Configuration values

A configuration holds texts, truth values, lists, tables, and numbers and dates, which no setting
takes and which are therefore not told apart. A table is open as long as it was only named by the
front part of dotted keys; once it was written as a whole, nothing can be added to it.
-/

namespace IrView

namespace Toml

/-- A value in a configuration. -/
inductive Value where
  | text (s : String)
  | bool (b : Bool)
  /-- A number or a date. -/
  | other
  | list (items : List Value)
  | table (isOpen : Bool) (entries : List (String × Value))
  deriving Repr

/-- The entries of a table, in order. -/
abbrev Entries := List (String × Value)

/-- Replaces the value of a key. -/
def replace (key : String) (v : Value) : Entries → Entries
  | [] => []
  | (k, w) :: rest => if k = key then (k, v) :: rest else (k, w) :: replace key v rest

/-- Adds a value under a dotted key. The front parts of the key name open tables, which are created
when they are missing; the last part must be new. -/
def insert : List String → Value → Entries → Option Entries
  | [], _, _ => none
  | [key], v, entries =>
    match entries.lookup key with
    | some _ => none
    | none => some (entries ++ [(key, v)])
  | key :: rest, v, entries =>
    match entries.lookup key with
    | none => (insert rest v []).map fun inner => entries ++ [(key, .table true inner)]
    | some (.table true inner) =>
      (insert rest v inner).map fun inner => replace key (.table true inner) entries
    | some _ => none

end Toml

end IrView
