/-!
# Bytes as characters

A source is a text as it was received. Bytes that belong to no character are kept as gaps, one
for each byte, because a reader may have to pass over them.
-/

namespace IrView

namespace Json

/-- A received text; `none` stands for a byte that belongs to no character. -/
abbrev Source := List (Option Char)

/-- The source of a text without gaps. -/
def Source.ofString (s : String) : Source :=
  s.toList.map some

/-- The payload of a continuation byte. -/
def continuation? (b : UInt8) : Option Nat :=
  if b &&& 0xC0 = 0x80 then some (b &&& 0x3F).toNat else none

/-- The character with the code point, when it has one and needs `least` or more. -/
def charFrom? (least code : Nat) : Option Char :=
  if least ≤ code ∧ code.isValidChar then some (Char.ofNat code) else none

/-- The characters spelled by bytes in UTF-8. A byte that starts no character is a gap, and
reading goes on behind it. -/
def Source.ofBytes : List UInt8 → Source
  | [] => []
  | a :: as =>
    if a < 0x80 then some (Char.ofNat a.toNat) :: ofBytes as
    else if a &&& 0xE0 = 0xC0 then
      match as with
      | b :: bs =>
        match continuation? b with
        | some x =>
          match charFrom? 0x80 ((a &&& 0x1F).toNat * 64 + x) with
          | some c => some c :: ofBytes bs
          | none => none :: ofBytes (b :: bs)
        | none => none :: ofBytes (b :: bs)
      | [] => [none]
    else if a &&& 0xF0 = 0xE0 then
      match as with
      | b :: c :: cs =>
        match continuation? b, continuation? c with
        | some x, some y =>
          match charFrom? 0x800 (((a &&& 0x0F).toNat * 64 + x) * 64 + y) with
          | some c => some c :: ofBytes cs
          | none => none :: ofBytes (b :: c :: cs)
        | _, _ => none :: ofBytes (b :: c :: cs)
      | bs => none :: ofBytes bs
    else if a &&& 0xF8 = 0xF0 then
      match as with
      | b :: c :: d :: ds =>
        match continuation? b, continuation? c, continuation? d with
        | some x, some y, some z =>
          match charFrom? 0x10000 ((((a &&& 0x07).toNat * 64 + x) * 64 + y) * 64 + z) with
          | some c => some c :: ofBytes ds
          | none => none :: ofBytes (b :: c :: d :: ds)
        | _, _, _ => none :: ofBytes (b :: c :: d :: ds)
      | bs => none :: ofBytes bs
    else none :: ofBytes as
  termination_by bytes => bytes.length

/-- The text of a source without gaps. -/
def Source.text? (source : Source) : Option String :=
  (source.mapM id).map String.ofList

end Json

end IrView
