import IrView.Text.Lowercase.Context
import IrView.Text.Lowercase.Mapping

/-!
# Lowercase texts

The full Unicode lowercase mapping. Two letters need more than the mapping of single characters:
the dotted capital I becomes two characters, and a capital sigma becomes a final sigma at the end
of a word, that is, after a cased letter and not before one.
-/

namespace IrView

namespace Text

/-- Whether the first character that is not passed over is a cased letter. -/
def casedNext (cs : List Char) : Bool :=
  match cs.dropWhile isPassedOver with
  | c :: _ => isCased c
  | [] => false

/-- The lowercase form of `c` between the characters `before` (nearest first) and `after`. -/
def lowerAt (before : List Char) (c : Char) (after : List Char) : List Char :=
  if c = 'Σ' then [if casedNext before && !casedNext after then 'ς' else 'σ']
  else if c = 'İ' then ['i', '\u0307']
  else [lowerChar c]

/-- The lowercase form of the rest of a text, behind the characters `before` (nearest first). -/
def lowerFrom (before : List Char) : List Char → List Char
  | [] => []
  | c :: cs => lowerAt before c cs ++ lowerFrom (c :: before) cs

/-- The text in lowercase. -/
def lowercase (s : String) : String :=
  String.ofList (lowerFrom [] s.toList)

end Text

end IrView
