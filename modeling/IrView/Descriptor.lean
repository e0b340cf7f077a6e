import IrView.Text.Basic

/-!
# Method descriptors

A descriptor such as `(I[Ljava/lang/String;)V` spells the parameter types of a method between
parentheses and its return type behind them. Every text is read as far as it makes sense: what
stands between the first opening and the last closing parenthesis is cut into pieces, one for each
parameter, and no character of it is lost.
-/

namespace IrView

namespace Descriptor

/-! ### Single types -/

/-- The type that a single code stands for; any other text is its own name. -/
def codeName (code : List Char) : List Char :=
  match code with
  | ['B'] => "byte".toList
  | ['C'] => "char".toList
  | ['D'] => "double".toList
  | ['F'] => "float".toList
  | ['I'] => "int".toList
  | ['J'] => "long".toList
  | ['S'] => "short".toList
  | ['Z'] => "boolean".toList
  | ['V'] => "void".toList
  | other => other

/-- The characters without one semicolon at the end. -/
def dropSemicolon (cs : List Char) : List Char :=
  match cs.getLast? with
  | some ';' => cs.dropLast
  | _ => cs

/-- The name of a type: each leading bracket is a dimension, `L` begins the name of a class, and
the other codes are primitive types. -/
def typeNameOf : List Char → List Char
  | '[' :: element => typeNameOf element ++ ['[', ']']
  | 'L' :: name => dropSemicolon name
  | code => codeName code

/-- The name of the type that a text describes. -/
def typeName (descriptor : String) : String :=
  String.ofList (typeNameOf descriptor.toList)

/-! ### Parameter lists -/

/-- The leading characters up to and including the first semicolon, and the rest. -/
def throughSemicolon : List Char → List Char × List Char
  | [] => ([], [])
  | ';' :: cs => ([';'], cs)
  | c :: cs =>
    let (front, back) := throughSemicolon cs
    (c :: front, back)

/-- The first piece of a parameter list, and the rest: brackets and behind them a class reference
through its semicolon, or any single character, or nothing at the end of the list. -/
def takePiece : List Char → List Char × List Char
  | [] => ([], [])
  | '[' :: cs =>
    let (piece, rest) := takePiece cs
    ('[' :: piece, rest)
  | 'L' :: cs =>
    let (name, rest) := throughSemicolon cs
    ('L' :: name, rest)
  | c :: cs => ([c], cs)

theorem throughSemicolon_append (cs : List Char) :
    (throughSemicolon cs).1 ++ (throughSemicolon cs).2 = cs := by
  fun_induction throughSemicolon cs <;> simp_all

theorem takePiece_append (cs : List Char) : (takePiece cs).1 ++ (takePiece cs).2 = cs := by
  fun_induction takePiece cs with
  | case3 cs name rest h =>
    have := throughSemicolon_append cs
    simp_all
  | _ => simp_all

theorem takePiece_ne_nil {cs : List Char} (h : cs ≠ []) : (takePiece cs).1 ≠ [] := by
  unfold takePiece
  split <;> simp_all

theorem length_takePiece_lt {cs : List Char} (h : cs ≠ []) :
    (takePiece cs).2.length < cs.length := by
  have total := congrArg List.length (takePiece_append cs)
  have := List.length_pos_iff.2 (takePiece_ne_nil h)
  rw [List.length_append] at total
  omega

/-- The pieces of a parameter list. -/
def pieces (cs : List Char) : List (List Char) :=
  if _h : cs = [] then []
  else (takePiece cs).1 :: pieces (takePiece cs).2
  termination_by cs.length
  decreasing_by exact length_takePiece_lt _h

/-! ### Signatures -/

/-- The types of a method. -/
structure Signature where
  returnType : String
  parameters : List String
  deriving DecidableEq, Repr

/-- The parameter list and the return type in a descriptor. The return type stands behind the last
closing parenthesis, the parameters between it and the first opening one. -/
def split (cs : List Char) : List Char × List Char :=
  match Text.splitAtLast? ')' cs with
  | some (front, back) => ((Text.afterFirst? '(' front).getD [], back)
  | none => ([], cs)

/-- The types that a descriptor spells. A missing return type is `void`. -/
def signature (descriptor : String) : Signature :=
  let (parameters, ret) := split descriptor.toList
  { returnType := if ret.isEmpty then "void" else String.ofList (typeNameOf ret)
    parameters := (pieces parameters).map fun piece => String.ofList (typeNameOf piece) }

/-- The header of a method with the given name. -/
def Signature.header (s : Signature) (method : String) : String :=
  s.returnType ++ " " ++ method ++ "(" ++ ", ".intercalate s.parameters ++ ")"

end Descriptor

end IrView
