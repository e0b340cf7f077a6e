import IrView.Descriptor
import IrView.Proofs.Text.Occurrence

/-!
# Descriptors of given types

The grammar of descriptors writes a primitive type as a letter, a class as `L`, its name and a
semicolon, and an array as a bracket and the type of its elements. Reading takes a descriptor
apart again: the first piece of a parameter list is the first type that was written
(`takePiece_code`), so the pieces are the types (`pieces_codes`), and each of them gives the name of
its type (`typeNameOf_code`). Names of classes may hold anything but a semicolon and a closing
parenthesis, letters of types, brackets and opening parentheses included.
-/

namespace IrView

namespace Descriptor

/-! ### Types -/

/-- A primitive type. -/
inductive Primitive where
  | byte
  | char
  | double
  | float
  | int
  | long
  | short
  | boolean
  deriving DecidableEq, Repr

/-- The letter of a primitive type. -/
def Primitive.letter : Primitive → Char
  | byte => 'B'
  | char => 'C'
  | double => 'D'
  | float => 'F'
  | int => 'I'
  | long => 'J'
  | short => 'S'
  | boolean => 'Z'

/-- The name of a primitive type. -/
def Primitive.name : Primitive → String
  | byte => "byte"
  | char => "char"
  | double => "double"
  | float => "float"
  | int => "int"
  | long => "long"
  | short => "short"
  | boolean => "boolean"

/-- The name of a class. A semicolon would end it, and a closing parenthesis the parameter list. -/
structure ClassName where
  name : String
  semicolon_notMem : ';' ∉ name.toList
  parenthesis_notMem : ')' ∉ name.toList

/-- What an array is made of in the end. -/
inductive Element where
  | primitive (p : Primitive)
  | reference (c : ClassName)

/-- A type: an element and the number of array dimensions around it. -/
structure FieldType where
  dimensions : Nat
  element : Element

/-- The type that a method returns: `V` stands for no value. No method has dimensions in front of
it, but they are read like others. -/
inductive ReturnType where
  | void (dimensions : Nat)
  | value (t : FieldType)

/-- The descriptor of an element. -/
def Element.code : Element → String
  | primitive p => String.singleton p.letter
  | reference c => "L" ++ c.name ++ ";"

/-- The name of an element. -/
def Element.name : Element → String
  | primitive p => p.name
  | reference c => c.name

/-- The brackets of a number of dimensions in front of a descriptor. -/
def brackets (dimensions : Nat) (code : String) : String :=
  String.join (List.replicate dimensions "[") ++ code

/-- The pairs of brackets of a number of dimensions behind a name. -/
def arrayName (dimensions : Nat) (name : String) : String :=
  name ++ String.join (List.replicate dimensions "[]")

/-- The descriptor of a type. -/
def FieldType.code (t : FieldType) : String :=
  brackets t.dimensions t.element.code

/-- The name of a type. -/
def FieldType.name (t : FieldType) : String :=
  arrayName t.dimensions t.element.name

/-- The descriptor of a return type. -/
def ReturnType.code : ReturnType → String
  | void dimensions => brackets dimensions "V"
  | value t => t.code

/-- The name of a return type. -/
def ReturnType.name : ReturnType → String
  | void dimensions => arrayName dimensions "void"
  | value t => t.name

/-- The descriptor of a method. -/
def ofTypes (parameters : List FieldType) (ret : ReturnType) : String :=
  "(" ++ String.join (parameters.map FieldType.code) ++ ")" ++ ret.code

/-! ### Characters of descriptors -/

theorem toList_brackets (n : Nat) (code : String) :
    (brackets n code).toList = List.replicate n '[' ++ code.toList := by
  induction n with
  | zero => simp [brackets]
  | succ n ih =>
    simp [brackets, List.replicate_succ] at ih ⊢
    simp [ih]

theorem toList_arrayName_succ (n : Nat) (name : String) :
    (arrayName (n + 1) name).toList = (arrayName n name).toList ++ ['[', ']'] := by
  simp [arrayName, List.replicate_succ', String.toList_join]

theorem Element.code_cases (e : Element) :
    (∃ p, e = .primitive p ∧ e.code.toList = [p.letter]) ∨
      ∃ c, e = .reference c ∧ e.code.toList = 'L' :: (c.name.toList ++ [';']) := by
  cases e with
  | primitive p => exact Or.inl ⟨p, rfl, by simp [code]⟩
  | reference c => exact Or.inr ⟨c, rfl, by simp [code]⟩

theorem parenthesis_notMem_elementCode (e : Element) : ')' ∉ e.code.toList := by
  obtain ⟨p, -, hcode⟩ | ⟨c, -, hcode⟩ := e.code_cases
  · rw [hcode, List.mem_singleton]
    cases p <;> decide
  · rw [hcode]
    simpa using c.parenthesis_notMem

theorem parenthesis_notMem_brackets {n : Nat} {code : String} (h : ')' ∉ code.toList) :
    ')' ∉ (brackets n code).toList := by
  rw [toList_brackets, List.mem_append, not_or]
  exact ⟨fun hmem => absurd (List.eq_of_mem_replicate hmem) (by decide), h⟩

theorem parenthesis_notMem_returnCode (ret : ReturnType) : ')' ∉ ret.code.toList := by
  cases ret with
  | void n => exact parenthesis_notMem_brackets (by decide)
  | value t => exact parenthesis_notMem_brackets (parenthesis_notMem_elementCode t.element)

/-! ### Names of types -/

theorem typeNameOf_brackets (n : Nat) {code name : String}
    (h : typeNameOf code.toList = name.toList) :
    typeNameOf (brackets n code).toList = (arrayName n name).toList := by
  rw [toList_brackets]
  induction n with
  | zero => simpa [arrayName] using h
  | succ n ih => rw [List.replicate_succ, List.cons_append, typeNameOf, ih, toList_arrayName_succ]

theorem typeNameOf_elementCode (e : Element) : typeNameOf e.code.toList = e.name.toList := by
  cases e with
  | primitive p => cases p <;> rfl
  | reference c =>
    have hcode : (Element.reference c).code.toList = 'L' :: (c.name.toList ++ [';']) := by
      simp [Element.code]
    rw [hcode, typeNameOf, dropSemicolon, List.getLast?_concat]
    exact List.dropLast_concat

/-- The descriptor of a type gives its name. -/
theorem typeNameOf_code (t : FieldType) : typeNameOf t.code.toList = t.name.toList :=
  typeNameOf_brackets t.dimensions (typeNameOf_elementCode t.element)

theorem typeNameOf_returnCode (ret : ReturnType) :
    typeNameOf ret.code.toList = ret.name.toList := by
  cases ret with
  | void n => exact typeNameOf_brackets n rfl
  | value t => exact typeNameOf_code t

/-! ### Pieces of parameter lists -/

variable {rest : List Char}

theorem throughSemicolon_concat {cs : List Char} (h : ';' ∉ cs) :
    throughSemicolon (cs ++ ';' :: rest) = (cs ++ [';'], rest) := by
  induction cs with
  | nil => rfl
  | cons c cs ih =>
    rw [List.mem_cons, not_or] at h
    rw [List.cons_append, throughSemicolon, ih h.2]
    · rfl
    · rintro ⟨⟩
      exact h.1 rfl

theorem throughSemicolon_of_notMem {cs : List Char} (h : ';' ∉ cs) :
    throughSemicolon cs = (cs, []) := by
  induction cs with
  | nil => rfl
  | cons c cs ih =>
    rw [List.mem_cons, not_or] at h
    rw [throughSemicolon, ih h.2]
    rintro rfl
    exact h.1 rfl

theorem takePiece_elementCode (e : Element) :
    takePiece (e.code.toList ++ rest) = (e.code.toList, rest) := by
  obtain ⟨p, -, hcode⟩ | ⟨c, -, hcode⟩ := e.code_cases
  · rw [hcode]
    cases p <;> rfl
  · rw [hcode, List.cons_append, List.append_assoc, takePiece]
    exact congrArg (fun split : List Char × List Char => ('L' :: split.1, split.2))
      (throughSemicolon_concat c.semicolon_notMem)

/-- Brackets in front belong to the first piece. -/
theorem takePiece_replicate (n : Nat) (cs : List Char) :
    takePiece (List.replicate n '[' ++ cs) =
      (List.replicate n '[' ++ (takePiece cs).1, (takePiece cs).2) := by
  induction n with
  | zero => rfl
  | succ n ih => rw [List.replicate_succ, List.cons_append, takePiece, ih, List.cons_append]

/-- The first piece is the first type. -/
theorem takePiece_code (t : FieldType) :
    takePiece (t.code.toList ++ rest) = (t.code.toList, rest) := by
  rw [FieldType.code, toList_brackets, List.append_assoc, takePiece_replicate,
    takePiece_elementCode]

theorem code_ne_nil (t : FieldType) : t.code.toList ≠ [] := by
  rw [FieldType.code, toList_brackets]
  obtain ⟨p, -, hcode⟩ | ⟨c, -, hcode⟩ := t.element.code_cases <;> simp [hcode]

/-- The pieces are the types. -/
theorem pieces_codes (ts : List FieldType) :
    pieces (ts.flatMap fun t => t.code.toList) = ts.map fun t => t.code.toList := by
  induction ts with
  | nil => rw [List.flatMap_nil, List.map_nil, pieces, dif_pos rfl]
  | cons t ts ih =>
    have hne : t.code.toList ++ ts.flatMap (fun t => t.code.toList) ≠ [] :=
      fun h => code_ne_nil t (List.append_eq_nil_iff.1 h).1
    rw [List.flatMap_cons, List.map_cons, pieces, dif_neg hne, takePiece_code, ih]

/-! ### Signatures -/

theorem split_ofTypes (parameters : List FieldType) (ret : ReturnType) :
    split (ofTypes parameters ret).toList =
      (parameters.flatMap fun t => t.code.toList, ret.code.toList) := by
  have hchars : (ofTypes parameters ret).toList =
      ('(' :: parameters.flatMap fun t => t.code.toList) ++ ')' :: ret.code.toList := by
    simp [ofTypes, String.toList_join, List.flatMap_map]
  rw [split, hchars, Text.splitAtLast?_append (parenthesis_notMem_returnCode ret)]
  rfl

theorem returnCode_ne_nil (ret : ReturnType) : ret.code.toList ≠ [] := by
  cases ret with
  | void n => simp [ReturnType.code, toList_brackets]
  | value t => exact code_ne_nil t

/-- **Reading inverts the grammar.** The signature that is read from a descriptor has the types that
the descriptor was made of: each parameter once and in order, and the return type. -/
theorem signature_ofTypes (parameters : List FieldType) (ret : ReturnType) :
    signature (ofTypes parameters ret) =
      { returnType := ret.name, parameters := parameters.map FieldType.name } := by
  have hname : ∀ t : FieldType, String.ofList (typeNameOf t.code.toList) = t.name := by
    intro t
    rw [typeNameOf_code, String.ofList_toList]
  have hret : ret.code.toList.isEmpty = false :=
    Bool.eq_false_iff.2 fun h => returnCode_ne_nil ret (List.isEmpty_iff.1 h)
  rw [signature, split_ofTypes]
  dsimp only
  rw [hret, pieces_codes, typeNameOf_returnCode, String.ofList_toList, List.map_map]
  exact congrArg (Signature.mk ret.name) (List.map_congr_left fun t _ => hname t)

end Descriptor

end IrView
