import IrView.Proofs.Descriptor

/-!
# How descriptors are cut

A descriptor is cut into its parameter list and its return type at the first opening and the last
closing parenthesis (`Parted`), and a parameter list is cut into pieces: brackets and behind them the
reference of a class or a single character (`IsPiece`). No other cut has pieces of this form
(`pieces_eq_iff`).
-/

namespace IrView

namespace Descriptor

open Text

/-! ### Pieces -/

/-- What can stand behind the brackets of a piece, in front of the other pieces: the reference of a
class through its semicolon, or to the end if there is none, or a single character, or nothing at
the end. -/
inductive IsElement : List Char → List Char → Prop
  | closed {name behind : List Char} (h : ';' ∉ name) : IsElement ('L' :: (name ++ [';'])) behind
  | unclosed {name : List Char} (h : ';' ∉ name) : IsElement ('L' :: name) []
  | single {c : Char} {behind : List Char} (hbracket : c ≠ '[') (hclass : c ≠ 'L') :
      IsElement [c] behind
  | missing : IsElement [] []

/-- A piece of a parameter list, in front of the other pieces. -/
def IsPiece (piece behind : List Char) : Prop :=
  ∃ n element, piece = List.replicate n '[' ++ element ∧ IsElement element behind

/-- The pieces make up the parameter list. -/
inductive Cuts : List Char → List (List Char) → Prop
  | nil : Cuts [] []
  | cons {piece behind : List Char} {others : List (List Char)} (hpiece : IsPiece piece behind)
      (hne : piece ≠ []) (h : Cuts behind others) : Cuts (piece ++ behind) (piece :: others)

variable {cs piece behind : List Char}

theorem exists_brackets (cs : List Char) :
    ∃ n rest, cs = List.replicate n '[' ++ rest ∧ rest.head? ≠ some '[' := by
  induction cs with
  | nil => exact ⟨0, [], rfl, by simp⟩
  | cons c cs ih =>
    by_cases hc : c = '['
    · obtain ⟨n, rest, hcs, hrest⟩ := ih
      refine ⟨n + 1, rest, ?_, hrest⟩
      rw [hc, hcs, List.replicate_succ, List.cons_append]
    · exact ⟨0, c :: cs, rfl, by simpa using hc⟩

theorem takePiece_single {c : Char} (hbracket : c ≠ '[') (hclass : c ≠ 'L') (cs : List Char) :
    takePiece (c :: cs) = ([c], cs) := by
  unfold takePiece
  split <;> simp_all

theorem isElement_takePiece (h : cs.head? ≠ some '[') :
    IsElement (takePiece cs).1 (takePiece cs).2 := by
  cases cs with
  | nil => exact .missing
  | cons c cs =>
    have hbracket : c ≠ '[' := by simpa using h
    by_cases hclass : c = 'L'
    · subst hclass
      rw [takePiece]
      by_cases hend : ';' ∈ cs
      · obtain ⟨name, behind, rfl, hname⟩ := List.eq_append_cons_of_mem hend
        rw [throughSemicolon_concat hname]
        exact .closed hname
      · rw [throughSemicolon_of_notMem hend]
        exact .unclosed hend
    · rw [takePiece_single hbracket hclass]
      exact .single hbracket hclass

theorem isPiece_takePiece (cs : List Char) : IsPiece (takePiece cs).1 (takePiece cs).2 := by
  obtain ⟨n, rest, rfl, hrest⟩ := exists_brackets cs
  rw [takePiece_replicate]
  exact ⟨n, (takePiece rest).1, rfl, isElement_takePiece hrest⟩

theorem IsElement.takePiece_eq (h : IsElement piece behind) :
    takePiece (piece ++ behind) = (piece, behind) := by
  cases h with
  | closed hname =>
    rw [List.cons_append, List.append_assoc, List.singleton_append, takePiece,
      throughSemicolon_concat hname]
  | unclosed hname =>
    rw [List.append_nil, takePiece, throughSemicolon_of_notMem hname]
  | single hbracket hclass => exact takePiece_single hbracket hclass behind
  | missing => rfl

theorem IsPiece.takePiece_eq (h : IsPiece piece behind) :
    takePiece (piece ++ behind) = (piece, behind) := by
  obtain ⟨n, element, rfl, helement⟩ := h
  rw [List.append_assoc, takePiece_replicate, helement.takePiece_eq]

theorem cuts_pieces (cs : List Char) : Cuts cs (pieces cs) := by
  fun_induction pieces cs with
  | case1 => exact .nil
  | case2 cs h ih =>
    have hcuts := Cuts.cons (isPiece_takePiece cs) (takePiece_ne_nil h) ih
    rwa [takePiece_append] at hcuts

theorem Cuts.flatten_eq {ps : List (List Char)} (h : Cuts cs ps) : ps.flatten = cs := by
  induction h with
  | nil => rfl
  | cons _ _ _ ih => rw [List.flatten_cons, ih]

/-- **The pieces** are the only way to cut a parameter list. -/
theorem pieces_eq_iff {ps : List (List Char)} : pieces cs = ps ↔ Cuts cs ps := by
  constructor
  · rintro rfl
    exact cuts_pieces cs
  · intro h
    induction h with
    | nil => rw [pieces, dif_pos rfl]
    | cons hpiece hne _ ih =>
      rw [pieces, dif_neg (List.append_ne_nil_of_left_ne_nil hne _), hpiece.takePiece_eq, ih]

/-! ### Parameters and return type -/

/-- The parameter list and the return type are what stands between the first opening and the last
closing parenthesis and what stands behind. Without an opening parenthesis in front of the last
closing one there are no parameters, and without a closing one all is the return type. -/
inductive Parted (d : String) : String → String → Prop
  | between {front parameters ret : String} (hd : d = front ++ "(" ++ parameters ++ ")" ++ ret)
      (hopening : '(' ∉ front.toList) (hclosing : ')' ∉ ret.toList) : Parted d parameters ret
  | unopened {front ret : String} (hd : d = front ++ ")" ++ ret) (hopening : '(' ∉ front.toList)
      (hclosing : ')' ∉ ret.toList) : Parted d "" ret
  | bare (hclosing : ')' ∉ d.toList) : Parted d "" d

variable {d parameters ret : String}

theorem exists_parted (d : String) : ∃ parameters ret, Parted d parameters ret := by
  by_cases hclosing : ')' ∈ d.toList
  · obtain ⟨front, ret, hd, hret⟩ := exists_last hclosing
    have hret : ')' ∉ (String.ofList ret).toList := by rwa [String.toList_ofList]
    by_cases hopening : '(' ∈ front
    · obtain ⟨front, parameters, rfl, hfront⟩ := List.eq_append_cons_of_mem hopening
      have hfront : '(' ∉ (String.ofList front).toList := by rwa [String.toList_ofList]
      refine ⟨String.ofList parameters, _, .between (String.toList_inj.1 ?_) hfront hret⟩
      simp [hd]
    · have hopening : '(' ∉ (String.ofList front).toList := by rwa [String.toList_ofList]
      refine ⟨"", _, .unopened (String.toList_inj.1 ?_) hopening hret⟩
      simp [hd]
  · exact ⟨"", d, .bare hclosing⟩

theorem Parted.split_eq (h : Parted d parameters ret) :
    split d.toList = (parameters.toList, ret.toList) := by
  cases h with
  | @between front _ _ hd hopening hclosing =>
    have hchars : d.toList =
        (front.toList ++ '(' :: parameters.toList) ++ ')' :: ret.toList := by
      simp [hd]
    rw [split, hchars, splitAtLast?_append hclosing]
    simp only [afterFirst?_append hopening, Option.getD_some]
  | @unopened front _ hd hopening hclosing =>
    have hchars : d.toList = front.toList ++ ')' :: ret.toList := by
      simp [hd]
    rw [split, hchars, splitAtLast?_append hclosing]
    simp only [afterFirst?_of_notMem hopening]
    rfl
  | bare hclosing =>
    rw [split, splitAtLast?_of_notMem hclosing]
    rfl

end Descriptor

end IrView
