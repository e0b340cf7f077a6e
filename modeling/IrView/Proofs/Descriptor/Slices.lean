import IrView.Proofs.Descriptor.Cut
import IrView.Proofs.Text.Slice

/-!
# Reading descriptors in place

Descriptors can be read in place: parentheses and semicolons are found as offsets in bytes, brackets
are counted as bytes, and what stands between two offsets is a slice. A slice may be missing, and a
round of the loop that takes pieces may take nothing, so that it never ends; nothing is read in
either case. Neither happens, and what is read is the signature (`signature?_eq`): offsets are taken
at characters of one byte, so they are boundaries, and each round takes the first piece
(`takePiece?_eq`), which is not empty (`size_takePiece_lt`).
-/

namespace IrView

namespace Descriptor

open Text

/-! ### Reading in place -/

/-- The number of bytes of the first piece of a parameter list without brackets in front. -/
def elementSize (rest : String) : Nat :=
  match (bytes rest).head? with
  | none => 0
  | some first =>
    if first = 'L'.toUInt8 then
      match firstOffset? ';' rest.toList with
      | some i => i + 1
      | none => rest.utf8ByteSize
    else
      match rest.toList.head? with
      | some c => c.utf8Size
      | none => 0

/-- The first piece of a parameter list, and the rest. -/
def takePiece? (s : String) : Option (String × String) := do
  let brackets := ((bytes s).takeWhile (· == '['.toUInt8)).length
  let rest ← slice? s brackets s.utf8ByteSize
  let stop := brackets + elementSize rest
  let piece ← slice? s 0 stop
  let behind ← slice? s stop s.utf8ByteSize
  return (piece, behind)

/-- The pieces of a parameter list, taken one after the other until nothing is left. A round that
takes nothing would be repeated for ever. -/
def pieces? (s : String) : Option (List String) :=
  if s.isEmpty then some []
  else match takePiece? s with
    | none => none
    | some (piece, behind) =>
      if behind.utf8ByteSize < s.utf8ByteSize then (pieces? behind).map (piece :: ·) else none
  termination_by s.utf8ByteSize

/-- The parameter list and the return type in a descriptor. -/
def split? (descriptor : String) : Option (String × String) :=
  match firstOffset? '(' descriptor.toList, lastOffset? ')' descriptor.toList with
  | some opening, some closing =>
    if opening < closing then do
      let parameters ← slice? descriptor (opening + 1) closing
      let ret ← slice? descriptor (closing + 1) descriptor.utf8ByteSize
      return (parameters, ret)
    else do
      let ret ← slice? descriptor (closing + 1) descriptor.utf8ByteSize
      return ("", ret)
  | none, some closing => do
    let ret ← slice? descriptor (closing + 1) descriptor.utf8ByteSize
    return ("", ret)
  | _, none => some ("", descriptor)

/-- The types that a descriptor spells. -/
def signature? (descriptor : String) : Option Signature := do
  let (parameters, ret) ← split? descriptor
  let pieces ← pieces? parameters
  return {
    returnType := if ret.isEmpty then "void" else typeName ret
    parameters := pieces.map typeName }

/-! ### Pieces -/

theorem size_throughSemicolon (cs : List Char) : size (throughSemicolon cs).1 =
    match firstOffset? ';' cs with
    | some i => i + 1
    | none => size cs := by
  by_cases h : ';' ∈ cs
  · obtain ⟨front, back, rfl, hfront⟩ := List.eq_append_cons_of_mem h
    rw [throughSemicolon_concat hfront, firstOffset?_append hfront, size_append]
    rfl
  · rw [throughSemicolon_of_notMem h, firstOffset?_of_notMem h]

/-- Without brackets in front the first byte decides how long the first piece is. -/
theorem elementSize_eq {rest : String} (h : rest.toList.head? ≠ some '[') :
    elementSize rest = size (takePiece rest.toList).1 := by
  rw [elementSize, head?_bytes, ← size_toList]
  cases hrest : rest.toList with
  | nil => rfl
  | cons c cs =>
    have hbracket : c ≠ '[' := by
      rintro rfl
      exact h (by rw [hrest, List.head?_cons])
    have hhead : (String.utf8EncodeChar c).head? = some 'L'.toUInt8 ↔ c = 'L' :=
      head?_utf8EncodeChar_eq_iff (by decide)
    obtain ⟨first, more, hcode⟩ := List.exists_cons_of_ne_nil (@String.utf8EncodeChar_ne_nil c)
    rw [hcode, List.head?_cons, Option.some_inj] at hhead
    simp only [List.head?_cons, Option.bind_some, hcode, hhead]
    by_cases hclass : c = 'L'
    · subst hclass
      have hoffset : firstOffset? ';' ('L' :: cs) = (firstOffset? ';' cs).map (1 + ·) := rfl
      rw [if_pos rfl, takePiece, size_cons, size_cons, size_throughSemicolon, hoffset]
      cases firstOffset? ';' cs with
      | none => rfl
      | some i => exact Nat.add_assoc 1 i 1
    · rw [if_neg hclass, takePiece_single hbracket hclass, size_cons, size_nil, Nat.add_zero]

theorem length_takeWhile_brackets {n : Nat} {rest : List Char} (h : rest.head? ≠ some '[') :
    ((bytes (String.ofList (List.replicate n '[' ++ rest))).takeWhile
      (· == '['.toUInt8)).length = n := by
  have hrest : rest.takeWhile (· == '[') = [] := by
    cases rest with
    | nil => rfl
    | cons c rest => exact List.takeWhile_cons_of_neg (by simpa using h)
  rw [length_takeWhile_bytes (by decide), String.toList_ofList,
    List.takeWhile_append_of_pos (by simp), hrest, List.append_nil, List.length_replicate]

/-- A round takes the first piece; all its slices are there. -/
theorem takePiece?_eq (cs : List Char) : takePiece? (String.ofList cs) =
    some (String.ofList (takePiece cs).1, String.ofList (takePiece cs).2) := by
  obtain ⟨n, rest, rfl, hrest⟩ := exists_brackets cs
  let piece := List.replicate n '[' ++ (takePiece rest).1
  let behind := (takePiece rest).2
  have hbrackets : n = (String.ofList (List.replicate n '[')).utf8ByteSize := by
    rw [utf8ByteSize_ofList, size_replicate, utf8Size_eq_one (by decide), Nat.mul_one]
  have hstop : n + elementSize (String.ofList rest) = (String.ofList piece).utf8ByteSize := by
    rw [elementSize_eq (by rwa [String.toList_ofList]), utf8ByteSize_ofList, size_append,
      String.toList_ofList, ← utf8ByteSize_ofList (List.replicate n '['), ← hbrackets]
  have hcut : String.ofList (List.replicate n '[' ++ rest) =
      String.ofList piece ++ String.ofList behind := by
    rw [← String.ofList_append, List.append_assoc, takePiece_append]
  have hslice : slice? (String.ofList (List.replicate n '[' ++ rest)) n
      (String.ofList (List.replicate n '[' ++ rest)).utf8ByteSize = some (String.ofList rest) := by
    have h := slice?_back (String.ofList (List.replicate n '[')) (String.ofList rest)
    rwa [← String.ofList_append, ← hbrackets] at h
  rw [takePiece?, length_takeWhile_brackets hrest, hslice, takePiece_replicate]
  simp only [Option.bind_eq_bind, Option.bind_some, hstop]
  rw [hcut, slice?_front, slice?_back]
  rfl

/-- A round takes at least one byte. -/
theorem size_takePiece_lt {cs : List Char} (h : cs ≠ []) : size (takePiece cs).2 < size cs := by
  have hcut := congrArg size (takePiece_append cs)
  have hpos : size (takePiece cs).1 ≠ 0 := mt eq_nil_of_size_eq_zero (takePiece_ne_nil h)
  rw [size_append] at hcut
  omega

/-- The loop ends, and all its slices are there. -/
theorem pieces?_eq (cs : List Char) :
    pieces? (String.ofList cs) = some ((pieces cs).map String.ofList) := by
  fun_induction pieces cs with
  | case1 =>
    rw [pieces?]
    rfl
  | case2 cs h ih =>
    have hne : (String.ofList cs).isEmpty = false := by
      simpa using h
    have hlt : (String.ofList (takePiece cs).2).utf8ByteSize < (String.ofList cs).utf8ByteSize := by
      rw [utf8ByteSize_ofList, utf8ByteSize_ofList]
      exact size_takePiece_lt h
    rw [pieces?, hne, takePiece?_eq]
    simp only [Bool.false_eq_true, if_false, if_pos hlt, ih]
    rfl

/-! ### Parameters and return type -/

variable {d parameters ret : String}

/-- What stands behind a character of one byte is a slice. -/
theorem slice?_behind {front mark back : String} (hd : d = front ++ mark ++ back)
    (hmark : mark.utf8ByteSize = 1) :
    slice? d (front.utf8ByteSize + 1) d.utf8ByteSize = some back := by
  have h := slice?_back (front ++ mark) back
  rwa [← hd, String.utf8ByteSize_append, hmark] at h

theorem split?_between {front : String} (hd : d = front ++ "(" ++ parameters ++ ")" ++ ret)
    (hopening : '(' ∉ front.toList) (hclosing : ')' ∉ ret.toList) :
    split? d = some (parameters, ret) := by
  have hsize : (front ++ "(" ++ parameters).utf8ByteSize =
      front.utf8ByteSize + 1 + parameters.utf8ByteSize := by
    rw [String.utf8ByteSize_append, String.utf8ByteSize_append]
    rfl
  have hfirst : firstOffset? '(' d.toList = some front.utf8ByteSize := by
    have hchars : d.toList = front.toList ++ '(' :: (parameters.toList ++ ')' :: ret.toList) := by
      simp [hd]
    rw [hchars, firstOffset?_append hopening, size_toList]
  have hlast : lastOffset? ')' d.toList = some (front ++ "(" ++ parameters).utf8ByteSize := by
    have hchars : d.toList = (front ++ "(" ++ parameters).toList ++ ')' :: ret.toList := by
      simp [hd]
    rw [hchars, lastOffset?_append hclosing, size_toList]
  have hparameters : slice? d (front.utf8ByteSize + 1) (front ++ "(" ++ parameters).utf8ByteSize =
      some parameters := by
    refine slice?_eq_some_iff.2 ⟨front ++ "(", ")" ++ ret, ?_, ?_, hsize⟩
    · rw [hd, String.append_assoc]
    · rw [String.utf8ByteSize_append]
      rfl
  have hret := slice?_behind hd rfl
  have hlt : front.utf8ByteSize < (front ++ "(" ++ parameters).utf8ByteSize := by
    omega
  rw [split?, hfirst, hlast]
  simp only [if_pos hlt, hparameters, hret]
  rfl

theorem split?_unopened {front : String} (hd : d = front ++ ")" ++ ret)
    (hopening : '(' ∉ front.toList) (hclosing : ')' ∉ ret.toList) :
    split? d = some ("", ret) := by
  have hchars : d.toList = front.toList ++ ')' :: ret.toList := by
    simp [hd]
  have hlast : lastOffset? ')' d.toList = some front.utf8ByteSize := by
    rw [hchars, lastOffset?_append hclosing, size_toList]
  have hret := slice?_behind hd rfl
  rw [split?, hlast]
  cases hfirst : firstOffset? '(' d.toList with
  | none =>
    simp only [hret]
    rfl
  | some opening =>
    -- the first opening parenthesis stands behind the last closing one
    have hle : ¬ opening < front.utf8ByteSize := by
      rw [hchars] at hfirst
      rw [← size_toList, Nat.not_lt]
      exact size_le_of_firstOffset? hopening hfirst
    simp only [if_neg hle, hret]
    rfl

theorem Parted.split?_eq (h : Parted d parameters ret) : split? d = some (parameters, ret) := by
  cases h with
  | between hd hopening hclosing => exact split?_between hd hopening hclosing
  | unopened hd hopening hclosing => exact split?_unopened hd hopening hclosing
  | bare hclosing =>
    rw [split?, lastOffset?_of_notMem hclosing]
    cases firstOffset? '(' d.toList <;> rfl

/-! ### Signatures -/

theorem pieces?_toList (s : String) :
    pieces? s = some ((pieces s.toList).map String.ofList) := by
  have h := pieces?_eq s.toList
  rwa [String.ofList_toList] at h

/-- Reading in place gives the signature. -/
theorem signature?_eq (d : String) : signature? d = some (signature d) := by
  obtain ⟨parameters, ret, h⟩ := exists_parted d
  have hempty : ret.toList.isEmpty = ret.isEmpty := by
    rw [Bool.eq_iff_iff, List.isEmpty_iff, String.toList_eq_nil_iff, String.isEmpty_iff]
  have hname : ∀ piece, typeName (String.ofList piece) = String.ofList (typeNameOf piece) := by
    intro piece
    rw [typeName, String.toList_ofList]
  rw [signature?, h.split?_eq, signature, h.split_eq]
  simp only [Option.bind_eq_bind, Option.bind_some, pieces?_toList, hempty, List.map_map,
    Function.comp_def, hname]
  rfl

theorem takePiece?_toList (s : String) : takePiece? s =
    some (String.ofList (takePiece s.toList).1, String.ofList (takePiece s.toList).2) := by
  have h := takePiece?_eq s.toList
  rwa [String.ofList_toList] at h

theorem exists_takePiece? {s : String} (h : s ≠ "") : ∃ piece behind,
    takePiece? s = some (piece, behind) ∧ s = piece ++ behind ∧
      behind.utf8ByteSize < s.utf8ByteSize := by
  have hcut : s = String.ofList (takePiece s.toList).1 ++ String.ofList (takePiece s.toList).2 := by
    rw [← String.ofList_append, takePiece_append, String.ofList_toList]
  refine ⟨_, _, takePiece?_toList s, hcut, ?_⟩
  rw [utf8ByteSize_ofList, ← size_toList s]
  exact size_takePiece_lt (mt String.toList_eq_nil_iff.1 h)

/-- **Reading in place is safe and loses nothing.** All slices that are taken from a descriptor are
there, the loop that takes pieces ends, because each round takes at least one byte, and the
signature is read. The pieces that are named are the only way to cut the text between the
parentheses. -/
theorem signature_read_in_place (d : String) :
    signature? d = some (signature d) ∧
    (∀ s, s ≠ "" → ∃ piece behind, takePiece? s = some (piece, behind) ∧ s = piece ++ behind ∧
      behind.utf8ByteSize < s.utf8ByteSize) ∧
    ∃ parameters ret ps, split? d = some (parameters, ret) ∧ Parted d parameters ret ∧
      pieces? parameters = some ps ∧ (signature d).parameters = ps.map typeName ∧
      String.join ps = parameters ∧
      ∀ cut, Cuts parameters.toList cut ↔ ps.map String.toList = cut := by
  obtain ⟨parameters, ret, h⟩ := exists_parted d
  have hchars : ((pieces parameters.toList).map String.ofList).map String.toList =
      pieces parameters.toList := by
    simp [Function.comp_def]
  refine ⟨signature?_eq d, fun s => exists_takePiece?, parameters, ret,
    (pieces parameters.toList).map String.ofList, h.split?_eq, h, pieces?_toList parameters,
    ?_, ?_, ?_⟩
  · rw [signature, h.split_eq, List.map_map]
    simp only [Function.comp_def, typeName, String.toList_ofList]
  · rw [← String.toList_inj, String.toList_join, List.flatMap_def, hchars]
    exact (cuts_pieces parameters.toList).flatten_eq
  · intro cut
    rw [hchars]
    exact pieces_eq_iff.symm

end Descriptor

end IrView
