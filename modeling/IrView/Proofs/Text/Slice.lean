import IrView.Number.Basic
import IrView.Proofs.Text.ByteOrder

/-!
# Slices of a text by bytes

Offsets count bytes of UTF-8. A slice is there only if it starts and ends between two characters,
inside the text, and does not end before it starts (`Text.slice?_eq_some_iff`). Offsets of ASCII
characters, one byte each, always stand between two characters (`Text.firstOffset?_append`,
`Text.lastOffset?_append`), and no byte of another character looks like one
(`Text.head?_utf8EncodeChar_eq_iff`).
-/

namespace IrView

namespace Text

/-! ### Sizes -/

/-- The number of bytes of some characters. -/
def size (cs : List Char) : Nat :=
  Number.total Char.utf8Size cs

@[simp] theorem size_nil : size [] = 0 :=
  rfl

@[simp] theorem size_cons (c : Char) (cs : List Char) : size (c :: cs) = c.utf8Size + size cs :=
  rfl

@[simp] theorem size_append (cs cs' : List Char) : size (cs ++ cs') = size cs + size cs' := by
  induction cs with
  | nil => exact (Nat.zero_add _).symm
  | cons c cs ih => rw [List.cons_append, size_cons, size_cons, ih, Nat.add_assoc]

theorem size_toList (s : String) : size s.toList = s.utf8ByteSize := by
  obtain ⟨cs, rfl⟩ := s.exists_eq_ofList
  rw [String.toList_ofList]
  induction cs with
  | nil => rfl
  | cons c cs ih =>
    rw [size_cons, ih, String.ofList_cons, String.utf8ByteSize_append]
    simp

theorem utf8ByteSize_ofList (cs : List Char) : (String.ofList cs).utf8ByteSize = size cs := by
  rw [← size_toList, String.toList_ofList]

theorem size_replicate (n : Nat) (c : Char) : size (List.replicate n c) = n * c.utf8Size := by
  induction n with
  | zero => exact (Nat.zero_mul _).symm
  | succ n ih => rw [List.replicate_succ, size_cons, ih, Nat.succ_mul, Nat.add_comm]

theorem eq_nil_of_size_eq_zero {cs : List Char} (h : size cs = 0) : cs = [] := by
  cases cs with
  | nil => rfl
  | cons c cs =>
    have hpos := c.utf8Size_pos
    rw [size_cons] at h
    omega

/-! ### Slices -/

/-- The bytes from `start` up to `stop`, if these are boundaries of characters and in order. -/
def slice? (s : String) (start stop : Nat) : Option String :=
  if h : String.Pos.Raw.IsValid s ⟨start⟩ ∧ String.Pos.Raw.IsValid s ⟨stop⟩ ∧ start ≤ stop then
    some (s.extract (s.pos ⟨start⟩ h.1) (s.pos ⟨stop⟩ h.2.1))
  else none

variable {s : String} {start stop : Nat}

theorem isValid_iff : String.Pos.Raw.IsValid s ⟨start⟩ ↔
    ∃ front back, s = front ++ back ∧ start = front.utf8ByteSize := by
  simp [String.Pos.Raw.isValid_iff_exists_append, String.Pos.Raw.ext_iff]

theorem slice?_append (front middle back : String) :
    slice? (front ++ middle ++ back) front.utf8ByteSize
      (front.utf8ByteSize + middle.utf8ByteSize) = some middle := by
  have hstart : String.Pos.Raw.IsValid (front ++ middle ++ back) ⟨front.utf8ByteSize⟩ :=
    isValid_iff.2 ⟨front, middle ++ back, String.append_assoc, rfl⟩
  have hstop : String.Pos.Raw.IsValid (front ++ middle ++ back)
      ⟨front.utf8ByteSize + middle.utf8ByteSize⟩ :=
    isValid_iff.2 ⟨front ++ middle, back, rfl, String.utf8ByteSize_append.symm⟩
  have hbytes : (front ++ middle ++ back).toByteArray.extract front.utf8ByteSize
      (front.utf8ByteSize + middle.utf8ByteSize) = middle.toByteArray := by
    have hsize : front.utf8ByteSize = front.toByteArray.size + 0 := String.size_toByteArray.symm
    rw [String.append_assoc, String.toByteArray_append, hsize, Nat.add_assoc,
      ByteArray.extract_append_size_add, Nat.zero_add, String.toByteArray_append,
      ← String.size_toByteArray, ByteArray.extract_append_eq_left rfl]
  rw [slice?, dif_pos ⟨hstart, hstop, Nat.le_add_right _ _⟩, Option.some_inj,
    ← String.toByteArray_inj]
  exact hbytes

/-- **Slices.** A slice is what stands between two parts of the text, whose sizes are its bounds. -/
theorem slice?_eq_some_iff {t : String} : slice? s start stop = some t ↔
    ∃ front back, s = front ++ t ++ back ∧ start = front.utf8ByteSize ∧
      stop = start + t.utf8ByteSize := by
  constructor
  · intro h
    have hbounds : String.Pos.Raw.IsValid s ⟨start⟩ ∧ String.Pos.Raw.IsValid s ⟨stop⟩ ∧
        start ≤ stop := by
      by_contra hno
      rw [slice?, dif_neg hno] at h
      cases h
    obtain ⟨hstart, hstop, hle⟩ := hbounds
    obtain ⟨front, rest, hs, rfl⟩ := isValid_iff.1 hstart
    obtain ⟨upto, back, hs', rfl⟩ := isValid_iff.1 hstop
    -- what stands in front of the end begins with what stands in front of the start
    have hmiddle : ∃ middle, upto = front ++ middle := by
      have hlists : front.toList ++ rest.toList = upto.toList ++ back.toList := by
        rw [← String.toList_append, ← String.toList_append, ← hs, hs']
      obtain ⟨middle, hupto, -⟩ | ⟨middle, hfront, -⟩ := List.append_eq_append_iff.1 hlists
      · refine ⟨String.ofList middle, String.toList_inj.1 ?_⟩
        rw [hupto, String.toList_append, String.toList_ofList]
      · have hsize : size middle = 0 := by
          rw [← size_toList, ← size_toList, hfront, size_append] at hle
          omega
        rw [eq_nil_of_size_eq_zero hsize, List.append_nil] at hfront
        exact ⟨"", by rw [String.append_empty, String.toList_inj.1 hfront]⟩
    obtain ⟨middle, rfl⟩ := hmiddle
    rw [hs', String.utf8ByteSize_append, slice?_append, Option.some_inj] at h
    subst h
    exact ⟨front, back, hs', rfl, String.utf8ByteSize_append⟩
  · rintro ⟨front, back, rfl, rfl, rfl⟩
    exact slice?_append front t back

/-- There is no slice that ends inside a character. -/
example : slice? "é" 0 1 = none ∧ slice? "é" 0 2 = some "é" := by decide

theorem slice?_front (front back : String) :
    slice? (front ++ back) 0 front.utf8ByteSize = some front :=
  slice?_eq_some_iff.2 ⟨"", back, by rw [String.empty_append], rfl, (Nat.zero_add _).symm⟩

theorem slice?_back (front back : String) :
    slice? (front ++ back) front.utf8ByteSize (front ++ back).utf8ByteSize = some back :=
  slice?_eq_some_iff.2 ⟨front, "", String.append_empty.symm, rfl, String.utf8ByteSize_append⟩

/-! ### Offsets of characters -/

/-- The number of bytes in front of the first occurrence of a character, if it occurs. -/
def firstOffset? (mark : Char) : List Char → Option Nat
  | [] => none
  | c :: cs => if c = mark then some 0 else (firstOffset? mark cs).map (c.utf8Size + ·)

/-- The number of bytes in front of the last occurrence of a character, if it occurs. -/
def lastOffset? (mark : Char) : List Char → Option Nat
  | [] => none
  | c :: cs =>
    match lastOffset? mark cs with
    | some i => some (c.utf8Size + i)
    | none => if c = mark then some 0 else none

variable {mark : Char} {front back cs : List Char}

theorem firstOffset?_append (h : mark ∉ front) :
    firstOffset? mark (front ++ mark :: back) = some (size front) := by
  induction front with
  | nil => exact if_pos rfl
  | cons c front ih =>
    rw [List.mem_cons, not_or] at h
    rw [List.cons_append, firstOffset?, if_neg (Ne.symm h.1), ih h.2]
    rfl

theorem firstOffset?_of_notMem (h : mark ∉ cs) : firstOffset? mark cs = none := by
  induction cs with
  | nil => rfl
  | cons c cs ih =>
    rw [List.mem_cons, not_or] at h
    rw [firstOffset?, if_neg (Ne.symm h.1), ih h.2]
    rfl

theorem size_le_of_firstOffset? {i : Nat} (h : mark ∉ front)
    (hi : firstOffset? mark (front ++ back) = some i) : size front ≤ i := by
  induction front generalizing i with
  | nil => exact Nat.zero_le i
  | cons c front ih =>
    rw [List.mem_cons, not_or] at h
    rw [List.cons_append, firstOffset?, if_neg (Ne.symm h.1)] at hi
    obtain ⟨j, hj, rfl⟩ := Option.map_eq_some_iff.1 hi
    have hle := ih h.2 hj
    rw [size_cons]
    omega

theorem lastOffset?_of_notMem (h : mark ∉ cs) : lastOffset? mark cs = none := by
  induction cs with
  | nil => rfl
  | cons c cs ih =>
    rw [List.mem_cons, not_or] at h
    rw [lastOffset?, ih h.2]
    exact if_neg (Ne.symm h.1)

theorem lastOffset?_append (h : mark ∉ back) :
    lastOffset? mark (front ++ mark :: back) = some (size front) := by
  induction front with
  | nil =>
    rw [List.nil_append, lastOffset?, lastOffset?_of_notMem h]
    exact if_pos rfl
  | cons c front ih =>
    rw [List.cons_append, lastOffset?, ih]
    rfl

/-! ### Bytes of ASCII characters -/

/-- The code of no other character begins with the byte of an ASCII character. -/
theorem head?_utf8EncodeChar_eq_iff {c : Char} (hmark : mark.toNat ≤ 127) :
    (String.utf8EncodeChar c).head? = some mark.toUInt8 ↔ c = mark := by
  have hbyte : mark.toUInt8.toNat = mark.toNat := by
    rw [Char.toUInt8, UInt32.toNat_toUInt8]
    exact Nat.mod_eq_of_lt (Nat.lt_of_le_of_lt hmark (by decide))
  rw [← Char.toNat_inj, String.utf8EncodeChar]
  show _ ↔ c.val.toNat = mark.toNat
  split_ifs <;>
    rw [List.head?_cons, Option.some_inj, ← UInt8.toNat_inj, hbyte, UInt8.toNat_ofNat'] <;> omega

theorem utf8Size_eq_one (hmark : mark.toNat ≤ 127) : mark.utf8Size = 1 :=
  Char.utf8Size_eq_one_iff.2 hmark

theorem head?_bytes (s : String) : (bytes s).head? = s.toList.head?.bind fun c =>
    (String.utf8EncodeChar c).head? := by
  rw [bytes_eq_flatMap]
  cases s.toList with
  | nil => rfl
  | cons c cs =>
    obtain ⟨first, more, hcode⟩ := List.exists_cons_of_ne_nil (@String.utf8EncodeChar_ne_nil c)
    simp [hcode]

/-- Counting the bytes of an ASCII character at the front counts the character. -/
theorem length_takeWhile_bytes (hmark : mark.toNat ≤ 127) (s : String) :
    ((bytes s).takeWhile (· == mark.toUInt8)).length =
      (s.toList.takeWhile (· == mark)).length := by
  rw [bytes_eq_flatMap]
  induction s.toList with
  | nil => rfl
  | cons c cs ih =>
    have hhead := head?_utf8EncodeChar_eq_iff (c := c) hmark
    obtain ⟨first, more, hcode⟩ := List.exists_cons_of_ne_nil (@String.utf8EncodeChar_ne_nil c)
    rw [hcode, List.head?_cons, Option.some_inj] at hhead
    rw [List.flatMap_cons, hcode, List.cons_append]
    by_cases hc : c = mark
    · have hmore : more = [] := by
        have hlength := String.length_utf8EncodeChar c
        rw [hcode, List.length_cons, hc, utf8Size_eq_one hmark] at hlength
        exact List.length_eq_zero_iff.1 (by omega)
      rw [List.takeWhile_cons_of_pos (by simp [hhead, hc]),
        List.takeWhile_cons_of_pos (by simp [hc]), hmore, List.nil_append, List.length_cons,
        List.length_cons, ih]
    · rw [List.takeWhile_cons_of_neg (by simp [hhead, hc]),
        List.takeWhile_cons_of_neg (by simp [hc])]
      rfl

end Text

end IrView
