import Mathlib.Data.String.Basic

/-!
# Texts in the order of their bytes

Texts are compared character by character. In UTF-8 that is the order of their bytes
(`Text.bytes_le_of_le`): of two characters the greater one has the greater bytes, because a longer
code has a greater first byte, and in codes of one length the bits come from the top down.
-/

namespace IrView

namespace Text

/-- The bytes of a text in UTF-8. -/
def bytes (text : String) : List UInt8 :=
  text.toByteArray.data.toList

theorem bytes_eq_flatMap (text : String) :
    bytes text = text.toList.flatMap String.utf8EncodeChar := by
  rw [bytes, ← String.utf8Encode_toList, List.utf8Encode, List.toList_data_toByteArray]

/-! ### Codes -/

theorem first_lt {a b : Nat} (h : a < b) (hb : b < 256) (s t : List UInt8) :
    UInt8.ofNat a :: s < UInt8.ofNat b :: t := by
  refine List.cons_lt_cons_iff.2 (Or.inl ?_)
  rwa [UInt8.lt_iff_toNat_lt, UInt8.toNat_ofNat_of_lt' (h.trans hb), UInt8.toNat_ofNat_of_lt' hb]

/-- Greater numbers below `n` have greater codes, whatever stands behind the codes. -/
def Ordered (n : Nat) (code : Nat → List UInt8) : Prop :=
  ∀ v w, v < w → w < n → ∀ s t, code v ++ s < code w ++ t

/-- A first byte has its mark above the bits of the number. -/
theorem ordered_first {n mark : Nat} (h : n + mark ≤ 256) :
    Ordered n fun v => [UInt8.ofNat (v % n + mark)] := by
  intro v w hlt hw s t
  refine first_lt ?_ ?_ s t
  · rw [Nat.mod_eq_of_lt hw, Nat.mod_eq_of_lt (hlt.trans hw)]
    omega
  · rw [Nat.mod_eq_of_lt hw]
    omega

/-- A further byte holds six bits more. -/
theorem Ordered.extend {n : Nat} {code : Nat → List UInt8} (h : Ordered n code) :
    Ordered (n * 64) fun v => code (v / 64) ++ [UInt8.ofNat (v % 64 + 128)] := by
  intro v w hlt hw s t
  dsimp only
  rw [List.append_assoc, List.append_assoc]
  rcases (Nat.div_le_div_right hlt.le : v / 64 ≤ w / 64).lt_or_eq with hdiv | hdiv
  · exact h _ _ hdiv (Nat.div_lt_of_lt_mul (by omega)) _ _
  · rw [hdiv]
    exact List.append_left_lt (first_lt (by omega) (by omega) s t)

theorem ordered_two :
    Ordered 2048 fun v => [UInt8.ofNat (v / 64 % 32 + 192), UInt8.ofNat (v % 64 + 128)] :=
  (ordered_first (by decide : 32 + 192 ≤ 256)).extend

theorem ordered_three : Ordered 65536 fun v =>
    [UInt8.ofNat (v / 4096 % 16 + 224), UInt8.ofNat (v / 64 % 64 + 128),
      UInt8.ofNat (v % 64 + 128)] := by
  have h := (ordered_first (by decide : 16 + 224 ≤ 256)).extend.extend
  simpa only [Nat.div_div_eq_div_mul, List.cons_append, List.nil_append] using h

theorem ordered_four : Ordered 2097152 fun v =>
    [UInt8.ofNat (v / 262144 % 8 + 240), UInt8.ofNat (v / 4096 % 64 + 128),
      UInt8.ofNat (v / 64 % 64 + 128), UInt8.ofNat (v % 64 + 128)] := by
  have h := (ordered_first (by decide : 8 + 240 ≤ 256)).extend.extend.extend
  simpa only [Nat.div_div_eq_div_mul, List.cons_append, List.nil_append] using h

/-! ### Characters and texts -/

theorem lt_of_isValidChar {v : Nat} (h : v.isValidChar) : v < 1114112 := by
  obtain h | ⟨-, h⟩ := h
  · omega
  · exact h

theorem utf8EncodeChar_append_lt {c d : Char} (h : c < d) (s t : List UInt8) :
    String.utf8EncodeChar c ++ s < String.utf8EncodeChar d ++ t := by
  have hlt : c.val.toNat < d.val.toNat := h
  have hd : d.val.toNat < 1114112 := lt_of_isValidChar d.valid
  unfold String.utf8EncodeChar
  generalize c.val.toNat = v at hlt
  generalize d.val.toNat = w at hlt hd
  dsimp only
  split_ifs
  -- one byte
  · exact first_lt hlt (by omega) s t
  · exact first_lt (by omega) (by omega) _ _
  · exact first_lt (by omega) (by omega) _ _
  · exact first_lt (by omega) (by omega) _ _
  -- two bytes, so `d` has not fewer
  · omega
  · exact ordered_two v w hlt (by omega) s t
  · exact first_lt (by omega) (by omega) _ _
  · exact first_lt (by omega) (by omega) _ _
  -- three bytes
  · omega
  · omega
  · exact ordered_three v w hlt (by omega) s t
  · exact first_lt (by omega) (by omega) _ _
  -- four bytes
  · omega
  · omega
  · omega
  · exact ordered_four v w hlt (by omega) s t

theorem flatMap_utf8EncodeChar_lt {l m : List Char} (h : l < m) :
    l.flatMap String.utf8EncodeChar < m.flatMap String.utf8EncodeChar := by
  induction l generalizing m with
  | nil =>
    cases m with
    | nil => exact absurd h (List.not_lt_nil _)
    | cons d m =>
      have hne : String.utf8EncodeChar d ++ m.flatMap String.utf8EncodeChar ≠ [] :=
        List.append_ne_nil_of_left_ne_nil String.utf8EncodeChar_ne_nil _
      rw [List.flatMap_nil, List.flatMap_cons]
      obtain ⟨x, xs, hx⟩ := List.exists_cons_of_ne_nil hne
      rw [hx]
      exact List.nil_lt_cons x xs
  | cons c l ih =>
    cases m with
    | nil => exact absurd h (List.not_lt_nil _)
    | cons d m =>
      rw [List.flatMap_cons, List.flatMap_cons]
      rcases List.cons_lt_cons_iff.1 h with hlt | ⟨rfl, hlt⟩
      · exact utf8EncodeChar_append_lt hlt _ _
      · exact List.append_left_lt (ih hlt)

/-- A text that does not come later has bytes that do not come later. -/
theorem bytes_le_of_le {a b : String} (h : a ≤ b) : bytes a ≤ bytes b := by
  rcases h.lt_or_eq with hlt | rfl
  · rw [bytes_eq_flatMap, bytes_eq_flatMap]
    exact List.le_of_lt (flatMap_utf8EncodeChar_lt (String.lt_iff.1 hlt))
  · exact List.le_refl _

end Text

end IrView
