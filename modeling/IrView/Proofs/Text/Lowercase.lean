import Mathlib.Logic.Basic
import IrView.Text.Lowercase

/-!
# The lowercase form of a part of a text

Only a capital sigma looks at its neighbors, so a part of a text is lowercased as it is alone except
for its sigmas, and a sigma looks past the part only over characters that are passed over. A part
all of whose sigmas are decided inside it (`SigmasSettled`) is lowercased alike in every text
(`lowerIn_eq_of_settled`). In any other part there is one sigma that a letter put in front or behind
turns into the other form (`exists_unsettled`).

The proofs look up `Σ` and `a` in the tables of characters, and nothing else.
-/

namespace IrView

namespace Text

variable {c : Char} {xs ys cs before before' after after' : List Char}

theorem isPassedOver_sigma : isPassedOver 'Σ' = false := by decide +kernel

theorem isPassedOver_a : isPassedOver 'a' = false := by decide +kernel

theorem isCased_a : isCased 'a' = true := by decide +kernel

theorem lowerChar_a : lowerChar 'a' = 'a' := by decide +kernel

theorem sigma_notMem (h : cs.all isPassedOver = true) : 'Σ' ∉ cs := fun hmem =>
  absurd (List.all_eq_true.1 h 'Σ' hmem) (Bool.eq_false_iff.1 isPassedOver_sigma)

/-! ### The next letter -/

theorem casedNext_cons :
    casedNext (c :: cs) = if isPassedOver c then casedNext cs else isCased c := by
  unfold casedNext
  cases hc : isPassedOver c <;> simp [hc]

theorem casedNext_a : casedNext ['a'] = true := by
  rw [casedNext_cons, isPassedOver_a, if_neg Bool.false_ne_true, isCased_a]

/-- What stands behind `xs` counts only if all of `xs` is passed over. -/
theorem casedNext_append :
    casedNext (xs ++ ys) = if xs.all isPassedOver then casedNext ys else casedNext xs := by
  induction xs with
  | nil => rfl
  | cons c xs ih =>
    rw [List.cons_append, casedNext_cons, casedNext_cons, List.all_cons, ih]
    cases isPassedOver c <;> simp

theorem casedNext_of_all (h : xs.all isPassedOver = true) : casedNext xs = false := by
  calc casedNext xs = casedNext (xs ++ []) := by rw [List.append_nil]
    _ = casedNext [] := by rw [casedNext_append, if_pos h]
    _ = false := rfl

/-- Something without a letter behind `xs` is as good as nothing. -/
theorem casedNext_append_of_false (h : casedNext ys = false) :
    casedNext (xs ++ ys) = casedNext xs := by
  rw [casedNext_append, h]
  split
  · next hall => exact (casedNext_of_all hall).symm
  · rfl

/-- A search does not go past a sigma. -/
theorem casedNext_append_sigma :
    casedNext (xs ++ 'Σ' :: ys) = casedNext (xs ++ 'Σ' :: cs) := by
  simp only [casedNext_append, casedNext_cons, isPassedOver_sigma, Bool.false_eq_true, if_false]

/-! ### A part between its neighbors -/

/-- The lowercase form of a part of a text between the characters `before` (nearest first) and
`after`. -/
def lowerIn (before : List Char) : List Char → List Char → List Char
  | [], _ => []
  | c :: cs, after => lowerAt before c (cs ++ after) ++ lowerIn (c :: before) cs after

theorem lowerFrom_eq_lowerIn : lowerFrom before cs = lowerIn before cs [] := by
  induction cs generalizing before with
  | nil => rfl
  | cons c cs ih => rw [lowerFrom, lowerIn, List.append_nil, ih]

theorem lowerIn_append : lowerIn before (xs ++ ys) after =
    lowerIn before xs (ys ++ after) ++ lowerIn (xs.reverse ++ before) ys after := by
  induction xs generalizing before with
  | nil => rfl
  | cons c xs ih =>
    rw [List.cons_append, lowerIn, lowerIn, ih, List.append_assoc, List.append_assoc,
      List.reverse_cons, List.append_assoc]
    rfl

/-- Whether a sigma is the last letter of a word. -/
def isFinal (before after : List Char) : Bool :=
  casedNext before && !casedNext after

theorem lowerAt_sigma :
    lowerAt before 'Σ' after = [if isFinal before after then 'ς' else 'σ'] := rfl

theorem lowerAt_of_ne (h : c ≠ 'Σ') : lowerAt before c after = lowerAt before' c after' := by
  rw [lowerAt, lowerAt, if_neg h, if_neg h]

/-- Neighbors that agree on every sigma give a part the same lowercase form. -/
theorem lowerIn_congr (h : ∀ xs ys, cs = xs ++ 'Σ' :: ys →
      isFinal (xs.reverse ++ before) (ys ++ after) =
        isFinal (xs.reverse ++ before') (ys ++ after')) :
    lowerIn before cs after = lowerIn before' cs after' := by
  induction cs generalizing before before' with
  | nil => rfl
  | cons c cs ih =>
    have hhead : lowerAt before c (cs ++ after) = lowerAt before' c (cs ++ after') := by
      by_cases hc : c = 'Σ'
      · subst hc
        have hfinal : isFinal before (cs ++ after) = isFinal before' (cs ++ after') := h [] cs rfl
        rw [lowerAt_sigma, lowerAt_sigma, hfinal]
      · exact lowerAt_of_ne hc
    rw [lowerIn, lowerIn, hhead, ih fun xs ys hcs => ?_]
    have hfinal := h (c :: xs) ys (by rw [hcs, List.cons_append])
    rwa [List.reverse_cons, List.append_assoc, List.append_assoc] at hfinal

theorem lowerIn_of_notMem (h : 'Σ' ∉ cs) :
    lowerIn before cs after = lowerIn before' cs after' := by
  refine lowerIn_congr fun xs ys hcs => absurd ?_ h
  rw [hcs]
  exact List.mem_append_cons_self

/-- A part of a text is lowercased between its neighbors. -/
theorem toList_lowercase {s : String} {front part back : List Char}
    (hs : s.toList = front ++ part ++ back) :
    (lowercase s).toList = lowerIn [] front (part ++ back) ++ lowerIn front.reverse part back ++
      lowerIn (part.reverse ++ front.reverse) back [] := by
  rw [lowercase, String.toList_ofList, lowerFrom_eq_lowerIn, hs, List.append_assoc, lowerIn_append,
    lowerIn_append]
  simp only [List.append_nil, List.append_assoc]

theorem lowerIn_a : lowerIn before ['a'] after = ['a'] := by
  have ha : ('a' : Char) ≠ 'Σ' := by decide
  have hi : ('a' : Char) ≠ 'İ' := by decide
  rw [lowerIn, lowerIn, lowerAt, if_neg ha, if_neg hi, lowerChar_a, List.append_nil]

theorem toList_lowercase_eq (s : String) : (lowercase s).toList = lowerIn [] s.toList [] := by
  rw [lowercase, String.toList_ofList, lowerFrom_eq_lowerIn]

/-! ### Parts that decide their sigmas -/

/-- Every sigma is decided inside the part: one that sees its front edge is followed by a letter,
and one that sees its back edge has no letter before it. -/
def SigmasSettled (cs : List Char) : Prop :=
  ∀ xs ys, cs = xs ++ 'Σ' :: ys →
    (xs.all isPassedOver = true → casedNext ys = true) ∧
    (ys.all isPassedOver = true → casedNext xs.reverse = false)

theorem settled_of_notMem (h : 'Σ' ∉ cs) : SigmasSettled cs := by
  rintro xs ys rfl
  exact absurd List.mem_append_cons_self h

/-- A settled sigma is the last letter of a word in every text, or in none. -/
theorem isFinal_eq_of_settled (hfront : xs.all isPassedOver = true → casedNext ys = true)
    (hback : ys.all isPassedOver = true → casedNext xs.reverse = false) :
    isFinal (xs.reverse ++ before) (ys ++ after) = isFinal xs.reverse ys := by
  have hall : xs.reverse.all isPassedOver = xs.all isPassedOver := List.all_reverse
  rw [isFinal, isFinal, casedNext_append, casedNext_append, hall]
  cases hxs : xs.all isPassedOver <;> cases hys : ys.all isPassedOver
  · rfl
  · simp [hback hys]
  · simp [hfront hxs]
  · -- nothing but characters that are passed over: there is no letter to follow
    have hnone : casedNext ys = false := casedNext_of_all hys
    rw [hfront hxs] at hnone
    cases hnone

theorem lowerIn_eq_of_settled (h : SigmasSettled cs) :
    lowerIn before cs after = lowerIn [] cs [] := by
  refine lowerIn_congr fun xs ys hcs => ?_
  obtain ⟨hfront, hback⟩ := h xs ys hcs
  rw [isFinal_eq_of_settled hfront hback, isFinal_eq_of_settled hfront hback]

/-- A part at the edges of words is lowercased as it is alone. -/
theorem lowerIn_eq_of_edges (hbefore : casedNext before = false)
    (hafter : casedNext after = false) : lowerIn before cs after = lowerIn [] cs [] := by
  refine lowerIn_congr fun xs ys _ => ?_
  rw [isFinal, isFinal, casedNext_append_of_false hbefore, casedNext_append_of_false hafter,
    List.append_nil, List.append_nil]

/-! ### Parts that do not -/

theorem lowerIn_sigma : lowerIn before (xs ++ 'Σ' :: ys) after =
    lowerIn before xs ('Σ' :: ys ++ after) ++
      (if isFinal (xs.reverse ++ before) (ys ++ after) then 'ς' else 'σ') ::
        lowerIn ('Σ' :: (xs.reverse ++ before)) ys after := by
  rw [lowerIn_append, lowerIn, lowerAt_sigma]
  rfl

/-- In front of a sigma, a part does not depend on what follows the sigma. -/
theorem lowerIn_before_sigma :
    lowerIn before cs ('Σ' :: after) = lowerIn before cs ('Σ' :: after') := by
  refine lowerIn_congr fun xs ys _ => ?_
  rw [isFinal, isFinal, casedNext_append_sigma]

/-- Behind a sigma, a part does not depend on what precedes the sigma. -/
theorem lowerIn_behind_sigma :
    lowerIn ('Σ' :: before) cs after = lowerIn ('Σ' :: before') cs after := by
  refine lowerIn_congr fun xs ys _ => ?_
  rw [isFinal, isFinal, casedNext_append_sigma]

/-- **A letter in front or behind turns a sigma that is not settled**, and that sigma alone. -/
theorem exists_unsettled (h : ¬ SigmasSettled cs) : ∃ front back,
    (lowerIn [] cs [] = front ++ 'σ' :: back ∧ lowerIn ['a'] cs [] = front ++ 'ς' :: back) ∨
    (lowerIn [] cs [] = front ++ 'ς' :: back ∧ lowerIn [] cs ['a'] = front ++ 'σ' :: back) := by
  simp only [SigmasSettled, not_forall, not_and_or, Bool.not_eq_true, Bool.not_eq_false] at h
  obtain ⟨xs, ys, rfl, ⟨hxs, hys⟩ | ⟨hys, hxs⟩⟩ := h
  · -- a letter in front is seen over `xs`, in which there is no sigma
    have hall : xs.reverse.all isPassedOver = true := by rw [List.all_reverse, hxs]
    have halone : isFinal (xs.reverse ++ []) (ys ++ []) = false := by
      rw [isFinal, List.append_nil, casedNext_of_all hall, Bool.false_and]
    have hletter : casedNext (xs.reverse ++ ['a']) = true := by
      rw [casedNext_append, if_pos hall, casedNext_a]
    have hseen : isFinal (xs.reverse ++ ['a']) (ys ++ []) = true := by
      rw [isFinal, hletter, List.append_nil, hys, Bool.not_false, Bool.and_self]
    have hfront : lowerIn ['a'] xs ('Σ' :: ys ++ []) = lowerIn [] xs ('Σ' :: ys ++ []) :=
      lowerIn_of_notMem (sigma_notMem hxs)
    refine ⟨lowerIn [] xs ('Σ' :: ys ++ []), lowerIn ('Σ' :: (xs.reverse ++ [])) ys [],
      Or.inl ⟨?_, ?_⟩⟩
    · rw [lowerIn_sigma, halone, if_neg Bool.false_ne_true]
    · rw [lowerIn_sigma, hseen, if_pos rfl, hfront, lowerIn_behind_sigma]
  · -- a letter behind is seen over `ys`, in which there is no sigma
    have halone : isFinal (xs.reverse ++ []) (ys ++ []) = true := by
      rw [isFinal, List.append_nil, List.append_nil, hxs, casedNext_of_all hys, Bool.not_false,
        Bool.and_self]
    have hletter : casedNext (ys ++ ['a']) = true := by
      rw [casedNext_append, if_pos hys, casedNext_a]
    have hseen : isFinal (xs.reverse ++ []) (ys ++ ['a']) = false := by
      rw [isFinal, hletter, Bool.not_true, Bool.and_false]
    have hback : lowerIn ('Σ' :: (xs.reverse ++ [])) ys ['a'] =
        lowerIn ('Σ' :: (xs.reverse ++ [])) ys [] := lowerIn_of_notMem (sigma_notMem hys)
    refine ⟨lowerIn [] xs ('Σ' :: ys ++ []), lowerIn ('Σ' :: (xs.reverse ++ [])) ys [],
      Or.inr ⟨?_, ?_⟩⟩
    · rw [lowerIn_sigma, halone, if_pos rfl]
    · rw [lowerIn_sigma, hseen, if_neg Bool.false_ne_true, hback]
      exact congrArg (· ++ _) lowerIn_before_sigma

end Text

end IrView
