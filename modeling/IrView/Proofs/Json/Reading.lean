import IrView.Proofs.Json.Lexing

/-!
# Reading what is written

The reader accepts a text as a value exactly if the text is a way to write the value
(`parse_eq_some_iff`). So a text says one value or none (`written_unique`), and how it is laid out
and escaped makes no difference.

A state of the reader is described by the tokens that were taken on the way to it (`State.taken`),
and a step adds its token. In the other direction the tokens of a value lead from the place of the
value to its delivery (`run_tokens`), by induction on the value.
-/

namespace IrView

namespace Json

/-! ### Parts with commas -/

/-- Parts with a comma behind each. -/
def terminated (parts : List (List Token)) : List Token :=
  parts.flatMap (· ++ [.comma])

theorem separated_cons (p : List Token) (ps : List (List Token)) :
    separated (p :: ps) = p ++ ps.flatMap (Token.comma :: ·) := by
  induction ps generalizing p with
  | nil => simp [separated]
  | cons q ps ih =>
    have hstep : separated (p :: q :: ps) = p ++ .comma :: separated (q :: ps) := by
      simp [separated, List.intercalate]
    rw [hstep, ih, List.flatMap_cons, List.cons_append]

theorem terminated_append_comma (p : List Token) (ps : List (List Token)) :
    p ++ ps.flatMap (Token.comma :: ·) ++ [.comma] = terminated (p :: ps) := by
  induction ps generalizing p with
  | nil => simp [terminated]
  | cons q ps ih =>
    have hq := ih q
    simp only [terminated, List.flatMap_cons, List.append_assoc, List.cons_append] at hq ⊢
    rw [hq]
    simp

theorem separated_append_comma (ps : List (List Token)) (h : ps ≠ []) :
    separated ps ++ [.comma] = terminated ps := by
  cases ps with
  | nil => exact absurd rfl h
  | cons p ps => rw [separated_cons, terminated_append_comma]

theorem separated_concat (ps : List (List Token)) (p : List Token) :
    separated (ps ++ [p]) = terminated ps ++ p := by
  have h := separated_append_comma (ps ++ [p]) (by simp)
  have hterm : terminated (ps ++ [p]) = terminated ps ++ p ++ [.comma] := by
    simp [terminated]
  exact List.append_cancel_right (h.trans hterm)

theorem itemParts_eq_map (vs : List Value) : itemParts vs = vs.map Value.tokens := by
  induction vs with
  | nil => rfl
  | cons v vs ih => simp [itemParts, ih]

theorem memberParts_eq_map (ms : List (Content × Value)) :
    memberParts ms = ms.map fun m => .string m.1 :: .colon :: m.2.tokens := by
  induction ms with
  | nil => rfl
  | cons m ms ih => simp [memberParts, ih]

/-! ### From the tokens to the value -/

/-- The tokens that were taken for an open value. -/
def Pending.taken : Pending → List Token
  | .items read => .openArray :: terminated (itemParts read.reverse)
  | .members read => .openObject :: terminated (memberParts read.reverse)
  | .member key read =>
    .openObject :: (terminated (memberParts read.reverse) ++ [.string key, .colon])

/-- The tokens that were taken for the open values. -/
def takenBy (stack : List Pending) : List Token :=
  stack.reverse.flatMap Pending.taken

/-- The tokens that were taken on the way to a state. -/
def State.taken : State → List Token
  | .value stack => takenBy stack
  | .firstItem stack => takenBy stack ++ [.openArray]
  | .firstKey stack => takenBy stack ++ [.openObject]
  | .key read stack => takenBy stack ++ .openObject :: terminated (memberParts read.reverse)
  | .colon content read stack =>
    takenBy stack ++ .openObject :: (terminated (memberParts read.reverse) ++ [.string content])
  | .moreItems read stack => takenBy stack ++ .openArray :: separated (itemParts read.reverse)
  | .moreMembers read stack =>
    takenBy stack ++ .openObject :: separated (memberParts read.reverse)
  | .finished v => v.tokens

/-- A comma comes behind something. -/
def State.Proper : State → Prop
  | .moreItems read _ => read ≠ []
  | .moreMembers read _ => read ≠ []
  | _ => True

theorem takenBy_cons (p : Pending) (stack : List Pending) :
    takenBy (p :: stack) = takenBy stack ++ p.taken := by
  simp [takenBy]

theorem taken_deliver {v : Value} {stack : List Pending} {s : State}
    (h : deliver v stack = some s) : s.Proper ∧ s.taken = takenBy stack ++ v.tokens := by
  cases stack with
  | nil =>
    cases h
    exact ⟨trivial, rfl⟩
  | cons p stack =>
    cases p with
    | items read =>
      cases h
      refine ⟨List.cons_ne_nil v read, ?_⟩
      simp [State.taken, takenBy_cons, Pending.taken, itemParts_eq_map, separated_concat]
    | member key read =>
      cases h
      refine ⟨List.cons_ne_nil (key, v) read, ?_⟩
      simp [State.taken, takenBy_cons, Pending.taken, memberParts_eq_map, separated_concat]
    | members read => cases h

theorem taken_beginValue {stack : List Pending} {t : Token} {s : State}
    (h : beginValue stack t = some s) : s.Proper ∧ s.taken = takenBy stack ++ [t] := by
  cases t with
  | openArray | openObject =>
    cases h
    exact ⟨trivial, rfl⟩
  | null | bool | number | string => exact taken_deliver h
  | closeArray | closeObject | colon | comma => cases h

/-- Unless the array ends at once, its first item begins. -/
theorem step_firstItem (stack : List Pending) {t : Token} (ht : t ≠ .closeArray) :
    (State.firstItem stack).step t = beginValue (.items [] :: stack) t := by
  cases t with
  | closeArray => exact absurd rfl ht
  | _ => rfl

/-- A step takes its token. -/
theorem State.taken_step {s s' : State} {t : Token} (hs : s.Proper) (h : s.step t = some s') :
    s'.Proper ∧ s'.taken = s.taken ++ [t] := by
  cases s with
  | value stack => exact taken_beginValue h
  | firstItem stack =>
    by_cases ht : t = .closeArray
    · subst ht
      simpa [taken, Value.tokens, itemParts, separated] using taken_deliver h
    · rw [step_firstItem stack ht] at h
      simpa [taken, takenBy_cons, Pending.taken, itemParts, terminated] using taken_beginValue h
  | firstKey stack =>
    cases t with
    | closeObject => simpa [taken, Value.tokens, memberParts, separated] using taken_deliver h
    | string content =>
      cases h
      exact ⟨trivial, by simp [taken, memberParts, terminated]⟩
    | _ => cases h
  | key read stack =>
    cases t with
    | string content =>
      cases h
      exact ⟨trivial, by simp [taken]⟩
    | _ => cases h
  | colon content read stack =>
    cases t with
    | colon =>
      cases h
      exact ⟨trivial, by simp [taken, takenBy_cons, Pending.taken]⟩
    | _ => cases h
  | moreItems read stack =>
    cases t with
    | comma =>
      cases h
      -- the commas between the items become commas behind the items
      have hcomma := separated_append_comma (itemParts read.reverse)
        (by simpa [itemParts_eq_map, Proper] using hs)
      exact ⟨trivial, by simp [taken, takenBy_cons, Pending.taken, ← hcomma]⟩
    | closeArray => simpa [taken, Value.tokens] using taken_deliver h
    | _ => cases h
  | moreMembers read stack =>
    cases t with
    | comma =>
      cases h
      have hcomma := separated_append_comma (memberParts read.reverse)
        (by simpa [memberParts_eq_map, Proper] using hs)
      exact ⟨trivial, by simp [taken, ← hcomma]⟩
    | closeObject => simpa [taken, Value.tokens] using taken_deliver h
    | _ => cases h
  | finished v => cases h

theorem State.taken_run {ts : List Token} :
    ∀ {s s' : State}, s.Proper → ts.foldlM State.step s = some s' → s'.taken = s.taken ++ ts := by
  induction ts with
  | nil =>
    intro s s' _ h
    cases h
    simp
  | cons t ts ih =>
    intro s s' hs h
    rw [List.foldlM_cons] at h
    obtain ⟨next, hnext, h⟩ := Option.bind_eq_some_iff.1 h
    obtain ⟨hproper, htaken⟩ := State.taken_step hs hnext
    rw [ih hproper h, htaken, List.append_assoc, List.singleton_append]

/-! ### From the value to the tokens -/

/-- The first item of an array is read like any other. -/
theorem run_firstItem (v : Value) (stack : List Pending) :
    v.tokens.foldlM State.step (.firstItem stack) =
      v.tokens.foldlM State.step (.value (.items [] :: stack)) := by
  cases v <;> rfl

mutual

/-- The reader takes the tokens of a value and hands over the value. -/
theorem run_tokens (v : Value) (stack : List Pending) :
    v.tokens.foldlM State.step (.value stack) = deliver v stack := by
  match v with
  | .null | .bool _ | .number _ | .string _ => simp [Value.tokens, State.step, beginValue]
  | .array [] => simp [Value.tokens, itemParts, separated, State.step, beginValue]
  | .array (v :: vs) =>
    have hfirst := run_tokens v (.items [] :: stack)
    have hrest := run_items vs [v] stack
    simp only [Value.tokens, itemParts, separated_cons, List.foldlM_cons, List.foldlM_append,
      List.append_assoc] at hrest ⊢
    -- the opening bracket has been taken
    show (v.tokens.foldlM State.step (.firstItem stack) >>= _) = _
    rw [run_firstItem, hfirst]
    exact hrest
  | .object [] => simp [Value.tokens, memberParts, separated, State.step, beginValue]
  | .object ((key, v) :: ms) =>
    have hfirst := run_tokens v (.member key [] :: stack)
    have hrest := run_members ms [(key, v)] stack
    simp only [Value.tokens, memberParts, separated_cons, List.foldlM_cons, List.foldlM_append,
      List.append_assoc, List.cons_append] at hrest ⊢
    show (v.tokens.foldlM State.step (.value (.member key [] :: stack)) >>= _) = _
    rw [hfirst]
    exact hrest

theorem run_items (vs read : List Value) (stack : List Pending) :
    ((itemParts vs).flatMap (Token.comma :: ·) ++ [Token.closeArray]).foldlM State.step
      (.moreItems read stack) = deliver (.array (read.reverse ++ vs)) stack := by
  match vs with
  | [] => simp [itemParts, State.step]
  | v :: vs =>
    have hitem := run_tokens v (.items read :: stack)
    have hrest := run_items vs (v :: read) stack
    simp only [itemParts, List.flatMap_cons, List.foldlM_cons, List.foldlM_append,
      List.append_assoc, List.cons_append, List.reverse_cons, List.nil_append] at hrest ⊢
    show (v.tokens.foldlM State.step (.value (.items read :: stack)) >>= _) = _
    rw [hitem]
    exact hrest

theorem run_members (ms read : List (Content × Value)) (stack : List Pending) :
    ((memberParts ms).flatMap (Token.comma :: ·) ++ [Token.closeObject]).foldlM State.step
      (.moreMembers read stack) = deliver (.object (read.reverse ++ ms)) stack := by
  match ms with
  | [] => simp [memberParts, State.step]
  | (key, v) :: ms =>
    have hmember := run_tokens v (.member key read :: stack)
    have hrest := run_members ms ((key, v) :: read) stack
    simp only [memberParts, List.flatMap_cons, List.foldlM_cons, List.foldlM_append,
      List.append_assoc, List.cons_append, List.reverse_cons, List.nil_append] at hrest ⊢
    show (v.tokens.foldlM State.step (.value (.member key read :: stack)) >>= _) = _
    rw [hmember]
    exact hrest

end

/-! ### Texts -/

theorem run_eq_finished_iff {ts : List Token} {v : Value} :
    ts.foldlM State.step (.value []) = some (.finished v) ↔ ts = v.tokens := by
  constructor
  · intro h
    have htaken := State.taken_run (s := .value []) trivial h
    simpa [State.taken, takenBy] using htaken.symm
  · rintro rfl
    exact run_tokens v []

/-- **A text is read as a value exactly if it is a way to write the value.** -/
theorem parse_eq_some_iff {text : String} {v : Value} :
    parse (.ofString text) = some v ↔ Written v text := by
  show readFrom (.value []) (text.toList.map some) = some v ↔ Lexed v.tokens text.toList
  simp only [readFrom_eq_some_iff, run_eq_finished_iff, exists_eq_right]

/-- A text is a way to write one value at most. -/
theorem written_unique {text : String} {v v' : Value} (h : Written v text)
    (h' : Written v' text) : v = v' :=
  Option.some.inj ((parse_eq_some_iff.2 h).symm.trans (parse_eq_some_iff.2 h'))

end Json

end IrView
