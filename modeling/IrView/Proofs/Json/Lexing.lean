import IrView.Proofs.Json.Numbers
import IrView.Proofs.Json.Strings

/-!
# Reading tokens

One token is taken off a text exactly as the grammar spells it (`nextToken_append`,
`spells_nextToken`). The exception is a number, which is read as far as it goes. In a text that the
reader accepts no number stands directly behind a number, because no state of the reader that comes
behind a number takes one (`endsNumber_of_step`). So reading a text is the same as spelling out the
tokens that lead to the value (`readFrom_eq_some_iff`).
-/

namespace IrView

namespace Json

/-! ### One token -/

theorem nextToken_blank {c : Char} {source : Source} (hc : IsBlank c) :
    nextToken (some c :: source) = nextToken source := by
  rcases hc with rfl | rfl | rfl | rfl <;> rfl

theorem nextToken_blanks {w : List Char} {source : Source} (hw : ∀ c ∈ w, IsBlank c) :
    nextToken (w.map some ++ source) = nextToken source := by
  induction w with
  | nil => rfl
  | cons c w ih =>
    simp only [List.forall_mem_cons] at hw
    rw [List.map_cons, List.cons_append, nextToken_blank hw.1, ih hw.2]

theorem NumberText.head {n : Number} {w : List Char} (h : NumberText n w) :
    ∃ c v, w = c :: v ∧ (c = '-' ∨ c.isDigit = true) := by
  cases h with
  | positive h =>
    obtain ⟨c, v, rfl, hc⟩ := h.head
    exact ⟨c, v, rfl, .inr hc⟩
  | negative => exact ⟨_, _, rfl, .inl rfl⟩

theorem nextToken_number {c : Char} {source rest : Source} {n : Number}
    (hc : c = '-' ∨ c.isDigit = true) (h : readNumber? (some c :: source) = some (n, rest)) :
    nextToken (some c :: source) = .token (.number n) rest := by
  rw [nextToken.eq_def]
  split <;> simp_all [Char.isDigit]

/-- A token that is spelled out is taken; a number has to end. -/
theorem nextToken_append {t : Token} {w : List Char} {rest : Source} (ht : TokenText t w)
    (h : ∀ n, t = .number n → EndsNumber rest) :
    nextToken (w.map some ++ rest) = .token t rest := by
  cases ht with
  | number hw =>
    have hread := readNumber_append hw (h _ rfl)
    obtain ⟨c, v, rfl, hc⟩ := hw.head
    exact nextToken_number hc hread
  | string hw hcontent =>
    have hread := readString_append hw hcontent rest
    simp [nextToken, hread]
  | _ => rfl

/-- What was taken off the text is as the grammar says. -/
def Next.Spells (cs : List Char) : Next → Prop
  | .finished => ∀ c ∈ cs, IsBlank c
  | .token t rest => ∃ w x cs', (∀ c ∈ w, IsBlank c) ∧ TokenText t x ∧ cs = w ++ (x ++ cs') ∧
      rest = cs'.map some
  | .malformed => True

theorem Next.Spells.blank {c : Char} {rest : Source} {next : Next} (hc : IsBlank c)
    (h : ∀ {cs : List Char}, cs.map some = rest → next.Spells cs) {cs : List Char}
    (hcs : cs.map some = some c :: rest) : next.Spells cs := by
  obtain ⟨cs, rfl, rfl⟩ := exists_eq_append [c] hcs
  have h := h rfl
  cases next with
  | finished => exact List.forall_mem_cons.2 ⟨hc, h⟩
  | token t rest =>
    obtain ⟨w, x, cs', hw, hx, rfl, hrest⟩ := h
    exact ⟨c :: w, x, cs', List.forall_mem_cons.2 ⟨hc, hw⟩, hx, rfl, hrest⟩
  | malformed => trivial

theorem Next.spells_token {t : Token} {x : List Char} (hx : TokenText t x) {cs : List Char}
    {rest : Source} (hcs : cs.map some = x.map some ++ rest) :
    (Next.token t rest).Spells cs := by
  obtain ⟨cs', rfl, hrest⟩ := exists_eq_append x hcs
  exact ⟨[], x, cs', by simp, hx, rfl, hrest⟩

/-- What is taken off a text is spelled out in it. -/
theorem spells_nextToken (source : Source) :
    ∀ {cs : List Char}, cs.map some = source → (nextToken source).Spells cs := by
  fun_induction nextToken source with
  | case1 => simp [Next.Spells]
  | case2 _ ih | case3 _ ih | case4 _ ih | case5 _ ih =>
    -- white space
    exact Next.Spells.blank (by simp [IsBlank]) ih
  | case6 => exact Next.spells_token .openArray
  | case7 => exact Next.spells_token .closeArray
  | case8 => exact Next.spells_token .openObject
  | case9 => exact Next.spells_token .closeObject
  | case10 => exact Next.spells_token .colon
  | case11 => exact Next.spells_token .comma
  | case12 _ content rest hread =>
    -- a string literal
    intro cs hcs
    obtain ⟨cs, rfl, rfl⟩ := exists_eq_append ['"'] hcs
    obtain ⟨w, cs', hw, hcontent, rfl, rfl⟩ := literal_of_readString hread
    exact ⟨[], _, cs', by simp, .string hw hcontent, by simp, rfl⟩
  | case14 => exact Next.spells_token .null
  | case15 => exact Next.spells_token .true
  | case16 => exact Next.spells_token .false
  | case17 =>
    -- a number; the other hypotheses say that no other token begins here
    rename_i hread
    rintro cs rfl
    obtain ⟨w, cs', hw, hcs, hrest⟩ := numberText_of_readNumber hread
    exact ⟨[], w, cs', by simp, .number hw, hcs, hrest⟩
  | case13 | case18 => exact fun _ => trivial

/-! ### No number behind a number -/

theorem step_of_deliver {v : Value} {stack : List Pending} {s s' : State} {t : Token}
    (h : deliver v stack = some s) (h' : s.step t = some s') :
    t = .comma ∨ t = .closeArray ∨ t = .closeObject := by
  unfold deliver at h
  split at h <;> cases h <;> cases t <;> simp_all [State.step]

theorem exists_deliver_of_step {s s' : State} {n : Number} (h : s.step (.number n) = some s') :
    ∃ stack, deliver (.number n) stack = some s' := by
  cases s with
  | value stack => exact ⟨stack, h⟩
  | firstItem stack => exact ⟨.items [] :: stack, h⟩
  | _ => cases h

theorem EndsNumber.blanks {w : List Char} {rest : Source} (h : EndsNumber rest)
    (hw : ∀ c ∈ w, IsBlank c) : EndsNumber (w.map some ++ rest) := by
  cases w with
  | nil => exact h
  | cons c w =>
    rcases hw c (by simp) with rfl | rfl | rfl | rfl <;> exact ⟨rfl, by simp, rfl⟩

/-- Behind a number that the reader takes, nothing can go on with it. -/
theorem endsNumber_of_lexed {s s' s'' : State} {n : Number} {ts : List Token} {cs : List Char}
    (hstep : s.step (.number n) = some s') (hrun : ts.foldlM State.step s' = some s'')
    (h : Lexed ts cs) : EndsNumber (cs.map some) := by
  obtain ⟨stack, hdeliver⟩ := exists_deliver_of_step hstep
  cases h with
  | done hw =>
    have hnil : EndsNumber [] := ⟨rfl, by simp, rfl⟩
    simpa using hnil.blanks hw
  | @token t ts w x rest hw ht _ =>
    rw [List.foldlM_cons] at hrun
    obtain ⟨next, hnext, -⟩ := Option.bind_eq_some_iff.1 hrun
    rw [List.map_append]
    refine EndsNumber.blanks ?_ hw
    obtain rfl | rfl | rfl := step_of_deliver hdeliver hnext <;> cases ht <;>
      exact ⟨rfl, by simp, rfl⟩

/-! ### All tokens -/

variable {s : State} {source rest : Source} {v : Value}

theorem readFrom_finished (h : nextToken source = .finished) :
    readFrom s source = some v ↔ s = .finished v := by
  rw [readFrom.eq_def]
  cases s <;> split <;> simp_all

theorem readFrom_token {t : Token} (h : nextToken source = .token t rest) :
    readFrom s source = s.step t >>= fun next => readFrom next rest := by
  rw [readFrom.eq_def]
  split <;> simp_all
  split <;> simp_all

theorem readFrom_malformed (h : nextToken source = .malformed) : readFrom s source = none := by
  rw [readFrom.eq_def]
  split <;> simp_all

theorem readFrom_of_lexed {ts : List Token} {cs : List Char} (h : Lexed ts cs) :
    ∀ {s : State}, ts.foldlM State.step s = some (.finished v) →
      readFrom s (cs.map some) = some v := by
  induction h with
  | @done w hw =>
    intro s hrun
    cases hrun
    have hnext : nextToken (w.map some) = .finished := by
      rw [← List.append_nil (w.map some), nextToken_blanks hw, nextToken]
    exact (readFrom_finished hnext).2 rfl
  | @token t ts w x rest hw ht hts ih =>
    intro s hrun
    rw [List.foldlM_cons] at hrun
    obtain ⟨s', hstep, hrest⟩ := Option.bind_eq_some_iff.1 hrun
    -- a number ends here, because the reader takes what comes behind it
    have hnext : nextToken ((w ++ (x ++ rest)).map some) = .token t (rest.map some) := by
      rw [List.map_append, List.map_append, nextToken_blanks hw]
      refine nextToken_append ht ?_
      rintro n rfl
      exact endsNumber_of_lexed hstep hrest hts
    rw [readFrom_token hnext, hstep]
    exact ih hrest

theorem exists_lexed_of_readFrom {s : State} {cs : List Char}
    (h : readFrom s (cs.map some) = some v) :
    ∃ ts, Lexed ts cs ∧ ts.foldlM State.step s = some (.finished v) := by
  have hspells := spells_nextToken (cs.map some) rfl
  cases hnext : nextToken (cs.map some) with
  | finished =>
    rw [hnext] at hspells
    obtain rfl := (readFrom_finished hnext).1 h
    exact ⟨[], .done hspells, rfl⟩
  | token t rest =>
    rw [hnext] at hspells
    obtain ⟨w, x, cs', hw, hx, hcs, rfl⟩ := hspells
    rw [readFrom_token hnext] at h
    obtain ⟨s', hstep, h⟩ := Option.bind_eq_some_iff.1 h
    obtain ⟨ts, hts, hrun⟩ := exists_lexed_of_readFrom h
    exact ⟨t :: ts, hcs ▸ .token hw hx hts, by rw [List.foldlM_cons, hstep]; exact hrun⟩
  | malformed =>
    rw [readFrom_malformed hnext] at h
    cases h
  termination_by cs.length
  decreasing_by simpa using length_lt_of_nextToken hnext

/-- Reading a text is spelling out the tokens that lead to the value. -/
theorem readFrom_eq_some_iff {cs : List Char} :
    readFrom s (cs.map some) = some v ↔
      ∃ ts, Lexed ts cs ∧ ts.foldlM State.step s = some (.finished v) :=
  ⟨exists_lexed_of_readFrom, fun ⟨_, hts, hrun⟩ => readFrom_of_lexed hts hrun⟩

end Json

end IrView
