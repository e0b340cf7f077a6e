import IrView.Cli.Request

/-!
# How requests end

A request can fail in three ways only. The pass that it names is not found (`Unresolved`), no pass
left what the view shows (`Unavailable`), or the node to focus on is not in the view that was built
(`Misfocused`). Each step of an answer fails with a kind of its own: choosing a pass
(`selection_selectPass`), finding the form of the method that the pass left
(`answer_renderFrom`) and writing the view (`finish_cases`). As the three conditions exclude each
other, the kind of the fault tells which of them holds (`renderView_fails_as_it_should`).
-/

namespace IrView

namespace Cli

open Display (Node)

variable {m : Method} {r : Request} {p : Pass}

/-! ### Conditions on requests -/

/-- The view shows a pass, and no pass is found under the selector that is given. -/
def Unresolved (m : Method) (r : Request) : Prop :=
  r.view ≠ .dependency ∧ ∃ s, r.pass = some s ∧ ∀ p, m.findPass s ≠ .ok p

/-- The view shows a pass, and what it shows was not left by the selected pass, or by no pass at all
if none is selected. -/
def Unavailable (m : Method) (r : Request) : Prop :=
  r.view ≠ .dependency ∧
    ((∃ s p, r.pass = some s ∧ m.findPass s = .ok p ∧ carries r.view p = false) ∨
      r.pass = none ∧ ∀ p ∈ m.passes, carries r.view p = false)

/-- The pass is the last one that left what the view shows. -/
def LastCarrying (m : Method) (view : ViewKind) (p : Pass) : Prop :=
  ∃ front back, m.passes = front ++ p :: back ∧ carries view p = true ∧
    ∀ q ∈ back, carries view q = false

/-- The request is about the pass: it was selected, or it is the last one that left what the view
shows. -/
def Uses (m : Method) (r : Request) (p : Pass) : Prop :=
  (∃ s, r.pass = some s ∧ m.findPass s = .ok p) ∨ r.pass = none ∧ LastCarrying m r.view p

/-- The view that the request is about can be built, and its nodes have these ids. -/
inductive Builds (m : Method) (r : Request) : List NodeId → Prop
  | dependency (hview : r.view = .dependency) :
      Builds m r ((View.dependency r.dependency m).nodes.map Node.id)
  | cfg {p : Pass} {hir : Hir.Graph} (hview : r.view = .cfg) (hp : Uses m r p)
      (hform : p.hir = some hir) : Builds m r ((View.cfg r.cfg hir).nodes.map Node.id)
  | detail {p : Pass} {hir : Hir.Graph} (hview : r.view = .detail) (hp : Uses m r p)
      (hform : p.hir = some hir) : Builds m r ((View.detail r.detail hir).nodes.map Node.id)
  | lir {p : Pass} {listing : Lir.Listing} (hview : r.view = .lir) (hp : Uses m r p)
      (hform : p.lir = some listing) : Builds m r ((View.lir listing).graph.nodes.map Node.id)

/-- Neither the legend nor a search is asked for, but a node that is not among these. -/
def Misfocused (r : Request) (ids : List NodeId) : Prop :=
  r.legend = false ∧ r.search = none ∧ ∃ id, r.focus = some id ∧ id ∉ ids

/-- The request fails with a fault of the kind. -/
def FailsWith (m : Method) (r : Request) (kind : FaultKind) : Prop :=
  ∃ f, renderView m r = .error f ∧ f.kind = kind

/-! ### Choosing a pass -/

theorem lastCarrying_iff {view : ViewKind} :
    LastCarrying m view p ↔ (m.passes.filter (carries view)).getLast? = some p := by
  constructor
  · rintro ⟨front, back, hpasses, hp, hback⟩
    have hnone : back.filter (carries view) = [] :=
      List.filter_eq_nil_iff.2 fun q hq => by simp [hback q hq]
    rw [hpasses, List.filter_append, List.filter_cons_of_pos hp, hnone, List.getLast?_concat]
  · intro hlast
    obtain ⟨front, hfilter⟩ := List.getLast?_eq_some_iff.1 hlast
    obtain ⟨l₁, l₂, hpasses, -, hl₂⟩ := List.filter_eq_append_iff.1 hfilter
    obtain ⟨a, back, rfl, -, hp, hback⟩ := List.filter_eq_cons_iff.1 hl₂
    refine ⟨l₁ ++ a, back, by rw [hpasses, List.append_assoc], hp, fun q hq => ?_⟩
    exact Bool.eq_false_iff.2 (List.filter_eq_nil_iff.1 hback q hq)

theorem uses_unique {q : Pass} (hp : Uses m r p) (hq : Uses m r q) : p = q := by
  obtain ⟨s, hs, hp⟩ | ⟨hnone, hp⟩ := hp <;> obtain ⟨t, ht, hq⟩ | ⟨hnone', hq⟩ := hq
  · rw [hs] at ht
    cases ht
    exact Except.ok.inj (hp.symm.trans hq)
  · rw [hs] at hnone'
    cases hnone'
  · rw [ht] at hnone
    cases hnone
  · exact Option.some.inj ((lastCarrying_iff.1 hp).symm.trans (lastCarrying_iff.1 hq))

theorem kind_of_findPass {s : String} {f : Fault} (h : m.findPass s = .error f) :
    f.kind = .passNotFound := by
  simp only [Method.findPass] at h
  split at h
  · cases h
  · cases h
    rfl

/-- How choosing a pass ends. -/
inductive Selection (m : Method) (r : Request) : Except Fault (Option Pass) → Prop
  | notNeeded (hview : r.view = .dependency) : Selection m r (.ok none)
  | chosen {p : Pass} (hview : r.view ≠ .dependency) (hp : Uses m r p) :
      Selection m r (.ok (some p))
  | unresolved {f : Fault} (h : Unresolved m r) (hkind : f.kind = .passNotFound) :
      Selection m r (.error f)
  | unavailable {f : Fault} (h : Unavailable m r) (hkind : f.kind = .viewUnavailable) :
      Selection m r (.error f)

theorem selection_selectPass (m : Method) (r : Request) :
    Selection m r (selectPass m r.view r.pass) := by
  by_cases hview : r.view = .dependency
  · rw [selectPass, hview]
    exact .notNeeded hview
  · have hneeds : r.view.needsPass = true := by
      cases h : r.view with
      | dependency => exact absurd h hview
      | cfg | detail | lir => rfl
    rw [selectPass, if_pos hneeds]
    cases hpass : r.pass with
    | some s =>
      rw [choosePass]
      cases hfind : m.findPass s with
      | ok p => exact .chosen hview (Or.inl ⟨s, hpass, hfind⟩)
      | error f =>
        refine .unresolved ⟨hview, s, hpass, fun p hp => ?_⟩ (kind_of_findPass hfind)
        cases hfind.symm.trans hp
    | none =>
      rw [choosePass]
      cases hlast : (m.passes.filter (carries r.view)).getLast? with
      | some p => exact .chosen hview (Or.inr ⟨hpass, lastCarrying_iff.2 hlast⟩)
      | none =>
        rw [List.getLast?_eq_none_iff, List.filter_eq_nil_iff] at hlast
        exact .unavailable ⟨hview, Or.inr ⟨hpass, fun p hp => Bool.eq_false_iff.2 (hlast p hp)⟩⟩ rfl

/-! ### Writing the view -/

/-- How an answer ends. -/
inductive Answer (m : Method) (r : Request) : Except Fault String → Prop
  | unresolved {f : Fault} (h : Unresolved m r) (hkind : f.kind = .passNotFound) :
      Answer m r (.error f)
  | unavailable {f : Fault} (h : Unavailable m r) (hkind : f.kind = .viewUnavailable) :
      Answer m r (.error f)
  | misfocused {f : Fault} {ids : List NodeId} (hbuilds : Builds m r ids) (h : Misfocused r ids)
      (hkind : f.kind = .invalidArgument) : Answer m r (.error f)
  | answered {text : String} {ids : List NodeId} (hbuilds : Builds m r ids)
      (h : ¬ Misfocused r ids) : Answer m r (.ok text)

variable {N E : Type} {g : Display.Graph N E}

/-- A view that was built is written, unless the node to focus on is not in it. -/
theorem answer_finish (legend : View.Legend) (hbuilds : Builds m r (g.nodes.map Node.id)) :
    Answer m r (finish m r legend g) := by
  unfold finish
  split
  · next hlegend => exact .answered hbuilds fun h => by simp [h.1] at hlegend
  · next hlegend =>
    split
    · next hsearch => exact .answered hbuilds fun h => by simp [h.2.1] at hsearch
    · next hsearch hfocus => exact .answered hbuilds fun ⟨_, _, _, h, _⟩ => by simp [h] at hfocus
    · next id hsearch hfocus =>
      split
      · next hid =>
        refine .answered hbuilds fun ⟨_, _, id', h, hmissing⟩ => hmissing ?_
        rw [hfocus] at h
        cases h
        exact Display.Graph.isSome_node?_iff.1 hid
      · next hid =>
        exact .misfocused hbuilds ⟨Bool.eq_false_iff.2 hlegend, hsearch, id, hfocus,
          mt Display.Graph.isSome_node?_iff.2 hid⟩ rfl

theorem unavailable_of_uses (hview : r.view ≠ .dependency) (hp : Uses m r p)
    (hno : carries r.view p = false) : Unavailable m r := by
  obtain ⟨s, hs, hfind⟩ | ⟨-, -, -, -, hcarries, -⟩ := hp
  · exact ⟨hview, Or.inl ⟨s, p, hs, hfind, hno⟩⟩
  · rw [hno] at hcarries
    cases hcarries

/-- The answer from a pass that the request is about. -/
theorem answer_renderFrom (hview : r.view ≠ .dependency) (hp : Uses m r p) :
    Answer m r (renderFrom m r (some p)) := by
  have hmissing : carries r.view p = false → ∀ {α : Type} (write : α → Except Fault String),
      Answer m r (requireForm r.view p none >>= write) :=
    fun hno _ _ => .unavailable (unavailable_of_uses hview hp hno) rfl
  cases h : r.view with
  | dependency => exact absurd h hview
  | cfg =>
    simp only [renderFrom, h]
    rw [← h]
    cases hform : p.hir with
    | none => exact hmissing (by simp [h, carries, hform]) _
    | some hir => exact answer_finish _ (.cfg h hp hform)
  | detail =>
    simp only [renderFrom, h]
    rw [← h]
    cases hform : p.hir with
    | none => exact hmissing (by simp [h, carries, hform]) _
    | some hir => exact answer_finish _ (.detail h hp hform)
  | lir =>
    simp only [renderFrom, h]
    rw [← h]
    cases hform : p.lir with
    | none => exact hmissing (by simp [h, carries, hform]) _
    | some listing =>
      have hbuilds := Builds.lir h hp hform
      cases hplain : r.isPlain with
      | false => exact answer_finish _ hbuilds
      | true =>
        refine .answered hbuilds fun ⟨_, _, _, hfocus, _⟩ => ?_
        simp [Request.isPlain, hfocus] at hplain

theorem answer_renderView (m : Method) (r : Request) : Answer m r (renderView m r) := by
  have hselection := selection_selectPass m r
  rw [renderView]
  generalize selectPass m r.view r.pass = selected at hselection
  cases hselection with
  | notNeeded hview =>
    show Answer m r (renderFrom m r none)
    simp only [renderFrom, hview]
    exact answer_finish _ (.dependency hview)
  | chosen hview hp => exact answer_renderFrom hview hp
  | unresolved h hkind => exact .unresolved h hkind
  | unavailable h hkind => exact .unavailable h hkind

/-! ### The kinds of faults -/

theorem not_unresolved_of_uses (hp : Uses m r p) : ¬ Unresolved m r := by
  rintro ⟨-, s, hs, hnone⟩
  obtain ⟨t, ht, hp⟩ | ⟨hno, -⟩ := hp
  · rw [hs] at ht
    cases ht
    exact hnone p hp
  · rw [hs] at hno
    cases hno

theorem not_unresolved_of_builds {ids : List NodeId} (h : Builds m r ids) : ¬ Unresolved m r := by
  cases h with
  | dependency hview => exact fun h => h.1 hview
  | cfg _ hp _ => exact not_unresolved_of_uses hp
  | detail _ hp _ => exact not_unresolved_of_uses hp
  | lir _ hp _ => exact not_unresolved_of_uses hp

/-- If what the view shows is missing, no pass that the request is about left it. -/
theorem carries_of_unavailable (h : Unavailable m r) (hp : Uses m r p) :
    carries r.view p = false := by
  obtain ⟨-, ⟨s, q, hs, hq, hno⟩ | ⟨hnone, hall⟩⟩ := h
  · rwa [uses_unique hp (Or.inl ⟨s, hs, hq⟩)]
  · obtain ⟨t, ht, -⟩ | ⟨-, front, back, hpasses, -⟩ := hp
    · rw [hnone] at ht
      cases ht
    · exact hall p (by simp [hpasses])

theorem not_unavailable_of_builds {ids : List NodeId} (h : Builds m r ids) :
    ¬ Unavailable m r := by
  intro hno
  cases h with
  | dependency h => exact hno.1 h
  | cfg hview hp hform => simpa [hview, carries, hform] using carries_of_unavailable hno hp
  | detail hview hp hform => simpa [hview, carries, hform] using carries_of_unavailable hno hp
  | lir hview hp hform => simpa [hview, carries, hform] using carries_of_unavailable hno hp

theorem not_unavailable_of_unresolved (h : Unresolved m r) : ¬ Unavailable m r := by
  obtain ⟨-, s, hs, hnone⟩ := h
  rintro ⟨-, ⟨t, p, ht, hp, -⟩ | ⟨hno, -⟩⟩
  · rw [hs] at ht
    cases ht
    exact hnone p hp
  · rw [hs] at hno
    cases hno

theorem builds_unique {ids ids' : List NodeId} (h : Builds m r ids) (h' : Builds m r ids') :
    ids = ids' := by
  cases h with
  | dependency hview =>
    cases h' with
    | dependency => rfl
    | cfg hview' | detail hview' | lir hview' => cases hview.symm.trans hview'
  | cfg hview hp hform =>
    cases h' with
    | cfg _ hp' hform' =>
      cases uses_unique hp hp'
      cases hform.symm.trans hform'
      rfl
    | dependency hview' | detail hview' | lir hview' => cases hview.symm.trans hview'
  | detail hview hp hform =>
    cases h' with
    | detail _ hp' hform' =>
      cases uses_unique hp hp'
      cases hform.symm.trans hform'
      rfl
    | dependency hview' | cfg hview' | lir hview' => cases hview.symm.trans hview'
  | lir hview hp hform =>
    cases h' with
    | lir _ hp' hform' =>
      cases uses_unique hp hp'
      cases hform.symm.trans hform'
      rfl
    | dependency hview' | cfg hview' | detail hview' => cases hview.symm.trans hview'

/-- The kind of a fault tells which condition holds. -/
theorem kind_of_error {f : Fault} (h : renderView m r = .error f) :
    Unresolved m r ∧ f.kind = .passNotFound ∨ Unavailable m r ∧ f.kind = .viewUnavailable ∨
      (∃ ids, Builds m r ids ∧ Misfocused r ids) ∧ f.kind = .invalidArgument := by
  have hanswer := answer_renderView m r
  rw [h] at hanswer
  cases hanswer with
  | unresolved hreason hkind => exact Or.inl ⟨hreason, hkind⟩
  | unavailable hreason hkind => exact Or.inr (Or.inl ⟨hreason, hkind⟩)
  | misfocused hbuilds hreason hkind => exact Or.inr (Or.inr ⟨⟨_, hbuilds, hreason⟩, hkind⟩)

/-- A request is answered just if none of the conditions holds. -/
theorem exists_ok_iff : (∃ text, renderView m r = .ok text) ↔
    ¬ Unresolved m r ∧ ¬ Unavailable m r ∧ ¬ ∃ ids, Builds m r ids ∧ Misfocused r ids := by
  have hanswer := answer_renderView m r
  generalize renderView m r = result at hanswer
  cases hanswer with
  | unresolved h => simp [h]
  | unavailable h => simp [h]
  | misfocused hbuilds h =>
    refine iff_of_false (fun ⟨_, h⟩ => by cases h) fun ⟨_, _, hno⟩ => hno ⟨_, hbuilds, h⟩
  | answered hbuilds h =>
    refine iff_of_true ⟨_, rfl⟩ ⟨not_unresolved_of_builds hbuilds,
      not_unavailable_of_builds hbuilds, ?_⟩
    rintro ⟨ids, hbuilds', h'⟩
    exact h (builds_unique hbuilds hbuilds' ▸ h')

theorem failsWith_iff {kind : FaultKind} : FailsWith m r kind ↔
    Unresolved m r ∧ kind = .passNotFound ∨ Unavailable m r ∧ kind = .viewUnavailable ∨
      (∃ ids, Builds m r ids ∧ Misfocused r ids) ∧ kind = .invalidArgument := by
  constructor
  · rintro ⟨f, hf, rfl⟩
    exact kind_of_error hf
  · intro h
    cases hresult : renderView m r with
    | ok text =>
      obtain ⟨hfound, hthere, hfocused⟩ := exists_ok_iff.1 ⟨text, hresult⟩
      obtain ⟨h, -⟩ | ⟨h, -⟩ | ⟨h, -⟩ := h
      · exact absurd h hfound
      · exact absurd h hthere
      · exact absurd h hfocused
    | error f =>
      refine ⟨f, hresult, ?_⟩
      -- the condition that the fault tells of is the one that holds
      obtain ⟨h', hkind⟩ | ⟨h', hkind⟩ | ⟨⟨ids, h', -⟩, hkind⟩ := kind_of_error hresult <;>
        obtain ⟨h, rfl⟩ | ⟨h, rfl⟩ | ⟨⟨ids', h, -⟩, rfl⟩ := h
      · exact hkind
      · exact absurd h (not_unavailable_of_unresolved h')
      · exact absurd h' (not_unresolved_of_builds h)
      · exact absurd h' (not_unavailable_of_unresolved h)
      · exact hkind
      · exact absurd h' (not_unavailable_of_builds h)
      · exact absurd h (not_unresolved_of_builds h')
      · exact absurd h (not_unavailable_of_builds h')
      · exact hkind

/-- Without a selector, the last pass that left what the view shows is chosen. -/
theorem selectPass_of_lastCarrying (hview : r.view ≠ .dependency) (hnone : r.pass = none)
    (hp : LastCarrying m r.view p) : selectPass m r.view r.pass = .ok (some p) := by
  have huses : Uses m r p := Or.inr ⟨hnone, hp⟩
  have hselection := selection_selectPass m r
  generalize selectPass m r.view r.pass = selected at hselection
  cases hselection with
  | notNeeded h => exact absurd h hview
  | chosen _ hq => rw [uses_unique huses hq]
  | unresolved h => exact absurd h (not_unresolved_of_uses huses)
  | unavailable h =>
    obtain ⟨-, -, -, hcarries, -⟩ := hp
    rw [carries_of_unavailable h huses] at hcarries
    cases hcarries

/-- **A request fails exactly when it should, with the right kind of fault.** The pass is not found,
or what the view shows is missing, or the node to focus on is not in the view that was built;
otherwise there is an answer. Without a selector it is made of the last pass that left what the view
shows. -/
theorem renderView_fails_as_it_should (m : Method) (r : Request) :
    (FailsWith m r .passNotFound ↔ Unresolved m r) ∧
    (FailsWith m r .viewUnavailable ↔ Unavailable m r) ∧
    (FailsWith m r .invalidArgument ↔ ¬ Unresolved m r ∧ ¬ Unavailable m r ∧
      ∃ ids, Builds m r ids ∧ Misfocused r ids) ∧
    ((∃ text, renderView m r = .ok text) ↔
      ¬ Unresolved m r ∧ ¬ Unavailable m r ∧ ¬ ∃ ids, Builds m r ids ∧ Misfocused r ids) ∧
    ¬ FailsWith m r .unexpected ∧ ¬ FailsWith m r .serializationFailed ∧
    ∀ p, r.view ≠ .dependency → r.pass = none → LastCarrying m r.view p →
      selectPass m r.view r.pass = .ok (some p) ∧ renderView m r = renderFrom m r (some p) := by
  refine ⟨by simp [failsWith_iff], by simp [failsWith_iff], ?_, exists_ok_iff,
    by simp [failsWith_iff], by simp [failsWith_iff], fun p hview hnone hp => ?_⟩
  · have hreason : FailsWith m r .invalidArgument ↔ ∃ ids, Builds m r ids ∧ Misfocused r ids := by
      simp [failsWith_iff]
    rw [hreason]
    constructor
    · rintro ⟨ids, hbuilds, h⟩
      exact ⟨not_unresolved_of_builds hbuilds, not_unavailable_of_builds hbuilds, ids, hbuilds, h⟩
    · rintro ⟨-, -, h⟩
      exact h
  · have hselect := selectPass_of_lastCarrying hview hnone hp
    refine ⟨hselect, ?_⟩
    rw [renderView, hselect]
    rfl

end Cli

end IrView
