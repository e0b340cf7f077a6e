import Mathlib.Order.WellFoundedSet
import IrView.Proofs.Flow.Unreached

/-!
# Right above the highest successor

A node that the root does not reach is placed once, by the successors that have a level at that
time. A successor that gets its level later can come to lie as high as the node or higher, and then
the node stays. So whether the node ends right above the highest of its successors
(`Adjacency.RightAbove`) depends on the order in which the nodes are listed: it does if every
successor is listed before the nodes that lead to it (`rightAbove_of_successorsFirst`).

If the nodes that the root does not reach form no cycle, then the levels at which all of them are
right above their highest successors are determined by the graph, and an order of the nodes that
gives other levels puts nodes lower, never higher (`level_le_of_rightAbove`).
-/

namespace IrView

namespace Flow

open Relation

namespace Adjacency

/-- The root does not reach the node, but a way leads from it to a node that the root reaches. -/
def Stray (g : Adjacency) (root u : NodeId) : Prop :=
  ¬ ReflTransGen g.Leads root u ∧ g.Meets root u

/-- The node lies one level above the highest successor, apart from those from which no way leads
to a node that the root reaches. -/
def RightAbove (g : Adjacency) (root u : NodeId) : Prop :=
  ∃ n, (level g root).levels[u]? = some n ∧
    IsLeast {m | ∃ v, g.Leads u v ∧ g.Meets root v ∧ (level g root).levels[v]? = some m} (n + 1)

/-- An edge between two nodes that the root does not reach. -/
def LeadsOutside (g : Adjacency) (root u v : NodeId) : Prop :=
  g.Leads u v ∧ ¬ ReflTransGen g.Leads root u ∧ ¬ ReflTransGen g.Leads root v

/-- No cycle consists only of nodes that the root does not reach. -/
def AcyclicOutside (g : Adjacency) (root : NodeId) : Prop :=
  ∀ u, ¬ TransGen (g.LeadsOutside root) u u

/-- Among the nodes that the root does not reach, a successor is listed before the nodes that lead
to it, unless no way leads from it to a node that the root reaches. -/
def SuccessorsFirst (g : Adjacency) (root : NodeId) : Prop :=
  ∀ u v, g.LeadsOutside root u v → g.Meets root v → g.order.idxOf v < g.order.idxOf u

variable {g g' : Adjacency} {root u v : NodeId}

theorem meets_of_leads_eq (h : g'.Leads = g.Leads) : g'.Meets root u ↔ g.Meets root u := by
  rw [Meets, h]
  rfl

theorem stray_of_leads_eq (h : g'.Leads = g.Leads) : g'.Stray root u ↔ g.Stray root u := by
  rw [Stray, meets_of_leads_eq h, h]
  rfl

theorem acyclicOutside_of_leads_eq (h : g'.Leads = g.Leads) :
    g'.AcyclicOutside root ↔ g.AcyclicOutside root := by
  have houtside : g'.LeadsOutside root = g.LeadsOutside root := by
    unfold LeadsOutside
    rw [h]
  rw [AcyclicOutside, houtside]
  rfl

theorem not_due_zero (hu : ¬ ReflTransGen g.Leads root u) : ¬ g.Due root 0 u := by
  rintro ⟨h⟩
  exact hu h

/-- If successors are listed first, one round places all nodes that are placed at all. -/
theorem SuccessorsFirst.due_one (hfirst : g.SuccessorsFirst root)
    (hu : ¬ ReflTransGen g.Leads root u) (hmeets : g.Meets root u) : g.Due root 1 u := by
  obtain ⟨w, hw, hreached⟩ := hmeets
  induction hw using ReflTransGen.head_induction_on with
  | refl => exact absurd hreached hu
  | @head u v huv hvw ih =>
    by_cases hv : ReflTransGen g.Leads root v
    · exact .after huv (.reached hv)
    · exact .behind huv (hfirst u v ⟨huv, hu, hv⟩ ⟨w, hvw, hreached⟩) (ih hv)

/-- If successors are listed first, they have a level when a node is placed. -/
theorem SuccessorsFirst.precedes (hfirst : g.SuccessorsFirst root)
    (hu : ¬ ReflTransGen g.Leads root u) (huv : g.Leads u v) (hv : g.Meets root v) :
    g.Precedes root v u := by
  have hlater : ∀ j, g.Due root j u → 0 < j := fun j hj =>
    Nat.pos_of_ne_zero (by rintro rfl; exact not_due_zero hu hj)
  by_cases hreached : ReflTransGen g.Leads root v
  · exact ⟨0, .reached hreached, fun j hj => Or.inl (hlater j hj)⟩
  · refine ⟨1, hfirst.due_one hreached hv, fun j hj => ?_⟩
    have hlt := hfirst u v ⟨huv, hu, hreached⟩ hv
    exact (Nat.lt_or_eq_of_le (hlater j hj)).imp_right fun h => ⟨h, hlt⟩

/-- Where there is no cycle outside, what holds of a node if it holds of all nodes that it leads to
outside holds of all nodes. -/
theorem AcyclicOutside.induction (hacyclic : g.AcyclicOutside root) {P : NodeId → Prop}
    (hstep : ∀ u, (∀ v, g.LeadsOutside root u v → P v) → P u) (u : NodeId) : P u := by
  have hstrict : IsStrictOrder NodeId fun v u => TransGen (g.LeadsOutside root) u v :=
    { irrefl := hacyclic, trans := fun _ _ _ h h' => h'.trans h }
  have hwf := (List.finite_toSet g.order).wellFoundedOn
    (r := fun v u => TransGen (g.LeadsOutside root) u v)
  have horder : ∀ v ∈ g.order, P v := fun v hv =>
    hwf.induction hv fun u _ ih => hstep u fun v huv => ih v huv.1.2.1 (.single huv)
  exact hstep u fun v huv => horder v huv.1.2.1

end Adjacency

open Adjacency

variable {g g' : Adjacency} {root u v : NodeId}

/-- A node ends right above its highest successor just if no successor gets as high as the node. -/
theorem rightAbove_iff (hroot : root ∈ g.order) (hu : g.Stray root u) {n : Int}
    (hn : (level g root).levels[u]? = some n) : g.RightAbove root u ↔
      ∀ v m, g.Leads u v → g.Meets root v → (level g root).levels[v]? = some m → n < m := by
  obtain ⟨n', hn', ⟨v, huv, hprecedes, hv⟩, -⟩ := exists_level_above hroot hu.1 hu.2
  obtain rfl : n = n' := Option.some.inj (hn.symm.trans hn')
  constructor
  · rintro ⟨n', hn', -, hle⟩ v m huv hmeets hm
    obtain rfl : n = n' := Option.some.inj (hn.symm.trans hn')
    exact Int.add_one_le_iff.1 (hle ⟨v, huv, hmeets, hm⟩)
  · intro hlt
    refine ⟨n, hn, ⟨v, huv, hprecedes.meets, hv⟩, ?_⟩
    rintro m ⟨v, huv, hmeets, hm⟩
    exact Int.add_one_le_iff.2 (hlt v m huv hmeets hm)

/-- A node whose successors all have a level when it is placed ends right above the highest. -/
theorem rightAbove_of_precedes (hroot : root ∈ g.order) (hu : g.Stray root u)
    (hprecedes : ∀ v, g.Leads u v → g.Meets root v → g.Precedes root v u) :
    g.RightAbove root u := by
  obtain ⟨n, hn, ⟨v, huv, hv, hm⟩, hle⟩ := exists_level_above hroot hu.1 hu.2
  refine ⟨n, hn, ⟨v, huv, hv.meets, hm⟩, ?_⟩
  rintro m ⟨v, huv, hmeets, hm⟩
  exact hle ⟨v, huv, hprecedes v huv hmeets, hm⟩

theorem rightAbove_of_successorsFirst (hroot : root ∈ g.order) (hfirst : g.SuccessorsFirst root)
    (hu : g.Stray root u) : g.RightAbove root u :=
  rightAbove_of_precedes hroot hu fun _ huv hv => hfirst.precedes hu.1 huv hv

/-- The order of the nodes matters only for the nodes that the root does not reach and from which a
way leads to one that it reaches. -/
theorem level_eq_of_not_stray (hleads : g'.Leads = g.Leads) (hroot : root ∈ g.order)
    (hroot' : root ∈ g'.order) (hu : u ∈ g.order) (hu' : u ∈ g'.order) (h : ¬ g.Stray root u) :
    (level g' root).levels[u]? = (level g root).levels[u]? := by
  have hdistance : ∀ v d, g'.Distance root v d ↔ g.Distance root v d := fun v d => by
    rw [Adjacency.Distance, hleads]
    rfl
  by_cases hreached : ReflTransGen g.Leads root u
  · obtain ⟨d, hd⟩ := exists_distance_of_reaches hroot hreached
    rw [getElem?_level hroot hd, getElem?_level hroot' ((hdistance u d).2 hd)]
  · have hmeets : ¬ g.Meets root u := fun hmeets => h ⟨hreached, hmeets⟩
    obtain ⟨far, hfar⟩ := exists_isGreatest_distance hroot
    rw [level_of_not_meets hroot hfar hu hmeets]
    refine level_of_not_meets hroot' ?_ hu' (mt (meets_of_leads_eq hleads).1 hmeets)
    simpa only [hdistance] using hfar

/-- Where all nodes are right above their highest successors, none is lower than in another order of
the nodes. -/
theorem level_le_of_rightAbove (hleads : g'.Leads = g.Leads) (hroot : root ∈ g.order)
    (hroot' : root ∈ g'.order) (hacyclic : g.AcyclicOutside root)
    (habove : ∀ u, g.Stray root u → g.RightAbove root u) (hu : u ∈ g.order) (hu' : u ∈ g'.order) :
    ∃ n n', (level g root).levels[u]? = some n ∧ (level g' root).levels[u]? = some n' ∧
      n ≤ n' := by
  have hequal : ∀ u ∈ g.order, u ∈ g'.order → ¬ g.Stray root u → ∃ n n',
      (level g root).levels[u]? = some n ∧ (level g' root).levels[u]? = some n' ∧ n ≤ n' := by
    intro u hu hu' hstray
    obtain ⟨n, hn⟩ := exists_level hroot hu
    have heq := level_eq_of_not_stray hleads hroot hroot' hu hu' hstray
    exact ⟨n, n, hn, heq.trans hn, le_rfl⟩
  induction u using hacyclic.induction with
  | _ u ih =>
    by_cases hstray : g.Stray root u
    · obtain ⟨n, hn, -, hle⟩ := habove u hstray
      have hstray' : g'.Stray root u := (stray_of_leads_eq hleads).2 hstray
      obtain ⟨n', hn', ⟨v, huv', hprecedes, hv'⟩, -⟩ :=
        exists_level_above hroot' hstray'.1 hstray'.2
      have huv : g.Leads u v := hleads ▸ huv'
      have hmeets : g.Meets root v := (meets_of_leads_eq hleads).1 hprecedes.meets
      -- the successor below it in the other order is no higher there, by induction
      obtain ⟨m, m', hm, hm', hmm⟩ : ∃ m m', (level g root).levels[v]? = some m ∧
          (level g' root).levels[v]? = some m' ∧ m ≤ m' := by
        by_cases hv : ReflTransGen g.Leads root v
        · exact hequal v huv.2.1 huv'.2.1 fun h => h.1 hv
        · exact ih v ⟨huv, hstray.1, hv⟩ huv.2.1 huv'.2.1
      obtain rfl : m' = n' + 1 := Option.some.inj (hm'.symm.trans hv')
      exact ⟨n, n', hn, hn', Int.le_of_add_le_add_right ((hle ⟨v, huv, hmeets, hm⟩).trans hmm)⟩
    · exact hequal u hu hu' hstray

theorem level_eq_of_rightAbove (hleads : g'.Leads = g.Leads) (hroot : root ∈ g.order)
    (hroot' : root ∈ g'.order) (hacyclic : g.AcyclicOutside root)
    (habove : ∀ u, g.Stray root u → g.RightAbove root u)
    (habove' : ∀ u, g'.Stray root u → g'.RightAbove root u) (hu : u ∈ g.order)
    (hu' : u ∈ g'.order) : (level g' root).levels[u]? = (level g root).levels[u]? := by
  have hacyclic' := (acyclicOutside_of_leads_eq hleads).2 hacyclic
  obtain ⟨n, n', hn, hn', hle⟩ :=
    level_le_of_rightAbove hleads hroot hroot' hacyclic habove hu hu'
  obtain ⟨m', m, hm', hm, hge⟩ :=
    level_le_of_rightAbove hleads.symm hroot' hroot hacyclic' habove' hu' hu
  obtain rfl : n = m := Option.some.inj (hn.symm.trans hm)
  obtain rfl : n' = m' := Option.some.inj (hn'.symm.trans hm')
  rw [hn, hn', le_antisymm hge hle]

/-- **When nodes that the root does not reach lie above all their successors.** If a way leads from
such a node to one that the root reaches, it lies right above the highest of the successors that have
a level when it is placed, and this is the highest of all just if no successor ends as high as the
node. It is if successors are listed first. Other nodes have the same level in any order. If no cycle
lies outside, then no node is higher in another order than in one that puts all right above their
highest successors, and the levels of two such orders agree. -/
theorem level_above_successors (nodes : List NodeId) (edges : List Edge) (root : NodeId)
    (hroot : root ∈ nodes) :
    let g := ofLists nodes edges
    let levels := (level g root).levels
    (∀ u, g.Stray root u → ∃ n, levels[u]? = some n ∧
      IsLeast {m | ∃ v, g.Leads u v ∧ g.Precedes root v u ∧ levels[v]? = some m} (n + 1) ∧
      (g.RightAbove root u ↔
        ∀ v m, g.Leads u v → g.Meets root v → levels[v]? = some m → n < m)) ∧
    (g.SuccessorsFirst root → ∀ u, g.Stray root u → g.RightAbove root u) ∧
    ∀ nodes' edges', nodes'.Perm nodes → edges'.Perm edges →
      let g' := ofLists nodes' edges'
      let levels' := (level g' root).levels
      (∀ v ∈ nodes, ¬ g.Stray root v → levels'[v]? = levels[v]?) ∧
      (g.AcyclicOutside root → (∀ u, g.Stray root u → g.RightAbove root u) →
        (∀ v ∈ nodes, ∃ n n', levels[v]? = some n ∧ levels'[v]? = some n' ∧ n ≤ n') ∧
        ((∀ u, g'.Stray root u → g'.RightAbove root u) →
          ∀ v ∈ nodes, levels'[v]? = levels[v]?)) := by
  intro g levels
  have hmem : ∀ {id}, id ∈ g.order ↔ id ∈ nodes := mem_order_ofLists
  refine ⟨fun u hu => ?_, fun hfirst u hu =>
    rightAbove_of_successorsFirst (hmem.2 hroot) hfirst hu, fun nodes' edges' hn he => ?_⟩
  · obtain ⟨n, hlevel, hleast⟩ := exists_level_above (hmem.2 hroot) hu.1 hu.2
    exact ⟨n, hlevel, hleast, rightAbove_iff (hmem.2 hroot) hu hlevel⟩
  · intro g' levels'
    have hleads : g'.Leads = g.Leads := leads_ofLists_perm hn he
    have hmem' : ∀ {id}, id ∈ g'.order ↔ id ∈ nodes := mem_order_ofLists.trans hn.mem_iff
    refine ⟨fun v hv => level_eq_of_not_stray hleads (hmem.2 hroot) (hmem'.2 hroot) (hmem.2 hv)
      (hmem'.2 hv), fun hacyclic habove => ⟨fun v hv => ?_, fun habove' v hv => ?_⟩⟩
    · exact level_le_of_rightAbove hleads (hmem.2 hroot) (hmem'.2 hroot) hacyclic habove
        (hmem.2 hv) (hmem'.2 hv)
    · exact level_eq_of_rightAbove hleads (hmem.2 hroot) (hmem'.2 hroot) hacyclic habove habove'
        (hmem.2 hv) (hmem'.2 hv)

/-- Two nodes that the root does not reach. The one leads to the other and to a node that the root
reaches. -/
def lateSuccessor : List Edge :=
  [⟨0, 1, 2⟩, ⟨1, 3, 2⟩, ⟨2, 3, 4⟩, ⟨3, 4, 1⟩]

section LateSuccessor

variable {nodes : List NodeId} (hn : nodes.Perm [1, 2, 3, 4])

include hn

theorem leads_lateSuccessor : (ofLists nodes lateSuccessor).Leads u v ↔
    u = 1 ∧ v = 2 ∨ u = 3 ∧ v = 2 ∨ u = 3 ∧ v = 4 ∨ u = 4 ∧ v = 1 := by
  rw [leads_ofLists_perm hn (.refl lateSuccessor)]
  constructor
  · intro h
    obtain ⟨-, -, e, he, rfl, rfl⟩ := leads_ofLists.1 h
    revert h e
    simp [lateSuccessor]
  · rintro (⟨rfl, rfl⟩ | ⟨rfl, rfl⟩ | ⟨rfl, rfl⟩ | ⟨rfl, rfl⟩) <;> exact leads_ofLists.2 (by decide)

theorem reaches_lateSuccessor :
    ReflTransGen (ofLists nodes lateSuccessor).Leads 1 v ↔ v = 1 ∨ v = 2 := by
  constructor
  · intro h
    induction h with
    | refl => exact Or.inl rfl
    | tail _ h ih =>
      rw [leads_lateSuccessor hn] at h
      grind
  · rintro (rfl | rfl)
    · exact .refl
    · exact .single ((leads_lateSuccessor hn).2 (by decide))

theorem leadsOutside_lateSuccessor (h : (ofLists nodes lateSuccessor).LeadsOutside 1 u v) :
    u = 3 ∧ v = 4 := by
  obtain ⟨huv, hu, hv⟩ := h
  rw [leads_lateSuccessor hn] at huv
  rw [reaches_lateSuccessor hn] at hu hv
  grind

theorem acyclicOutside_lateSuccessor : (ofLists nodes lateSuccessor).AcyclicOutside 1 := by
  have hlt : ∀ u v, TransGen ((ofLists nodes lateSuccessor).LeadsOutside 1) u v → u < v := by
    intro u v h
    induction h with
    | single h =>
      obtain ⟨rfl, rfl⟩ := leadsOutside_lateSuccessor hn h
      decide
    | tail _ h ih =>
      obtain ⟨rfl, rfl⟩ := leadsOutside_lateSuccessor hn h
      exact ih.trans (by decide)
  exact fun u h => (hlt u u h).false

theorem stray_lateSuccessor (hu : u = 3 ∨ u = 4) :
    (ofLists nodes lateSuccessor).Stray 1 u := by
  refine ⟨fun h => ?_, ?_⟩
  · rw [reaches_lateSuccessor hn] at h
    grind
  · rcases hu with rfl | rfl
    · exact ⟨2, .single ((leads_lateSuccessor hn).2 (by decide)),
        (reaches_lateSuccessor hn).2 (by decide)⟩
    · exact ⟨1, .single ((leads_lateSuccessor hn).2 (by decide)), .refl⟩

theorem level_lateSuccessor :
    (level (ofLists nodes lateSuccessor) 1).levels[(2 : NodeId)]? = some 1 ∧
      (level (ofLists nodes lateSuccessor) 1).levels[(4 : NodeId)]? = some (-1) := by
  have hroot : (1 : NodeId) ∈ (ofLists nodes lateSuccessor).order :=
    mem_order_ofLists.2 (hn.mem_iff.2 (by decide))
  have hone := getElem?_level hroot distance_root
  have hdistance : (ofLists nodes lateSuccessor).Distance 1 2 1 := by
    refine ⟨⟨[1], .extend .start ((leads_lateSuccessor hn).2 (by decide)), rfl⟩, fun p hp => ?_⟩
    cases hp with
    | extend => exact Nat.le_add_left 1 _
  refine ⟨getElem?_level hroot hdistance, ?_⟩
  obtain ⟨hunreached, hmeets⟩ := stray_lateSuccessor hn (Or.inr rfl)
  obtain ⟨n, hlevel, ⟨v, hv, -, hm⟩, -⟩ := exists_level_above hroot hunreached hmeets
  obtain rfl : v = 1 := by
    rw [leads_lateSuccessor hn] at hv
    grind
  rw [hone, Option.some.injEq] at hm
  rw [hlevel, Option.some.injEq]
  omega

theorem successorsFirst_lateSuccessor (hlt : (ofLists nodes lateSuccessor).order.idxOf 4 <
    (ofLists nodes lateSuccessor).order.idxOf 3) :
    (ofLists nodes lateSuccessor).SuccessorsFirst 1 := by
  rintro u v h -
  obtain ⟨rfl, rfl⟩ := leadsOutside_lateSuccessor hn h
  exact hlt

end LateSuccessor

theorem level_above_successors_lateSuccessor :
    let g := ofLists [1, 2, 4, 3] lateSuccessor
    (1 : NodeId) ∈ [1, 2, 4, 3] ∧ g.RightAbove 1 3 ∧
      ∃ n n', (level g 1).levels[(3 : NodeId)]? = some n ∧
        (level (ofLists [1, 2, 3, 4] lateSuccessor) 1).levels[(3 : NodeId)]? = some n' ∧
        n ≤ n' := by
  intro g
  have hn : [(1 : NodeId), 2, 4, 3].Perm [1, 2, 3, 4] := by decide
  obtain ⟨-, hfirst, horder⟩ :=
    level_above_successors [1, 2, 4, 3] lateSuccessor 1 (by decide)
  have habove := hfirst (successorsFirst_lateSuccessor hn (by decide))
  obtain ⟨-, hle⟩ := horder [1, 2, 3, 4] lateSuccessor hn.symm (.refl lateSuccessor)
  obtain ⟨hle, -⟩ := hle (acyclicOutside_lateSuccessor hn) habove
  exact ⟨by decide, habove 3 (stray_lateSuccessor hn (Or.inl rfl)), hle 3 (by decide)⟩

/-- A node can end below one of its successors, and how high it is depends on the order of the
nodes, although no cycle lies outside what the root reaches. -/
theorem lateSuccessor_not_rightAbove :
    let g := ofLists [1, 2, 3, 4] lateSuccessor
    let g' := ofLists [1, 2, 4, 3] lateSuccessor
    (1 : NodeId) ∈ g.order ∧ g.AcyclicOutside 1 ∧ g.Stray 1 3 ∧ ¬ g.RightAbove 1 3 ∧
      (g.Leads 3 4 ∧ g.Stray 1 4 ∧ (level g 1).levels[(3 : NodeId)]? = some 0 ∧
        (level g 1).levels[(4 : NodeId)]? = some (-1)) ∧
      (level g' 1).levels[(3 : NodeId)]? = some (-2) := by
  intro g g'
  have hn : [(1 : NodeId), 2, 3, 4].Perm [1, 2, 3, 4] := .refl _
  have hn' : [(1 : NodeId), 2, 4, 3].Perm [1, 2, 3, 4] := by decide
  have hroot : (1 : NodeId) ∈ g.order := mem_order_ofLists.2 (by decide)
  have hroot' : (1 : NodeId) ∈ g'.order := mem_order_ofLists.2 (by decide)
  have hstray : g.Stray 1 3 := stray_lateSuccessor hn (Or.inl rfl)
  have hleads : g.Leads 3 4 := (leads_lateSuccessor hn).2 (by decide)
  obtain ⟨htwo, hfour⟩ := level_lateSuccessor hn
  -- it has a level before its successor `4`
  have hlate : ¬ g.Precedes 1 4 3 := by
    rintro ⟨k, hdue, hearlier⟩
    have hthree : g.Due 1 1 3 := .after ((leads_lateSuccessor hn).2 (by decide))
      (.reached ((reaches_lateSuccessor hn).2 (Or.inr rfl)))
    rcases hearlier 1 hthree with hlt | ⟨-, hlt⟩
    · obtain rfl : k = 0 := Nat.lt_one_iff.1 hlt
      exact not_due_zero (stray_lateSuccessor hn (Or.inr rfl)).1 hdue
    · exact absurd hlt (by decide)
  have hthree : (level g 1).levels[(3 : NodeId)]? = some 0 := by
    obtain ⟨n, hlevel, ⟨v, hv, hprecedes, hm⟩, -⟩ := exists_level_above hroot hstray.1 hstray.2
    obtain rfl : v = 2 := by
      rw [leads_lateSuccessor hn] at hv
      grind
    rw [htwo, Option.some.injEq] at hm
    rw [hlevel, Option.some.injEq]
    omega
  refine ⟨hroot, acyclicOutside_lateSuccessor hn, hstray, ?_,
    ⟨hleads, stray_lateSuccessor hn (Or.inr rfl), hthree, hfour⟩, ?_⟩
  · rw [rightAbove_iff hroot hstray hthree]
    intro h
    exact absurd (h 4 (-1) hleads (stray_lateSuccessor hn (Or.inr rfl)).2 hfour) (by decide)
  · obtain ⟨htwo, hfour⟩ := level_lateSuccessor hn'
    obtain ⟨n, hlevel, ⟨v, hv, -, hm⟩, hle⟩ := rightAbove_of_successorsFirst hroot'
      (successorsFirst_lateSuccessor hn' (by decide)) (stray_lateSuccessor hn' (Or.inl rfl))
    have hn := hle ⟨4, (leads_lateSuccessor hn').2 (by decide),
      (stray_lateSuccessor hn' (Or.inr rfl)).2, hfour⟩
    rw [leads_lateSuccessor hn'] at hv
    rw [hlevel, Option.some.injEq]
    have : v = 2 ∨ v = 4 := by grind
    rcases this with rfl | rfl
    · rw [htwo, Option.some.injEq] at hm
      omega
    · rw [hfour, Option.some.injEq] at hm
      omega

end Flow

end IrView
