import Mathlib.Data.List.Nodup
import IrView.Proofs.Flow.DepthFirst

/-!
# Backedges and dominators

A node dominates another one if every way from the root to the other one passes through it. An edge
to a dominator of its source closes a loop in whatever order a walk goes, because the path of the
walk is a way from the root: it is always found. A walk enters only nodes that are not on its path,
so it enters no node along such an edge. In a reducible graph, where all cycles need such an edge,
the edges found are therefore exactly these, for any order of the nodes and of the edges
(`backedges_of_dominated`).
-/

namespace IrView

namespace Flow

open Relation

namespace Adjacency

/-- Every way from the root to `u` passes through `v`. -/
def Dominates (g : Adjacency) (root v u : NodeId) : Prop :=
  ∀ p, Trail g.Leads root (u :: p) → v ∈ u :: p

/-- The root reaches `u`, and never without passing through `v`. -/
def LoopsBack (g : Adjacency) (root u v : NodeId) : Prop :=
  ReflTransGen g.Leads root u ∧ g.Dominates root v u

/-- An edge leads from one node to another that does not dominate it. -/
def LeadsForward (g : Adjacency) (root u v : NodeId) : Prop :=
  g.Leads u v ∧ ¬ g.LoopsBack root u v

/-- Without the edges to dominators of their source, the root reaches no cycle. -/
def Reducible (g : Adjacency) (root : NodeId) : Prop :=
  ∀ v, ReflTransGen (g.LeadsForward root) root v → ¬ TransGen (g.LeadsForward root) v v

variable {g : Adjacency} {root u v : NodeId}

/-- A way without detours never leads to a dominator. -/
theorem trail_leadsForward {l : List NodeId} (h : Trail g.Leads root l) (hnd : l.Nodup) :
    Trail (g.LeadsForward root) root l := by
  induction h with
  | start => exact .start
  | extend h huv ih =>
    obtain ⟨hv, hnd⟩ := List.nodup_cons.1 hnd
    exact (ih hnd).extend ⟨huv, fun hloop => hv (hloop.2 _ h)⟩

/-- In a reducible graph an edge that leads back into a way without detours leads to a
dominator. -/
theorem loopsBack_of_mem_trail (hred : g.Reducible root) {p : List NodeId}
    (hp : Trail g.Leads root (u :: p)) (hnd : (u :: p).Nodup) (huv : g.Leads u v)
    (hv : v ∈ u :: p) : g.LoopsBack root u v := by
  by_contra hloop
  have hforward := trail_leadsForward hp hnd
  have hcycle : TransGen (g.LeadsForward root) u u :=
    .head' ⟨huv, hloop⟩ (hforward.reaches_of_mem hv)
  exact hred u hforward.reaches hcycle

/-! ### Graphs from lists -/

variable {nodes nodes' : List NodeId} {edges edges' : List Edge}

theorem mem_arcs_ofLists {arc : Arc} :
    arc ∈ (ofLists nodes edges).arcs u ↔ ∃ e ∈ edges, e.source = u ∧ e.arc = arc := by
  rw [arcs_ofLists]
  simp [and_assoc]

theorem leads_ofLists : (ofLists nodes edges).Leads u v ↔
    u ∈ nodes ∧ v ∈ nodes ∧ ∃ e ∈ edges, e.source = u ∧ e.target = v := by
  refine and_congr mem_order_ofLists (and_congr mem_order_ofLists ?_)
  constructor
  · rintro ⟨_, harc, rfl⟩
    obtain ⟨e, he, hs, rfl⟩ := mem_arcs_ofLists.1 harc
    exact ⟨e, he, hs, rfl⟩
  · rintro ⟨e, he, hs, rfl⟩
    exact ⟨e.arc, mem_arcs_ofLists.2 ⟨e, he, hs, rfl⟩, rfl⟩

/-- Which nodes are led to does not depend on the order of the nodes and edges. -/
theorem leads_ofLists_perm (hn : nodes'.Perm nodes) (he : edges'.Perm edges) :
    (ofLists nodes' edges').Leads = (ofLists nodes edges).Leads := by
  funext u v
  simp only [leads_ofLists, hn.mem_iff, he.mem_iff]

theorem loopsBack_of_leads_eq {g g' : Adjacency} (h : g'.Leads = g.Leads) :
    g'.LoopsBack root = g.LoopsBack root := by
  unfold LoopsBack Dominates
  rw [h]

theorem reducible_of_leads_eq {g g' : Adjacency} (h : g'.Leads = g.Leads) :
    g'.Reducible root ↔ g.Reducible root := by
  unfold Reducible LeadsForward
  rw [h, loopsBack_of_leads_eq h]

end Adjacency

open Adjacency

variable {root : NodeId} {nodes : List NodeId} {edges : List Edge}

/-- An edge to a dominator of its source is found. -/
theorem mem_backedges_of_loopsBack (hroot : root ∈ nodes) {e : Edge} (he : e ∈ edges)
    (hloop : (ofLists nodes edges).LoopsBack root e.source e.target) :
    e.index ∈ backedges (ofLists nodes edges) root := by
  obtain ⟨p, hp, -, hfound⟩ := exists_trail_of_reaches (mem_order_ofLists.2 hroot) hloop.1
  exact hfound e.arc (mem_arcs_ofLists.2 ⟨e, he, rfl, rfl⟩) (hloop.2 p hp)

/-- In a reducible graph only edges to a dominator of their source are found. -/
theorem loopsBack_of_mem_backedges (hred : (ofLists nodes edges).Reducible root) {i : Nat}
    (hi : i ∈ backedges (ofLists nodes edges) root) :
    ∃ e ∈ edges, e.index = i ∧ (ofLists nodes edges).LoopsBack root e.source e.target := by
  have hroot := (mem_backedges.1 hi).1
  obtain ⟨u, p, hp, hnd, arc, harc, rfl, ht⟩ := exists_trail_of_mem_backedges hi
  have hknown := mem_order_of_trail hroot hp
  have hleads : (ofLists nodes edges).Leads u arc.target :=
    ⟨hknown _ List.mem_cons_self, hknown _ ht, arc, harc, rfl⟩
  have hloop := loopsBack_of_mem_trail hred hp hnd hleads ht
  obtain ⟨e, he, rfl, rfl⟩ := mem_arcs_ofLists.1 harc
  exact ⟨e, he, rfl, hloop⟩

theorem mem_backedges_iff_loopsBack (hroot : root ∈ nodes)
    (hred : (ofLists nodes edges).Reducible root) {i : Nat} :
    i ∈ backedges (ofLists nodes edges) root ↔
      ∃ e ∈ edges, e.index = i ∧ (ofLists nodes edges).LoopsBack root e.source e.target := by
  refine ⟨loopsBack_of_mem_backedges hred, ?_⟩
  rintro ⟨e, he, rfl, hloop⟩
  exact mem_backedges_of_loopsBack hroot he hloop

/-- **Loop edges are found in whatever order.** An edge from a node that the root reaches to one of
its dominators is found. In a reducible graph no other edge is, so that the edges found do not
depend on the order of the nodes and of the edges. -/
theorem backedges_of_dominated (hdistinct : (edges.map Edge.index).Nodup) (hroot : root ∈ nodes) :
    let g := ofLists nodes edges
    (∀ e ∈ edges, g.LoopsBack root e.source e.target → e.index ∈ backedges g root) ∧
    (g.Reducible root →
      (∀ e ∈ edges, e.index ∈ backedges g root ↔ g.LoopsBack root e.source e.target) ∧
      (∀ i ∈ backedges g root, ∃ e ∈ edges, e.index = i) ∧
      ∀ nodes' edges', nodes'.Perm nodes → edges'.Perm edges →
        ∀ i, i ∈ backedges (ofLists nodes' edges') root ↔ i ∈ backedges g root) := by
  intro g
  refine ⟨fun e he => mem_backedges_of_loopsBack hroot he, fun hred => ⟨fun e he => ?_,
    fun i hi => ?_, fun nodes' edges' hn he i => ?_⟩⟩
  · refine ⟨fun hi => ?_, mem_backedges_of_loopsBack hroot he⟩
    -- the number tells which edge was found
    obtain ⟨e', he', hi', hloop⟩ := loopsBack_of_mem_backedges hred hi
    obtain rfl := List.inj_on_of_nodup_map hdistinct he' he hi'
    exact hloop
  · obtain ⟨e, he, hi', -⟩ := loopsBack_of_mem_backedges hred hi
    exact ⟨e, he, hi'⟩
  · have hleads := leads_ofLists_perm hn he
    rw [mem_backedges_iff_loopsBack hroot hred, mem_backedges_iff_loopsBack (hn.mem_iff.2 hroot)
      ((reducible_of_leads_eq hleads).2 hred), loopsBack_of_leads_eq hleads]
    simp only [he.mem_iff]

/-- A loop of two nodes, one of which is also alone in a loop. -/
def nestedLoops : List Edge :=
  [⟨0, 1, 2⟩, ⟨1, 2, 3⟩, ⟨2, 3, 2⟩, ⟨3, 3, 3⟩]

theorem leads_nestedLoops {u v : NodeId} (h : (ofLists [1, 2, 3] nestedLoops).Leads u v) :
    u = 1 ∧ v = 2 ∨ u = 2 ∧ v = 3 ∨ u = 3 ∧ v = 2 ∨ u = 3 ∧ v = 3 := by
  obtain ⟨-, -, e, he, rfl, rfl⟩ := leads_ofLists.1 h
  revert h e
  simp [nestedLoops]

theorem loopsBack_nestedLoops {v : NodeId} (hv : v = 2 ∨ v = 3) :
    (ofLists [1, 2, 3] nestedLoops).LoopsBack 1 3 v := by
  have hleads : ∀ u v, u ∈ [1, 2, 3] → v ∈ [1, 2, 3] →
      (∃ e ∈ nestedLoops, e.source = u ∧ e.target = v) →
      (ofLists [1, 2, 3] nestedLoops).Leads u v := fun u v hu hv he => leads_ofLists.2 ⟨hu, hv, he⟩
  have hthrough : ∀ l, Trail (ofLists [1, 2, 3] nestedLoops).Leads 1 l → 3 ∈ l → 2 ∈ l := by
    intro l hl
    induction hl with
    | start => decide
    | extend h huv ih =>
      intro h3
      rcases leads_nestedLoops huv with ⟨rfl, rfl⟩ | ⟨rfl, rfl⟩ | ⟨rfl, rfl⟩ | ⟨rfl, rfl⟩
      · simp
      · simp
      · simp
      · exact List.mem_cons_of_mem _ (ih List.mem_cons_self)
  refine ⟨.head (hleads 1 2 (by decide) (by decide) (by decide))
    (.single (hleads 2 3 (by decide) (by decide) (by decide))), fun p hp => ?_⟩
  rcases hv with rfl | rfl
  · exact hthrough _ hp List.mem_cons_self
  · exact List.mem_cons_self

theorem reducible_nestedLoops : (ofLists [1, 2, 3] nestedLoops).Reducible 1 := by
  have hlt : ∀ u v, (ofLists [1, 2, 3] nestedLoops).LeadsForward 1 u v → u < v := by
    rintro u v ⟨hleads, hloop⟩
    rcases leads_nestedLoops hleads with ⟨rfl, rfl⟩ | ⟨rfl, rfl⟩ | ⟨rfl, rfl⟩ | ⟨rfl, rfl⟩
    · decide
    · decide
    · exact absurd (loopsBack_nestedLoops (Or.inl rfl)) hloop
    · exact absurd (loopsBack_nestedLoops (Or.inr rfl)) hloop
  -- forward edges lead to greater numbers, so a cycle cannot close
  have hlt' : ∀ u v, TransGen ((ofLists [1, 2, 3] nestedLoops).LeadsForward 1) u v → u < v := by
    intro u v h
    induction h with
    | single h => exact hlt _ _ h
    | tail _ h ih => exact Int.lt_trans ih (hlt _ _ h)
  exact fun v _ hcycle => Int.lt_irrefl v (hlt' v v hcycle)

theorem backedges_nestedLoops :
    (nestedLoops.map Edge.index).Nodup ∧ (1 : NodeId) ∈ [1, 2, 3] ∧
      ∀ edges', edges'.Perm nestedLoops →
        2 ∈ backedges (ofLists [1, 2, 3] edges') 1 ∧
          0 ∉ backedges (ofLists [1, 2, 3] edges') 1 := by
  have hdistinct : (nestedLoops.map Edge.index).Nodup := by decide
  have hroot : (1 : NodeId) ∈ [1, 2, 3] := by decide
  refine ⟨hdistinct, hroot, fun edges' he => ?_⟩
  obtain ⟨-, hred⟩ := backedges_of_dominated hdistinct hroot
  obtain ⟨hiff, -, hperm⟩ := hred reducible_nestedLoops
  rw [hperm _ _ (.refl _) he, hperm _ _ (.refl _) he]
  refine ⟨(hiff ⟨2, 3, 2⟩ (by decide)).2 (loopsBack_nestedLoops (Or.inl rfl)), fun h0 => ?_⟩
  -- the root itself is a way to the root that misses the other nodes
  have := ((hiff ⟨0, 1, 2⟩ (by decide)).1 h0).2 [] .start
  revert this
  decide

end Flow

end IrView
