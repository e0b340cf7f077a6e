import IrView.Display.Builder
import IrView.Proofs.Flow.DepthFirst

/-!
# Marked backedges break the cycles

A walk through a builder sees the edges that its filter accepts, between the nodes that there are
(`Builder.leads_adjacency`). The edges that `Builder.markBackedges` marks are cycles' last edges:
each of them lies on a cycle that the root reaches, and without them no such cycle is left
(`Builder.markBackedges_breaks_cycles`). Nothing else about the edges changes.
-/

namespace IrView

namespace Display

open Relation

variable {N E : Type}

/-- An edge that walks follow leads from one node to another. -/
def Graph.Leads (g : Graph N E) (follows : E → Bool) (u v : NodeId) : Prop :=
  u ∈ g.nodes.map Node.id ∧ v ∈ g.nodes.map Node.id ∧
    ∃ e ∈ g.edges, follows e.record = true ∧ e.source = u ∧ e.target = v

/-- The graph without its backedges. -/
def Graph.withoutBackedges (g : Graph N E) : Graph N E :=
  { g with edges := g.edges.filter fun e => !e.isBackedge }

namespace Builder

variable {b : Builder N E} {follows : E → Bool} {root : NodeId}

/-! ### The graph that a walk sees -/

theorem order_adjacency : (b.adjacency follows).order = (b.nodes.map Node.id).eraseDups :=
  rfl

theorem mem_order_adjacency {id : NodeId} :
    id ∈ (b.adjacency follows).order ↔ id ∈ b.nodes.map Node.id :=
  Flow.Adjacency.mem_order_ofLists

theorem arcs_adjacency {u : NodeId} : (b.adjacency follows).arcs u =
    (b.edges.zipIdx.filter fun x => follows x.1.record && x.1.source == u).map fun x =>
      ⟨x.2, x.1.target⟩ := by
  rw [adjacency, Flow.Adjacency.arcs_ofLists, List.filter_map, List.filter_filter, List.map_map]
  refine congrArg (List.map _) (List.filter_congr fun x _ => ?_)
  exact Bool.and_comm _ _

theorem mem_arcs_adjacency {u : NodeId} {arc : Flow.Arc} :
    arc ∈ (b.adjacency follows).arcs u ↔ ∃ e, b.edges[arc.index]? = some e ∧
      follows e.record = true ∧ e.source = u ∧ e.target = arc.target := by
  rw [arcs_adjacency]
  simp only [List.mem_map, List.mem_filter, Bool.and_eq_true, beq_iff_eq]
  constructor
  · rintro ⟨⟨e, i⟩, ⟨hi, hf, hs⟩, rfl⟩
    exact ⟨e, List.mk_mem_zipIdx_iff_getElem?.1 hi, hf, hs, rfl⟩
  · rintro ⟨e, hi, hf, hs, ht⟩
    exact ⟨(e, arc.index), ⟨List.mk_mem_zipIdx_iff_getElem?.2 hi, hf, hs⟩, by rw [ht]⟩

theorem leads_adjacency {u v : NodeId} :
    (b.adjacency follows).Leads u v ↔ b.finish.Leads follows u v := by
  refine and_congr mem_order_adjacency (and_congr mem_order_adjacency ?_)
  constructor
  · rintro ⟨arc, harc, rfl⟩
    obtain ⟨e, hi, hf, hs, ht⟩ := mem_arcs_adjacency.1 harc
    exact ⟨e, List.mem_of_getElem? hi, hf, hs, ht⟩
  · rintro ⟨e, he, hf, hs, rfl⟩
    obtain ⟨i, hi⟩ := List.mem_iff_getElem?.1 he
    exact ⟨⟨i, e.target⟩, mem_arcs_adjacency.2 ⟨e, hi, hf, hs, rfl⟩, rfl⟩

theorem leads_adjacency_eq : (b.adjacency follows).Leads = b.finish.Leads follows :=
  funext₂ fun _ _ => propext leads_adjacency

/-! ### The marked edges -/

theorem getElem?_markBackedges (i : Nat) :
    (b.markBackedges root follows).edges[i]? = b.edges[i]?.map fun e =>
      if i ∈ Flow.backedges (b.adjacency follows) root then asBackedge e else e := by
  simp [markBackedges, List.getElem?_mapIdx]

/-- Where a marked edge stands, a backedge was found. -/
theorem isBackedge_markBackedges (hclear : ∀ e ∈ b.edges, e.isBackedge = false) {i : Nat}
    {e : Edge E} (he : (b.markBackedges root follows).edges[i]? = some e) :
    e.isBackedge = true ↔ i ∈ Flow.backedges (b.adjacency follows) root := by
  rw [getElem?_markBackedges] at he
  obtain ⟨e', hi, rfl⟩ := Option.map_eq_some_iff.1 he
  split_ifs with hm
  · simp [asBackedge, hm]
  · simp [hclear e' (List.mem_of_getElem? hi), hm]

/-- A marked edge stands where it stood unmarked, and the others are as they were. -/
theorem getElem?_of_markBackedges (hclear : ∀ e ∈ b.edges, e.isBackedge = false) {i : Nat}
    {e : Edge E} (he : (b.markBackedges root follows).edges[i]? = some e) :
    if e.isBackedge then b.edges[i]?.map asBackedge = some e else b.edges[i]? = some e := by
  have hb := isBackedge_markBackedges hclear he
  rw [getElem?_markBackedges] at he
  by_cases hm : i ∈ Flow.backedges (b.adjacency follows) root
  · simpa [hb.2 hm, hm] using he
  · simpa [mt hb.1 hm, hm] using he

theorem edges_markBackedges_of_unmarked (hclear : ∀ e ∈ b.edges, e.isBackedge = false)
    (hnone : ∀ e ∈ (b.markBackedges root follows).edges, e.isBackedge = false) :
    (b.markBackedges root follows).edges = b.edges := by
  refine List.ext_getElem? fun i => ?_
  cases hi : (b.markBackedges root follows).edges[i]? with
  | none => simpa [getElem?_markBackedges] using hi
  | some e =>
    have := getElem?_of_markBackedges hclear hi
    rw [hnone e (List.mem_of_getElem? hi), if_neg Bool.false_ne_true] at this
    exact this.symm

theorem lt_length_of_mem_backedges {i : Nat}
    (hi : i ∈ Flow.backedges (b.adjacency follows) root) : i < b.edges.length := by
  obtain ⟨u, p, -, -, arc, harc, rfl, -⟩ := Flow.exists_trail_of_mem_backedges hi
  obtain ⟨e, he, -⟩ := mem_arcs_adjacency.1 harc
  exact (List.getElem?_eq_some_iff.1 he).1

theorem size_backedges :
    (Flow.backedges (b.adjacency follows) root).size =
      (List.range b.edges.length).countP fun i =>
        decide (i ∈ Flow.backedges (b.adjacency follows) root) := by
  rw [← Std.TreeSet.length_toList, List.countP_eq_length_filter]
  refine List.Perm.length_eq ((List.perm_ext_iff_of_nodup ?_ ?_).2 fun i => ?_)
  · exact Std.TreeSet.distinct_toList.imp fun h he => h (by simp [he])
  · exact List.nodup_range.filter _
  · rw [Std.TreeSet.mem_toList, List.mem_filter, List.mem_range, decide_eq_true_iff]
    exact ⟨fun hi => ⟨lt_length_of_mem_backedges hi, hi⟩, And.right⟩

theorem countP_isBackedge (hclear : ∀ e ∈ b.edges, e.isBackedge = false) :
    (b.markBackedges root follows).edges.countP Edge.isBackedge =
      (Flow.backedges (b.adjacency follows) root).size := by
  have hsnd := List.zipIdx_map_snd 0 b.edges
  rw [← List.range_eq_range'] at hsnd
  rw [size_backedges, ← hsnd, List.countP_map, markBackedges]
  dsimp only
  rw [List.mapIdx_eq_zipIdx_map, List.countP_map]
  refine List.countP_congr fun x hx => ?_
  have hclear' := hclear x.1 (List.fst_mem_of_mem_zipIdx hx)
  by_cases hm : x.2 ∈ Flow.backedges (b.adjacency follows) root
  · simp [hm, asBackedge]
  · simp [hm, hclear']

/-! ### The cycles -/

/-- A marked edge closes a cycle that the root reaches. -/
theorem cycle_of_mem_backedges {i : Nat} {e : Edge E} (he : b.edges[i]? = some e)
    (hi : i ∈ Flow.backedges (b.adjacency follows) root) :
    follows e.record = true ∧ ReflTransGen (b.finish.Leads follows) root e.source ∧
      b.finish.Leads follows e.source e.target ∧
      ReflTransGen (b.finish.Leads follows) e.target e.source := by
  have hroot := (Flow.mem_backedges.1 hi).1
  obtain ⟨u, p, hp, -, arc, harc, rfl, ht⟩ := Flow.exists_trail_of_mem_backedges hi
  obtain ⟨e', he', hf, rfl, ht'⟩ := mem_arcs_adjacency.1 harc
  obtain rfl : e = e' := by simpa [he] using he'
  have hknown := Flow.Adjacency.mem_order_of_trail hroot hp
  have hleads : (b.adjacency follows).Leads e.source e.target :=
    ⟨hknown _ List.mem_cons_self, ht' ▸ hknown _ ht, arc, harc, ht'.symm⟩
  rw [leads_adjacency_eq] at hp hleads
  exact ⟨hf, hp.reaches, hleads, hp.reaches_of_mem (ht' ▸ ht)⟩

/-- Without the marked edges fewer nodes follow one another than without the backedges found. -/
theorem leadsWithout_of_withoutBackedges (hclear : ∀ e ∈ b.edges, e.isBackedge = false)
    {u v : NodeId}
    (h : (b.markBackedges root follows).finish.withoutBackedges.Leads follows u v) :
    (b.adjacency follows).LeadsWithout (Flow.backedges (b.adjacency follows) root) u v := by
  obtain ⟨hu, hv, e, he, hf, rfl, rfl⟩ := h
  obtain ⟨he, hb⟩ := List.mem_filter.1 he
  obtain ⟨i, hi⟩ := List.mem_iff_getElem?.1 he
  have hm : i ∉ Flow.backedges (b.adjacency follows) root := by
    rw [← isBackedge_markBackedges hclear hi]
    simpa using hb
  have hi' : b.edges[i]? = some e := by
    rw [finish, getElem?_markBackedges] at hi
    simpa [hm] using hi
  exact ⟨mem_order_adjacency.2 hu, mem_order_adjacency.2 hv, ⟨i, e.target⟩,
    mem_arcs_adjacency.2 ⟨e, hi', hf, rfl, rfl⟩, rfl, hm⟩

/-- **Marking backedges breaks exactly the cycles.** A marked edge is followed and lies on a cycle
that the root reaches, and without the marked edges no such cycle is left; so none is marked iff
there is no such cycle. The diagnostics count the marked edges, and all other edges are as they
were. -/
theorem markBackedges_breaks_cycles (b : Builder N E) (follows : E → Bool) (root : NodeId)
    (hclear : ∀ e ∈ b.edges, e.isBackedge = false) :
    let g := b.finish
    let g' := (b.markBackedges root follows).finish
    (∀ e ∈ g'.edges, e.isBackedge = true → follows e.record = true ∧
      ReflTransGen (g.Leads follows) root e.source ∧ g.Leads follows e.source e.target ∧
      ReflTransGen (g.Leads follows) e.target e.source) ∧
    (∀ v, ReflTransGen (g.Leads follows) root v →
      ¬ TransGen (g'.withoutBackedges.Leads follows) v v) ∧
    ((∀ e ∈ g'.edges, e.isBackedge = false) ↔
      ∀ v, ReflTransGen (g.Leads follows) root v → ¬ TransGen (g.Leads follows) v v) ∧
    g'.diagnostics.backedges = g'.edges.countP Edge.isBackedge ∧
    g'.edges.length = g.edges.length ∧
    ∀ (i : Nat) (e : Edge E), g'.edges[i]? = some e →
      if e.isBackedge then g.edges[i]?.map asBackedge = some e else g.edges[i]? = some e := by
  intro g g'
  have hcycle : ∀ e ∈ g'.edges, e.isBackedge = true → follows e.record = true ∧
      ReflTransGen (g.Leads follows) root e.source ∧ g.Leads follows e.source e.target ∧
      ReflTransGen (g.Leads follows) e.target e.source := by
    intro e he hb
    obtain ⟨i, hi⟩ := List.mem_iff_getElem?.1 he
    have hp := getElem?_of_markBackedges hclear hi
    rw [if_pos hb] at hp
    obtain ⟨e', he', rfl⟩ := Option.map_eq_some_iff.1 hp
    have := cycle_of_mem_backedges he' ((isBackedge_markBackedges hclear hi).1 hb)
    exact this
  have hbroken : ∀ v, ReflTransGen (g.Leads follows) root v →
      ¬ TransGen (g'.withoutBackedges.Leads follows) v v := by
    intro v hv hloop
    rw [← leads_adjacency_eq] at hv
    exact Flow.not_transGen_leadsWithout hv
      (TransGen.mono (fun _ _ => leadsWithout_of_withoutBackedges hclear) _ _ hloop)
  refine ⟨hcycle, hbroken, ⟨fun hnone v hv hloop => ?_, fun hacyclic e he => ?_⟩,
    (countP_isBackedge hclear).symm, List.length_mapIdx,
    fun i e he => getElem?_of_markBackedges hclear he⟩
  · -- if no edge is marked, the graph without its backedges is the graph
    have hsame : g'.withoutBackedges.edges = g.edges := by
      have hfilter : g'.withoutBackedges.edges = g'.edges :=
        List.filter_eq_self.2 fun e he => by simp [hnone e he]
      exact hfilter.trans (edges_markBackedges_of_unmarked hclear hnone)
    refine hbroken v hv (TransGen.mono (fun x y ⟨hx, hy, hxy⟩ => ⟨hx, hy, ?_⟩) _ _ hloop)
    rwa [hsame]
  · by_contra hb
    rw [Bool.not_eq_false] at hb
    obtain ⟨-, hreach, hleads, hback⟩ := hcycle e he hb
    exact hacyclic _ hreach (TransGen.head' hleads hback)

/-- Two nodes in a ring, one of them also alone in a loop, and an edge to no node. -/
def ring : Builder Unit Unit where
  nodes := [1, 2].map fun id => { id, name := "", label := "", record := () }
  edges := [(1, 2), (2, 2), (2, 1), (1, 9)].map fun (source, target) =>
    { source, target, label := "", record := () }
  position := ∅
  leaving := ∅
  diagnostics := {}

theorem exists_isBackedge_ring :
    (∀ e ∈ ring.edges, e.isBackedge = false) ∧
      ∃ e ∈ (ring.markBackedges 1 fun _ => true).edges, e.isBackedge = true := by
  have hclear : ∀ e ∈ ring.edges, e.isBackedge = false := by simp [ring]
  refine ⟨hclear, ?_⟩
  -- if nothing was marked, there would be no cycle, but the ring is one
  by_contra hnone
  have hcycle : TransGen (ring.finish.Leads fun _ => true) 1 1 :=
    .head ⟨by decide, by decide, _, .head _, rfl, rfl, rfl⟩
      (.single ⟨by decide, by decide, _, .tail _ (.tail _ (.head _)), rfl, rfl, rfl⟩)
  obtain ⟨-, -, hiff, -⟩ := markBackedges_breaks_cycles ring (fun _ => true) 1 hclear
  refine hiff.1 (fun e he => ?_) 1 .refl hcycle
  by_contra hb
  exact hnone ⟨e, he, by simpa using hb⟩

end Builder

end Display

end IrView
