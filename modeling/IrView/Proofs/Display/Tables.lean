import Mathlib.Data.List.Basic
import IrView.Display.Builder

/-!
# The tables of a builder

A builder is indexed if its tables are computed from its lists. Then they answer as a search through
the lists does: `node?` with the first node that has the id (`Indexed.node?_eq_find?`), and
`outgoing` with the places of the edges that leave it (`Indexed.outgoing_eq`). The tables depend on
the ids of the nodes and the sources of the edges only (`Indexed.of_eq`).
-/

namespace IrView

/-- A search finds something, if there is something to be found. -/
theorem Lookup.exists_find? {α : Type} {l : List α} {p : α → Bool} {a : α} (ha : a ∈ l)
    (hp : p a = true) : ∃ x ∈ l, l.find? p = some x ∧ p x = true := by
  obtain ⟨x, hx⟩ := Option.isSome_iff_exists.1 (List.find?_isSome.2 ⟨a, ha, hp⟩)
  exact ⟨x, List.mem_of_find?_eq_some hx, hx, List.find?_some hx⟩

namespace Display

namespace Builder

variable {N E : Type} {b : Builder N E} {id : NodeId}

/-- The tables are computed from the lists. -/
def Indexed (b : Builder N E) : Prop :=
  b.reindex = b

theorem indexed_ofRecords (nodes : List N) (edges : List E) (s : Strategy N E) :
    (ofRecords nodes edges s).Indexed :=
  rfl

theorem indexed_reindex (b : Builder N E) : b.reindex.Indexed :=
  rfl

theorem indexed_iff : b.Indexed ↔
    b.position = Lookup.firstOf (b.nodes.map Node.id).zipIdx ∧
      b.leaving = Lookup.gather (b.edges.map Edge.source).zipIdx := by
  have hposition : b.reindex.position = Lookup.firstOf (b.nodes.map Node.id).zipIdx := by
    rw [List.zipIdx_map]
    rfl
  have hleaving : b.reindex.leaving = Lookup.gather (b.edges.map Edge.source).zipIdx := by
    rw [List.zipIdx_map]
    rfl
  rw [← hposition, ← hleaving]
  constructor
  · intro h
    rw [h]
    exact ⟨rfl, rfl⟩
  · rintro ⟨hp, hl⟩
    rw [Indexed, reindex]
    cases b
    exact congrArg₂ (Builder.mk _ _ · · _) hp.symm hl.symm

theorem lookup_map_zipIdx {α : Type} (key : α → NodeId) (l : List α) (k : Nat) :
    ((l.zipIdx k).map fun (x, i) => (key x, i)).lookup id =
      (l.findIdx? fun x => key x == id).map (· + k) := by
  induction l generalizing k with
  | nil => rfl
  | cons x l ih =>
    rw [List.zipIdx_cons, List.map_cons, List.lookup_cons, List.findIdx?_cons]
    by_cases h : key x = id
    · simp [h]
    · have h' : (id == key x) = false := by simpa using Ne.symm h
      simp [h, h', ih, Function.comp_def, Nat.add_assoc, Nat.add_comm 1 k]

namespace Indexed

/-- The tables depend on the ids and the sources only. -/
theorem of_eq (h : b.Indexed) {b' : Builder N E} (hp : b'.position = b.position)
    (hl : b'.leaving = b.leaving) (hn : b'.nodes.map Node.id = b.nodes.map Node.id)
    (he : b'.edges.map Edge.source = b.edges.map Edge.source) : b'.Indexed := by
  rw [indexed_iff] at h ⊢
  rw [hp, hl, hn, he]
  exact h

theorem getElem?_position (h : b.Indexed) (id : NodeId) :
    b.position[id]? = b.nodes.findIdx? fun n => n.id == id := by
  rw [← h, reindex, Lookup.firstOf_getElem?, lookup_map_zipIdx Node.id]
  simp

theorem node?_eq_find? (h : b.Indexed) (id : NodeId) :
    b.node? id = b.nodes.find? fun n => n.id == id := by
  rw [node?, h.getElem?_position, List.find?_eq_bind_findIdx?_getElem?]

theorem contains_eq (h : b.Indexed) (id : NodeId) : b.contains id = (b.node? id).isSome := by
  rw [contains, Std.HashMap.contains_eq_isSome_getElem?, h.getElem?_position, List.findIdx?_isSome,
    h.node?_eq_find?, Bool.eq_iff_iff, List.any_eq_true, List.find?_isSome]

theorem lt_of_getElem?_position (h : b.Indexed) {i : Nat} (hi : b.position[id]? = some i) :
    i < b.nodes.length := by
  rw [h.getElem?_position, List.findIdx?_eq_some_iff_findIdx_eq] at hi
  exact hi.1

theorem outgoing_eq (h : b.Indexed) (id : NodeId) :
    b.outgoing id = (b.edges.zipIdx.filter fun (e, _) => e.source == id).map Prod.snd := by
  rw [← h, outgoing, reindex, Lookup.gather_getD, List.filter_map, List.map_map]
  rfl

theorem mem_outgoing (h : b.Indexed) {i : Nat} :
    i ∈ b.outgoing id ↔ ∃ e, b.edges[i]? = some e ∧ e.source = id := by
  rw [h.outgoing_eq]
  simp only [List.mem_map, List.mem_filter, beq_iff_eq]
  constructor
  · rintro ⟨⟨e, i⟩, ⟨he, hs⟩, rfl⟩
    exact ⟨e, List.mk_mem_zipIdx_iff_getElem?.1 he, hs⟩
  · rintro ⟨e, he, hs⟩
    exact ⟨(e, i), ⟨List.mk_mem_zipIdx_iff_getElem?.2 he, hs⟩, rfl⟩

theorem pairwise_outgoing (h : b.Indexed) (id : NodeId) : (b.outgoing id).Pairwise (· < ·) := by
  rw [h.outgoing_eq]
  refine List.Pairwise.sublist (List.filter_sublist.map _) ?_
  rw [List.zipIdx_map_snd]
  exact List.pairwise_lt_range'

theorem lt_of_mem_leaving (h : b.Indexed) {places : List Nat} (hp : b.leaving[id]? = some places)
    {i : Nat} (hi : i ∈ places) : i < b.edges.length := by
  have hout : b.outgoing id = places := by
    rw [outgoing, Std.HashMap.getD_eq_getD_getElem?, hp, Option.getD_some]
  obtain ⟨e, he, -⟩ := h.mem_outgoing.1 (hout ▸ hi)
  exact (List.getElem?_eq_some_iff.1 he).1

/-- The edges at the places of `outgoing` are the edges that leave the id, in their order. -/
theorem filterMap_outgoing (h : b.Indexed) (id : NodeId) :
    (b.outgoing id).filterMap (fun i => b.edges[i]?) = b.edges.filter fun e => e.source == id := by
  have hplace : ∀ x ∈ b.edges.zipIdx.filter fun (e, _) => e.source == id,
      b.edges[x.2]? = some x.1 := by
    intro x hx
    exact List.mem_zipIdx_iff_getElem?.1 (List.mem_filter.1 hx).1
  calc (b.outgoing id).filterMap (fun i => b.edges[i]?)
      = (b.edges.zipIdx.filter fun (e, _) => e.source == id).filterMap fun x => some x.1 := by
        rw [h.outgoing_eq, List.filterMap_map]
        exact List.filterMap_congr hplace
    _ = (b.edges.zipIdx.map Prod.fst).filter fun e => e.source == id := by
        rw [List.filterMap_eq_map', List.filter_map]
        rfl
    _ = b.edges.filter fun e => e.source == id := by
        rw [List.zipIdx_map_fst]

end Indexed

end Builder

end Display

end IrView
