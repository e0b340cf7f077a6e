import IrView.Proofs.Display.Identity

/-!
# Collapsing, told from the lists

Which block ends where, and who takes an edge over, can be told from the lists of nodes and edges
alone (`Builder.listedEnd?`, `Builder.listedOwner?`). A builder whose tables answer as a search
through its lists does (`Builder.Consistent`) collapses to exactly what its lists say
(`Builder.collapse_rewrites`), whether the graph is well formed or not: blocks may share an end or
have none, an end may be an entry, and ids may be repeated.

The tables themselves do not matter, only their answers: collapsing reads them and then computes
them anew (`Builder.Consistent.collapse_reindex`), so a consistent builder may be indexed first.
-/

namespace IrView

namespace Display

namespace Builder

variable {N E : Type} {b : Builder N E}

/-! ### Consistent tables -/

/-- The tables answer as a search through the lists does. -/
structure Consistent (b : Builder N E) : Prop where
  node? : ∀ id, b.node? id = b.nodes.find? fun n => n.id == id
  outgoing : ∀ id,
    b.outgoing id = (b.edges.zipIdx.filter fun (e, _) => e.source == id).map Prod.snd

theorem Indexed.consistent (h : b.Indexed) : b.Consistent :=
  ⟨h.node?_eq_find?, h.outgoing_eq⟩

theorem Consistent.outgoing_reindex (h : b.Consistent) : b.reindex.outgoing = b.outgoing :=
  funext fun id => ((indexed_reindex b).outgoing_eq id).trans (h.outgoing id).symm

/-- The edges that dangle are those whose ends are not both nodes. -/
theorem dangling_eq_countP (b : Builder N E) :
    b.dangling = b.edges.countP fun e => !isAttached (.ofList (b.nodes.map Node.id)) e := by
  have hsplit := b.edges.length_eq_countP_add_countP (isAttached (.ofList (b.nodes.map Node.id)))
  simp only [Bool.not_eq_true, Bool.decide_eq_false] at hsplit
  rw [dangling, attached, ← List.countP_eq_length_filter, hsplit, Nat.add_sub_cancel_left]

section

variable [NodeRecord N]

/-- Whether both ends of the edge are ids of entries. -/
def joinsEntries (b : Builder N E) (e : Edge E) : Bool :=
  (b.entries.map Node.id).contains e.source && (b.entries.map Node.id).contains e.target

theorem joinsEntries_iff {e : Edge E} : b.joinsEntries e = true ↔
    e.source ∈ b.entries.map Node.id ∧ e.target ∈ b.entries.map Node.id := by
  rw [joinsEntries, Bool.and_eq_true, List.contains_iff_mem, List.contains_iff_mem]

theorem isAttached_entries (b : Builder N E) (e : Edge E) :
    isAttached (.ofList (b.entries.map Node.id)) e = b.joinsEntries e := by
  rw [Bool.eq_iff_iff, isAttached_ofList, joinsEntries_iff]

end

/-! ### Blocks, told from the lists -/

variable [EdgeRecord E]

/-- The node at which the block of an entry ends: the first one with the id to which the first block
link from the entry leads. -/
def listedEnd? (b : Builder N E) (entry : Node N) : Option (Node N) :=
  (b.edges.find? fun e => e.source == entry.id && EdgeRecord.isBlockLink e.record).bind fun link =>
    b.nodes.find? fun n => n.id == link.target

theorem Indexed.blockEnd?_eq_listedEnd? (h : b.Indexed) : b.blockEnd? = b.listedEnd? :=
  funext (blockEnd?_eq h)

theorem Consistent.blockEnd?_reindex (h : b.Consistent) : b.reindex.blockEnd? = b.blockEnd? := by
  have hnode : b.reindex.node? = b.node? :=
    funext fun id => ((indexed_reindex b).node?_eq_find? id).trans (h.node? id).symm
  funext entry
  rw [blockEnd?, blockEnd?, hnode, h.outgoing_reindex]
  rfl

variable [NodeRecord N]

/-- The last entry whose block ends at the id. -/
def listedOwner? (b : Builder N E) (id : NodeId) : Option NodeId :=
  (b.entries.filter fun entry => (b.listedEnd? entry).any fun last => last.id == id).getLast?.map
    Node.id

/-- The edges that are no block links, each of them leaving the owner of its source if there is one.
-/
def movedEdges (b : Builder N E) : List (Edge E) :=
  (b.edges.filter fun e => !EdgeRecord.isBlockLink e.record).map fun e =>
    { e with source := (b.listedOwner? e.source).getD e.source }

/-- Collapsing makes the same of a consistent builder as of the indexed one. -/
theorem Consistent.collapse_reindex (h : b.Consistent) (summarize : Node N → Node N → Summary) :
    b.reindex.collapse summarize = b.collapse summarize := by
  have hcollapsed : b.reindex.collapsedNode summarize = b.collapsedNode summarize := by
    funext n
    rw [collapsedNode, collapsedNode, h.blockEnd?_reindex]
  have htaken : b.reindex.takenOver = b.takenOver := by
    rw [takenOver, takenOver, h.blockEnd?_reindex, h.outgoing_reindex]
    rfl
  rw [collapse, collapse, mergeBlocks, mergeBlocks, hcollapsed, htaken, h.blockEnd?_reindex]
  rfl

theorem Indexed.edges_mergeBlocks_eq (h : b.Indexed) (summarize : Node N → Node N → Summary) :
    (b.mergeBlocks summarize).edges = b.movedEdges := by
  have howner : b.owner? = b.listedOwner? := by
    funext id
    rw [owner?, ownerAmong, listedOwner?, ← h.blockEnd?_eq_listedEnd?]
    rfl
  have hredirect : b.redirect = fun e =>
      { e with source := (b.listedOwner? e.source).getD e.source } := by
    funext e
    rw [redirect, howner]
  rw [edges_mergeBlocks h, hredirect, List.filter_map]
  rfl

/-! ### What collapsing makes of the lists -/

theorem Indexed.nodes_collapse_eq (h : b.Indexed) (summarize : Node N → Node N → Summary) :
    (b.collapse summarize).nodes = b.entries.map fun entry =>
      (b.listedEnd? entry).elim entry (absorb summarize entry) := by
  rw [nodes_collapse]
  refine List.map_congr_left fun entry _ => ?_
  rw [collapsedNode, h.blockEnd?_eq_listedEnd?]
  cases b.listedEnd? entry <;> rfl

theorem Indexed.edges_collapse_eq (h : b.Indexed) (summarize : Node N → Node N → Summary) :
    (b.collapse summarize).edges = b.movedEdges.filter b.joinsEntries := by
  rw [edges_collapse h, ← edges_mergeBlocks h summarize, h.edges_mergeBlocks_eq]
  exact List.filter_congr fun e _ => isAttached_entries b e

theorem Indexed.diagnostics_collapse_eq (h : b.Indexed)
    (summarize : Node N → Node N → Summary) :
    (b.collapse summarize).diagnostics =
      { b.diagnostics with
        skippedCollapses := b.diagnostics.skippedCollapses ++
          (b.entries.filter fun entry => (b.listedEnd? entry).isNone).map Node.id
        droppedEdges := b.diagnostics.droppedEdges +
          b.movedEdges.countP fun e => !b.joinsEntries e } := by
  have hids : (b.mergeBlocks summarize).nodes.map Node.id = b.entries.map Node.id := by
    rw [← ids_collapse summarize, collapse, nodes_dropDangling]
    rfl
  have hdangling : (b.mergeBlocks summarize).reindex.dangling =
      b.movedEdges.countP fun e => !b.joinsEntries e := by
    rw [dangling_eq_countP]
    show (b.mergeBlocks summarize).edges.countP _ = _
    rw [h.edges_mergeBlocks_eq]
    refine List.countP_congr fun e _ => ?_
    show (!isAttached (.ofList ((b.mergeBlocks summarize).nodes.map Node.id)) e) = true ↔ _
    rw [hids, isAttached_entries]
  rw [collapse, diagnostics_dropDangling, hdangling, ← h.blockEnd?_eq_listedEnd?]
  rfl

/-- A moved edge comes from one that left the same entry or the end of its block. -/
theorem exists_edge_of_mem_movedEdges {e : Edge E} (he : e ∈ b.movedEdges)
    (hjoins : b.joinsEntries e = true) :
    ∃ e' ∈ b.edges, EdgeRecord.isBlockLink e'.record = false ∧ e = { e' with source := e.source } ∧
      ∃ entry ∈ b.entries, entry.id = e.source ∧
        (e'.source = entry.id ∨ ∃ last, b.listedEnd? entry = some last ∧ e'.source = last.id) := by
  obtain ⟨e', he', rfl⟩ := List.mem_map.1 he
  obtain ⟨hmem, hlink⟩ := List.mem_filter.1 he'
  refine ⟨e', hmem, by simpa using hlink, rfl, ?_⟩
  dsimp only
  cases ho : b.listedOwner? e'.source with
  | none =>
    -- nobody takes the edge over, so it joins entries as it is
    have hsource := (joinsEntries_iff.1 hjoins).1
    rw [ho, Option.getD_none] at hsource
    obtain ⟨entry, hentry, hid⟩ := List.mem_map.1 hsource
    exact ⟨entry, hentry, hid, Or.inl hid.symm⟩
  | some owner =>
    obtain ⟨entry, hlast, hid⟩ := Option.map_eq_some_iff.1 ho
    obtain ⟨hentry, hends⟩ := List.mem_filter.1 (List.mem_of_getLast? hlast)
    obtain ⟨last, hlast, hsource⟩ := (Option.any_eq_true _ _).1 hends
    exact ⟨entry, hentry, hid, Or.inr ⟨last, hlast, (beq_iff_eq.1 hsource).symm⟩⟩

/-- **Collapsing does the documented rewrite on every graph.** The entries remain, in their order.
One whose block ends at a node shows the summary of itself and that node, and links to it; one whose
block has no end stays as it is and is listed as skipped. Of the edges the block links go, the others
move to the owner of their source, and those that do not join entries then are dropped and counted.
So an edge that remains comes from one that left the same entry, or the end of its block. -/
theorem collapse_rewrites (h : b.Consistent) (summarize : Node N → Node N → Summary) :
    ((b.collapse summarize).nodes = b.entries.map fun entry =>
      (b.listedEnd? entry).elim entry fun last =>
        { entry with
          label := (summarize entry last).label
          color := some (.uniform (summarize entry last).color)
          endLink := some last.id }) ∧
    (b.collapse summarize).edges = b.movedEdges.filter b.joinsEntries ∧
    (b.collapse summarize).diagnostics =
      { b.diagnostics with
        skippedCollapses := b.diagnostics.skippedCollapses ++
          (b.entries.filter fun entry => (b.listedEnd? entry).isNone).map Node.id
        droppedEdges := b.diagnostics.droppedEdges +
          b.movedEdges.countP fun e => !b.joinsEntries e } ∧
    ∀ e ∈ (b.collapse summarize).edges,
      ∃ e' ∈ b.edges, EdgeRecord.isBlockLink e'.record = false ∧
        e = { e' with source := e.source } ∧
        ∃ entry ∈ b.entries, entry.id = e.source ∧
          (e'.source = entry.id ∨
            ∃ last, b.listedEnd? entry = some last ∧ e'.source = last.id) := by
  have hi := indexed_reindex b
  rw [← h.collapse_reindex summarize]
  refine ⟨hi.nodes_collapse_eq summarize, hi.edges_collapse_eq summarize,
    hi.diagnostics_collapse_eq summarize, fun e he => ?_⟩
  rw [hi.edges_collapse_eq] at he
  obtain ⟨hmoved, hjoins⟩ := List.mem_filter.1 he
  exact exists_edge_of_mem_movedEdges (b := b.reindex) hmoved hjoins

/-- Two blocks share an end whose id is repeated, and a third one leads to a node that is missing
before it leads to that end. -/
def malformedNodes : List Hir.Node :=
  [{ id := 1, name := "BeginInst" }, { id := 2, name := "GOTOInst" },
    { id := 3, name := "BeginInst" }, { id := 5, name := "BeginInst" },
    { id := 2, name := "IFInst" }]

/-- The edges of `malformedNodes`. -/
def malformedEdges : List Hir.Edge :=
  [{ source := 1, target := 2, typeName := "bb" }, { source := 3, target := 2, typeName := "bb" },
    { source := 5, target := 9, typeName := "bb" }, { source := 5, target := 2, typeName := "bb" },
    { source := 2, target := 1, typeName := "cfg" },
    { source := 2, target := 5, typeName := "cfg" },
    { source := 5, target := 2, typeName := "op" }]

/-- The builder that holds these records. -/
def malformed : Builder Hir.Node Hir.Edge :=
  ofRecords malformedNodes malformedEdges plain

/-- The summary that shows both labels. -/
def joinLabels (entry last : Node N) : Summary :=
  ⟨entry.label ++ last.label, "white"⟩

theorem collapse_rewrites_malformed : malformed.Consistent ∧
    ((malformed.collapse joinLabels).nodes.map fun n => (n.id, n.label, n.endLink)) =
      [(1, "BeginInstGOTOInst", some 2), (3, "BeginInstGOTOInst", some 2), (5, "BeginInst", none)] ∧
    ((malformed.collapse joinLabels).edges.map fun e => (e.source, e.target)) = [(3, 1), (3, 5)] ∧
    (malformed.collapse joinLabels).diagnostics.skippedCollapses = [5] ∧
    (malformed.collapse joinLabels).diagnostics.droppedEdges = 1 := by
  have hconsistent : malformed.Consistent :=
    (indexed_ofRecords malformedNodes malformedEdges plain).consistent
  obtain ⟨hnodes, hedges, hdiagnostics, -⟩ := collapse_rewrites hconsistent joinLabels
  rw [hnodes, hedges, hdiagnostics]
  exact ⟨hconsistent, by decide, by decide, by decide, by decide⟩

end Builder

end Display

end IrView
