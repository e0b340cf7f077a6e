import IrView.Proofs.Display.Balance
import IrView.Proofs.Display.Merging

/-!
# Collapsing again

Collapsing leaves entries only, and edges between them that are no block links
(`Builder.Collapsed`). Nothing is left for a second time: no block has an end, so no node, edge or
table changes, whatever is done in between (`Builder.collapse_idempotent`).

The diagnostics do change. An entry that took over its block has no block link any more, so the next
time it counts among those without an end. In a session the first collapse lists exactly the nodes
that do not link to the end of a block, and each further one lists all nodes once more
(`Builder.skippedCollapses_session`).
-/

namespace IrView

namespace Display

variable {N E : Type}

/-- Whether the operation takes blocks together. -/
def Operation.isCollapse : Operation N E → Bool
  | .collapse _ => true
  | _ => false

theorem Diagnostics.isClean_iff {d : Diagnostics} : d.isClean = true ↔
    d.skippedCollapses = [] ∧ d.droppedEdges = 0 ∧ d.missingRoot = false := by
  simp [Diagnostics.isClean, and_assoc]

namespace Builder

variable {b b' : Builder N E}

/-- The builder with all nodes listed as skipped. -/
def skipAll (b : Builder N E) : Builder N E :=
  { b with
    diagnostics :=
      { b.diagnostics with
        skippedCollapses := b.diagnostics.skippedCollapses ++ b.nodes.map Node.id } }

/-- Nodes that are the same but for their levels have the same ids, records and links. -/
theorem exists_of_unleveled (h : b'.nodes.map Node.unleveled = b.nodes.map Node.unleveled)
    {n : Node N} (hn : n ∈ b'.nodes) :
    ∃ m ∈ b.nodes, m.id = n.id ∧ m.record = n.record ∧ m.endLink = n.endLink := by
  have hmem : n.unleveled ∈ b.nodes.map Node.unleveled := h ▸ List.mem_map_of_mem hn
  obtain ⟨m, hm, hsame⟩ := List.mem_map.1 hmem
  simp only [Node.unleveled, Node.mk.injEq] at hsame
  exact ⟨m, hm, by simp [hsame]⟩

theorem ids_eq_of_unleveled (h : b'.nodes.map Node.unleveled = b.nodes.map Node.unleveled) :
    b'.nodes.map Node.id = b.nodes.map Node.id := by
  have hid : (Node.id : Node N → NodeId) = Node.id ∘ Node.unleveled := rfl
  rw [hid, ← List.map_map, h, List.map_map]

/-! ### More collapses -/

/-- The second builder is the first one after its blocks were taken together that many times again:
each time all nodes were listed as skipped. -/
structure Recollapsed (b b' : Builder N E) (times : Nat) : Prop where
  nodes : b'.nodes.map Node.unleveled = b.nodes.map Node.unleveled
  skipped : b'.diagnostics.skippedCollapses = b.diagnostics.skippedCollapses ++
    (List.replicate times (b.nodes.map Node.id)).flatten
  dropped : b'.diagnostics.droppedEdges = b.diagnostics.droppedEdges

theorem Recollapsed.refl (b : Builder N E) : b.Recollapsed b 0 :=
  ⟨rfl, by simp, rfl⟩

theorem Recollapsed.trans {c : Builder N E} {k l : Nat} (h : b.Recollapsed b' k)
    (h' : b'.Recollapsed c l) : b.Recollapsed c (k + l) where
  nodes := h'.nodes.trans h.nodes
  skipped := by
    rw [h'.skipped, h.skipped, ids_eq_of_unleveled h.nodes, List.append_assoc,
      List.replicate_add, List.flatten_append]
  dropped := h'.dropped.trans h.dropped

/-- After further collapses all is clean if it was before and there was none, or no node. -/
theorem Recollapsed.isClean_iff {times : Nat} (h : b.Recollapsed b' times)
    (hroot : b'.diagnostics.missingRoot = b.diagnostics.missingRoot) :
    b'.diagnostics.isClean = true ↔
      b.diagnostics.isClean = true ∧ (times = 0 ∨ b'.nodes = []) := by
  have hnil : b.nodes = [] ↔ b'.nodes = [] := by
    rw [← List.map_eq_nil_iff (f := Node.unleveled), ← h.nodes, List.map_eq_nil_iff]
  have hflatten : (List.replicate times (b.nodes.map Node.id)).flatten = [] ↔
      times = 0 ∨ b'.nodes = [] := by
    cases times with
    | zero => simp
    | succ times => simpa [List.replicate_succ, hnil] using fun h _ => h
  rw [Diagnostics.isClean_iff, Diagnostics.isClean_iff, h.skipped, h.dropped, hroot,
    List.append_eq_nil_iff, hflatten]
  tauto

variable [NodeRecord N] [EdgeRecord E]

/-! ### Collapsed builders -/

/-- Only entries are left, and edges between them that are no block links. -/
structure Collapsed (b : Builder N E) : Prop where
  entries : ∀ n ∈ b.nodes, NodeRecord.isBlockEntry n.record = true
  unlinked : ∀ e ∈ b.edges, EdgeRecord.isBlockLink e.record = false
  attached : ∀ e ∈ b.edges, e.source ∈ b.nodes.map Node.id ∧ e.target ∈ b.nodes.map Node.id

theorem collapsed_collapse (b : Builder N E) (summarize : Node N → Node N → Summary) :
    (b.collapse summarize).Collapsed where
  entries n hn := by
    rw [nodes_collapse] at hn
    obtain ⟨entry, hentry, rfl⟩ := List.mem_map.1 hn
    rw [record_collapsedNode]
    exact (List.mem_filter.1 hentry).2
  unlinked e he := by
    rw [collapse, edges_dropDangling] at he
    have hmerged : e ∈ (b.mergeBlocks summarize).edges := (List.mem_filter.1 he).1
    simpa using (List.mem_filter.1 hmerged).2
  attached _ he := attached_dropDangling he

/-- A collapsed builder stays so if its nodes change their levels only and no edge is new. -/
theorem Collapsed.of_ends (h : b.Collapsed)
    (hnodes : b'.nodes.map Node.unleveled = b.nodes.map Node.unleveled)
    (hends : ∀ e ∈ b'.edges, ends e ∈ b.edges.map ends) : b'.Collapsed where
  entries n hn := by
    obtain ⟨m, hm, -, hrecord, -⟩ := exists_of_unleveled hnodes hn
    exact hrecord ▸ h.entries m hm
  unlinked e he := by
    obtain ⟨e', he', hsame⟩ := List.mem_map.1 (hends e he)
    exact (ends_eq_iff.1 hsame).1 ▸ h.unlinked e' he'
  attached e he := by
    obtain ⟨e', he', hsame⟩ := List.mem_map.1 (hends e he)
    obtain ⟨-, hsource, htarget⟩ := ends_eq_iff.1 hsame
    rw [ids_eq_of_unleveled hnodes, ← hsource, ← htarget]
    exact h.attached e' he'

/-- Of a collapsed builder, collapsing changes nothing but the list of skipped nodes. -/
theorem Collapsed.collapse_eq (h : b.Collapsed) (hi : b.Indexed)
    (summarize : Node N → Node N → Summary) : b.collapse summarize = b.skipAll := by
  have hentries : b.entries = b.nodes := List.filter_eq_self.2 h.entries
  have hnodes : b.entries.map (b.collapsedNode summarize) = b.nodes := by
    rw [hentries]
    exact List.map_id'' (collapsedNode_of_unlinked hi h.unlinked summarize) b.nodes
  have hedges : (b.mergeBlocks summarize).edges = b.edges := by
    rw [edges_mergeBlocks hi, List.map_id'' (redirect_of_unlinked hi h.unlinked)]
    exact List.filter_eq_self.2 fun e he => by simp [h.unlinked e he]
  have hskipped : (b.entries.filter fun entry => (b.blockEnd? entry).isNone) = b.nodes := by
    rw [hentries]
    exact List.filter_eq_self.2 fun n _ => by rw [blockEnd?_of_unlinked hi h.unlinked]; rfl
  have hmerge : b.mergeBlocks summarize = b.skipAll := by
    show ({ nodes := _, edges := (b.mergeBlocks summarize).edges, .. } : Builder N E) = _
    rw [hnodes, hedges, hskipped]
    rfl
  have hindexed : b.skipAll.Indexed := hi.of_eq rfl rfl rfl rfl
  rw [collapse, hmerge, show b.skipAll.reindex = b.skipAll from hindexed]
  exact dropDangling_of_attached h.attached

/-- **Collapsing twice is collapsing once**, apart from the diagnostics. In whatever state a builder
is, collapsing leaves entries only and no block link, and collapsing again leaves the lists and the
tables as they are. -/
theorem collapse_idempotent (b : Builder N E) (f g : Node N → Node N → Summary) :
    (b.collapse f).Collapsed ∧
    ((b.collapse f).collapse g).nodes = (b.collapse f).nodes ∧
    ((b.collapse f).collapse g).edges = (b.collapse f).edges ∧
    ((b.collapse f).collapse g).position = (b.collapse f).position ∧
    ((b.collapse f).collapse g).leaving = (b.collapse f).leaving := by
  have hindexed : (b.collapse f).Indexed := (indexed_reindex (b.mergeBlocks f)).dropDangling
  rw [(collapsed_collapse b f).collapse_eq hindexed]
  exact ⟨collapsed_collapse b f, rfl, rfl, rfl, rfl⟩

/-! ### Before the first collapse -/

theorem unleveled_apply {operation : Operation N E} (h : operation.isCollapse = false) :
    (b.apply operation).nodes.map Node.unleveled = b.nodes.map Node.unleveled := by
  cases operation with
  | collapse => cases h
  | dropDangling => exact congrArg (List.map _) (nodes_dropDangling b)
  | assignLevels => exact List.map_map
  | markBackedges | reindex => rfl

theorem skippedCollapses_apply {operation : Operation N E} (h : operation.isCollapse = false) :
    (b.apply operation).diagnostics.skippedCollapses = b.diagnostics.skippedCollapses := by
  cases operation with
  | collapse => cases h
  | dropDangling =>
    show b.dropDangling.diagnostics.skippedCollapses = _
    rw [diagnostics_dropDangling]
  | markBackedges | assignLevels | reindex => rfl

theorem missingRoot_apply (operation : Operation N E) :
    (b.apply operation).diagnostics.missingRoot = b.diagnostics.missingRoot := by
  have hdrop : ∀ c : Builder N E, c.dropDangling.diagnostics.missingRoot =
      c.diagnostics.missingRoot := by
    intro c
    rw [diagnostics_dropDangling]
  cases operation with
  | collapse summarize => exact hdrop (b.mergeBlocks summarize).reindex
  | dropDangling => exact hdrop b
  | markBackedges | assignLevels | reindex => rfl

/-- Without a collapse the nodes change their levels only, and none is skipped. -/
theorem run_of_not_isCollapse {operations : List (Operation N E)}
    (h : ∀ operation ∈ operations, operation.isCollapse = false) :
    (b.run operations).nodes.map Node.unleveled = b.nodes.map Node.unleveled ∧
      (b.run operations).diagnostics.skippedCollapses = b.diagnostics.skippedCollapses := by
  induction operations generalizing b with
  | nil => exact ⟨rfl, rfl⟩
  | cons operation operations ih =>
    rw [List.forall_mem_cons] at h
    obtain ⟨hnodes, hskipped⟩ := ih (b := b.apply operation) h.2
    exact ⟨hnodes.trans (unleveled_apply h.1), hskipped.trans (skippedCollapses_apply h.1)⟩

theorem missingRoot_run (operations : List (Operation N E)) :
    (b.run operations).diagnostics.missingRoot = b.diagnostics.missingRoot := by
  induction operations generalizing b with
  | nil => rfl
  | cons operation operations ih => exact ih.trans (missingRoot_apply operation)

/-! ### After the first collapse -/

/-- What an operation does to a collapsed builder. -/
theorem Collapsed.apply (h : b.Collapsed) (hi : b.Indexed) (operation : Operation N E) :
    (b.apply operation).Collapsed ∧
      b.Recollapsed (b.apply operation) (if operation.isCollapse then 1 else 0) := by
  cases operation with
  | collapse summarize =>
    rw [show b.apply (.collapse summarize) = b.skipAll from h.collapse_eq hi summarize]
    have hskipped : b.skipAll.diagnostics.skippedCollapses = b.diagnostics.skippedCollapses ++
        (List.replicate 1 (b.nodes.map Node.id)).flatten := by
      simp [skipAll]
    exact ⟨h.of_ends rfl fun e he => List.mem_map_of_mem he, rfl, hskipped, rfl⟩
  | dropDangling =>
    rw [show b.apply .dropDangling = b from dropDangling_of_attached h.attached]
    exact ⟨h, .refl b⟩
  | markBackedges root follows =>
    refine ⟨h.of_ends rfl fun e he => ?_, rfl, (Recollapsed.refl b).skipped, rfl⟩
    exact ends_markBackedges ▸ List.mem_map_of_mem he
  | assignLevels root follows =>
    have hnodes : (b.assignLevels root follows).nodes.map Node.unleveled =
        b.nodes.map Node.unleveled := List.map_map
    exact ⟨h.of_ends hnodes fun e he => List.mem_map_of_mem he, hnodes,
      (Recollapsed.refl b).skipped, rfl⟩
  | reindex =>
    exact ⟨h.of_ends rfl fun e he => List.mem_map_of_mem he, rfl, (Recollapsed.refl b).skipped, rfl⟩

theorem Collapsed.run (h : b.Collapsed) (hi : b.Indexed) (operations : List (Operation N E)) :
    b.Recollapsed (b.run operations) (operations.countP Operation.isCollapse) := by
  induction operations generalizing b with
  | nil => exact .refl b
  | cons operation operations ih =>
    obtain ⟨hcollapsed, hstep⟩ := h.apply hi operation
    rw [List.countP_cons, Nat.add_comm]
    exact hstep.trans (ih hcollapsed (hi.apply operation))

/-! ### Sessions -/

omit [NodeRecord N] in
theorem listedEnd?_congr {n m : Node N} (h : n.id = m.id) : b.listedEnd? n = b.listedEnd? m := by
  rw [listedEnd?, listedEnd?, h]

/-- A collapse lists just those nodes as skipped that do not link to the end of a block, if no node
did before. -/
theorem mem_skipped_iff (h : b.Indexed) (hplain : ∀ n ∈ b.nodes, n.endLink = none)
    {summarize : Node N → Node N → Summary} {n : Node N}
    (hn : n ∈ (b.collapse summarize).nodes) :
    n.id ∈ (b.entries.filter fun entry => (b.listedEnd? entry).isNone).map Node.id ↔
      n.endLink = none := by
  rw [h.nodes_collapse_eq] at hn
  obtain ⟨entry, hentry, rfl⟩ := List.mem_map.1 hn
  cases hl : b.listedEnd? entry with
  | none =>
    have hlisted : entry ∈ b.entries.filter fun entry => (b.listedEnd? entry).isNone :=
      List.mem_filter.2 ⟨hentry, by rw [hl]; rfl⟩
    exact iff_of_true (List.mem_map_of_mem hlisted) (hplain entry (List.mem_filter.1 hentry).1)
  | some last =>
    refine iff_of_false (fun hmem => ?_) (Option.some_ne_none last.id)
    -- entries with the same id have the same end
    obtain ⟨entry', hentry', hid⟩ := List.mem_map.1 hmem
    have hnone := (List.mem_filter.1 hentry').2
    rw [listedEnd?_congr (hid.trans rfl : entry'.id = entry.id), hl] at hnone
    cases hnone

/-- The first collapse is clean if no edge was dropped before, each block has an end, and each edge
that is no block link joins entries once it has moved. -/
theorem isClean_collapse_iff (h : b.Indexed) (hskipped : b.diagnostics.skippedCollapses = [])
    (hroot : b.diagnostics.missingRoot = false) (summarize : Node N → Node N → Summary) :
    (b.collapse summarize).diagnostics.isClean = true ↔ b.diagnostics.droppedEdges = 0 ∧
      (∀ entry ∈ b.entries, (b.listedEnd? entry).isSome = true) ∧
      ∀ e ∈ b.movedEdges, b.joinsEntries e = true := by
  rw [Diagnostics.isClean_iff, h.diagnostics_collapse_eq]
  simp only [hskipped, hroot, List.nil_append, List.map_eq_nil_iff, List.filter_eq_nil_iff,
    Option.isNone_iff_eq_none, Option.isSome_iff_ne_none, ne_eq, Nat.add_eq_zero_iff,
    List.countP_eq_zero, Bool.not_eq_true', and_true, Bool.not_eq_false]
  exact and_left_comm

/-- **The first collapse of a session lists just the blocks that it left as they are, and each
further one lists all blocks again.** -/
theorem skippedCollapses_session (s : Strategy N E) (nodes : List N) (edges : List E)
    (before after : List (Operation N E)) (summarize : Node N → Node N → Summary)
    (hplain : ∀ n ∈ nodes, (s.node n).endLink = none)
    (hbefore : ∀ operation ∈ before, operation.isCollapse = false) :
    let start := (ofRecords nodes edges s).run before
    let first := start.collapse summarize
    let b := (ofRecords nodes edges s).run (before ++ .collapse summarize :: after)
    let again := after.countP Operation.isCollapse
    start.diagnostics.skippedCollapses = [] ∧
    (∀ n ∈ b.nodes, n.id ∈ first.diagnostics.skippedCollapses ↔ n.endLink = none) ∧
    ((nodes.map fun n => (s.node n).id).Nodup → first.diagnostics.skippedCollapses.Nodup) ∧
    b.diagnostics.skippedCollapses = first.diagnostics.skippedCollapses ++
      (List.replicate again (b.nodes.map Node.id)).flatten ∧
    ((∀ n ∈ b.nodes, n.id ∈ b.diagnostics.skippedCollapses → n.endLink = none) ↔
      again = 0 ∨ ∀ n ∈ b.nodes, n.endLink = none) ∧
    (first.diagnostics.isClean = true ↔ start.diagnostics.droppedEdges = 0 ∧
      (∀ entry ∈ start.entries, (start.listedEnd? entry).isSome = true) ∧
      ∀ e ∈ start.movedEdges, start.joinsEntries e = true) ∧
    (b.diagnostics.isClean = true ↔
      first.diagnostics.isClean = true ∧ (again = 0 ∨ b.nodes = [])) := by
  intro start first b again
  have hstart : start.Indexed := (indexed_ofRecords nodes edges s).run before
  obtain ⟨hsame, hnone⟩ := run_of_not_isCollapse (b := ofRecords nodes edges s) hbefore
  have hroot : start.diagnostics.missingRoot = false := missingRoot_run before
  have hunlinked : ∀ n ∈ start.nodes, n.endLink = none := by
    intro n hn
    obtain ⟨m, hm, -, -, hlink⟩ := exists_of_unleveled hsame hn
    obtain ⟨record, hrecord, rfl⟩ := List.mem_map.1 hm
    exact hlink.symm.trans (hplain record hrecord)
  have hfirst : first.diagnostics.skippedCollapses =
      (start.entries.filter fun entry => (start.listedEnd? entry).isNone).map Node.id := by
    show (start.collapse summarize).diagnostics.skippedCollapses = _
    rw [hstart.diagnostics_collapse_eq, show start.diagnostics.skippedCollapses = [] from hnone,
      List.nil_append]
  have hrun : first.Recollapsed b again := by
    have happend : b = first.run after := List.foldl_append
    rw [happend]
    exact (collapsed_collapse start summarize).run (hstart.apply (.collapse summarize)) after
  have hlisted : ∀ n ∈ b.nodes, n.id ∈ first.diagnostics.skippedCollapses ↔ n.endLink = none := by
    intro n hn
    obtain ⟨m, hm, hid, -, hlink⟩ := exists_of_unleveled hrun.nodes hn
    rw [hfirst, ← hid, ← hlink]
    exact mem_skipped_iff hstart hunlinked hm
  refine ⟨hnone, hlisted, fun hnodup => ?_, ?_, ?_,
    isClean_collapse_iff hstart hnone hroot summarize, hrun.isClean_iff ?_⟩
  · rw [hfirst]
    have hids : start.nodes.map Node.id = nodes.map fun n => (s.node n).id :=
      (ids_eq_of_unleveled hsame).trans List.map_map
    exact (hids ▸ hnodup).sublist ((List.filter_sublist.trans List.filter_sublist).map Node.id)
  · rw [hrun.skipped, ids_eq_of_unleveled hrun.nodes]
  · rw [hrun.skipped, ← ids_eq_of_unleveled hrun.nodes]
    constructor
    · -- one more collapse lists every node
      intro h
      refine or_iff_not_imp_left.2 fun hagain n hn => h n hn (List.mem_append_right _ ?_)
      exact List.mem_flatten.2
        ⟨_, List.mem_replicate.2 ⟨hagain, rfl⟩, List.mem_map_of_mem hn⟩
    · rintro (hagain | hall) n hn hmem
      · rw [hagain, List.replicate_zero, List.flatten_nil, List.append_nil] at hmem
        exact (hlisted n hn).1 hmem
      · exact hall n hn
  · exact (missingRoot_run _).trans ((missingRoot_run before).symm.trans
      (missingRoot_apply (.collapse summarize)).symm)

/-- One block has no end; the next collapse lists the others, too. -/
theorem skippedCollapses_malformed :
    (∀ n ∈ malformedNodes, (plain.node n).endLink = none) ∧
    (∀ operation ∈ [(.reindex : Operation Hir.Node Hir.Edge)], operation.isCollapse = false) ∧
    let b := malformed.run [.reindex, .collapse joinLabels, .collapse joinLabels]
    b.diagnostics.skippedCollapses = [5, 1, 3, 5] := by
  have hplain : ∀ n ∈ malformedNodes, (plain.node n).endLink = none := fun _ _ => rfl
  have hbefore : ∀ operation ∈ [(.reindex : Operation Hir.Node Hir.Edge)],
      operation.isCollapse = false := List.forall_mem_singleton.2 rfl
  obtain ⟨-, -, -, hskipped, -⟩ := skippedCollapses_session plain malformedNodes malformedEdges
    [.reindex] [.collapse joinLabels] joinLabels hplain hbefore
  have hindexed : malformed.Indexed := indexed_ofRecords malformedNodes malformedEdges plain
  have hfirst : (malformed.collapse joinLabels).diagnostics.skippedCollapses = [5] := by
    rw [hindexed.diagnostics_collapse_eq]
    decide
  have hids : (malformed.collapse joinLabels).nodes.map Node.id = [1, 3, 5] := by
    rw [ids_collapse]
    decide
  have hagain : (malformed.collapse joinLabels).collapse joinLabels =
      (malformed.collapse joinLabels).skipAll :=
    (collapsed_collapse malformed joinLabels).collapse_eq (hindexed.apply (.collapse joinLabels)) _
  refine ⟨hplain, hbefore, hskipped.trans ?_⟩
  show (malformed.collapse joinLabels).diagnostics.skippedCollapses ++
    (List.replicate 1 (((malformed.collapse joinLabels).collapse joinLabels).nodes.map
      Node.id)).flatten = _
  rw [hfirst, hagain]
  exact congrArg ([5] ++ ·) ((List.append_nil _).trans hids)

/-- One block that is well formed. -/
def oneBlock : Builder Hir.Node Hir.Edge :=
  ofRecords [{ id := 1, name := "BeginInst" }, { id := 2, name := "GOTOInst" }]
    [{ source := 1, target := 2, typeName := "bb" }] plain

/-- Collapsing twice lists a block as skipped although it was taken together. -/
theorem skipped_of_collapsed_twice :
    (oneBlock.run [.collapse joinLabels]).diagnostics.isClean = true ∧
    let b := oneBlock.run [.collapse joinLabels, .collapse joinLabels]
    (b.nodes.map fun n => (n.id, n.endLink)) = [(1, some 2)] ∧
    b.diagnostics.skippedCollapses = [1] ∧ b.diagnostics.isClean = false := by
  have hindexed : oneBlock.Indexed := indexed_ofRecords _ _ plain
  have honce : (oneBlock.run [.collapse joinLabels]).diagnostics = {} := by
    show (oneBlock.collapse joinLabels).diagnostics = _
    rw [hindexed.diagnostics_collapse_eq]
    decide
  have hnodes : ((oneBlock.collapse joinLabels).nodes.map fun n => (n.id, n.endLink)) =
      [(1, some 2)] := by
    rw [hindexed.nodes_collapse_eq]
    decide
  have htwice : oneBlock.run [.collapse joinLabels, .collapse joinLabels] =
      (oneBlock.collapse joinLabels).skipAll :=
    (collapsed_collapse oneBlock joinLabels).collapse_eq (hindexed.apply (.collapse joinLabels)) _
  have hskipped : (oneBlock.collapse joinLabels).skipAll.diagnostics.skippedCollapses = [1] := by
    show (oneBlock.run [.collapse joinLabels]).diagnostics.skippedCollapses ++
      (oneBlock.collapse joinLabels).nodes.map Node.id = _
    rw [honce, ids_collapse]
    decide
  refine ⟨by rw [honce]; rfl, ?_⟩
  rw [htwice]
  exact ⟨hnodes, hskipped, by rw [Diagnostics.isClean, hskipped]; rfl⟩

end Builder

end Display

end IrView
