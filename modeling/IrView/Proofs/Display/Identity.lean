import IrView.Form
import IrView.Proofs.Display.Session

/-!
# What a session keeps of the elements

Operations remove elements and change how they are drawn, but what an element is stays as it was
(`Node.identity`, `Edge.identity`), and the remaining elements stay in their order
(`Builder.nodes_run_sublist`, `Builder.edges_run_sublist`).

Only collapsing moves the source of an edge. It does so once: it leaves no block link, so a second
time no block has an end (`Builder.Origin`). Therefore an edge leaves the source of its record or
the entry of the block that ends there, and the entry says so (`Builder.identity_never_lost`).
-/

namespace IrView

namespace Display

variable {N E : Type}

/-- What no operation changes of a node: record, id, name, title, group, container, dashes, whether
it is hidden, and the width of its border. -/
def Node.identity (n : Node N) : N × NodeId × String × Option String × Option String ×
    Option String × Bool × Bool × Option Nat :=
  (n.record, n.id, n.name, n.title, n.group, n.container, n.dashed, n.hidden, n.borderWidth)

/-- What no operation changes of an edge: record, target, label, title, dashes, whether it is
hidden, head and width. -/
def Edge.identity (e : Edge E) :
    E × NodeId × String × Option String × Bool × Bool × Arrow × Option Nat :=
  (e.record, e.target, e.label, e.title, e.dashed, e.hidden, e.arrow, e.width)

namespace Builder

variable {b b' : Builder N E}

/-! ### The remaining elements -/

theorem identity_edges_markBackedges {root : NodeId} {follows : E → Bool} :
    (b.markBackedges root follows).edges.map Edge.identity = b.edges.map Edge.identity := by
  refine List.ext_getElem? fun i => ?_
  rw [List.getElem?_map, List.getElem?_map, getElem?_markBackedges, Option.map_map]
  refine congrArg (fun f => b.edges[i]?.map f) (funext fun e => ?_)
  rw [Function.comp_apply]
  split_ifs <;> rfl

variable [EdgeRecord E]

theorem identity_collapsedNode (summarize : Node N → Node N → Summary) (n : Node N) :
    (b.collapsedNode summarize n).identity = n.identity := by
  unfold collapsedNode
  split <;> rfl

variable [NodeRecord N]

theorem identity_nodes_collapse (summarize : Node N → Node N → Summary) :
    (b.collapse summarize).nodes.map Node.identity = b.entries.map Node.identity := by
  rw [nodes_collapse, List.map_map]
  exact List.map_congr_left fun n _ => identity_collapsedNode summarize n

theorem nodes_apply_sublist (operation : Operation N E) :
    ((b.apply operation).nodes.map Node.identity).Sublist (b.nodes.map Node.identity) := by
  cases operation with
  | collapse summarize =>
    show ((b.collapse summarize).nodes.map _).Sublist _
    rw [identity_nodes_collapse]
    exact List.filter_sublist.map _
  | dropDangling =>
    show (b.dropDangling.nodes.map _).Sublist _
    rw [nodes_dropDangling]
  | markBackedges root follows => exact List.Sublist.refl _
  | assignLevels root follows =>
    show ((b.nodes.map _).map _).Sublist _
    rw [List.map_map]
    exact List.Sublist.refl _
  | reindex => exact List.Sublist.refl _

theorem edges_apply_sublist (h : b.Indexed) (operation : Operation N E) :
    ((b.apply operation).edges.map Edge.identity).Sublist (b.edges.map Edge.identity) := by
  cases operation with
  | collapse summarize =>
    have hredirect : (b.edges.map b.redirect).map Edge.identity = b.edges.map Edge.identity :=
      List.map_map
    show ((b.collapse summarize).edges.map _).Sublist _
    rw [edges_collapse h, ← hredirect]
    exact (List.filter_sublist.trans List.filter_sublist).map _
  | dropDangling =>
    show (b.dropDangling.edges.map _).Sublist _
    rw [edges_dropDangling]
    exact List.filter_sublist.map _
  | markBackedges root follows =>
    show ((b.markBackedges root follows).edges.map _).Sublist _
    rw [identity_edges_markBackedges]
  | assignLevels root follows => exact List.Sublist.refl _
  | reindex => exact List.Sublist.refl _

theorem nodes_run_sublist (h : b.Indexed) (operations : List (Operation N E)) :
    ((b.run operations).nodes.map Node.identity).Sublist (b.nodes.map Node.identity) :=
  run_induction (P := fun c : Builder N E =>
      (c.nodes.map Node.identity).Sublist (b.nodes.map Node.identity)) h
    (List.Sublist.refl _) (fun _ operation _ hc => (nodes_apply_sublist operation).trans hc)
    operations

theorem edges_run_sublist (h : b.Indexed) (operations : List (Operation N E)) :
    ((b.run operations).edges.map Edge.identity).Sublist (b.edges.map Edge.identity) :=
  run_induction (P := fun c : Builder N E =>
      (c.edges.map Edge.identity).Sublist (b.edges.map Edge.identity)) h
    (List.Sublist.refl _) (fun _ operation hi hc => (edges_apply_sublist hi operation).trans hc)
    operations

/-! ### The sources of the edges -/

/-- An edge leaves the source of its record, or the entry of the block that ends there. -/
def Traced (b : Builder N E) (e : Edge E) : Prop :=
  e.source = EdgeRecord.source e.record ∨
    ∃ n ∈ b.nodes, n.id = e.source ∧ NodeRecord.isBlockEntry n.record = true ∧
      n.endLink = some (EdgeRecord.source e.record)

/-- Where the sources come from: all edges leave the sources of their records, or blocks were
merged and left no block link. -/
inductive Origin (b : Builder N E) : Prop
  | raw (source : ∀ e ∈ b.edges, e.source = EdgeRecord.source e.record)
  | merged (unlinked : ∀ e ∈ b.edges, EdgeRecord.isBlockLink e.record = false)
      (traced : ∀ e ∈ b.edges, b.Traced e)

theorem Origin.traced (h : b.Origin) {e : Edge E} (he : e ∈ b.edges) : b.Traced e := by
  cases h with
  | raw source => exact Or.inl (source e he)
  | merged _ traced => exact traced e he

/-- The sources come from where they came from, if no edge is new and the entries stay. -/
theorem Origin.of_ends (h : b.Origin)
    (hedges : ∀ e ∈ b'.edges, ∃ e' ∈ b.edges, ends e = ends e')
    (hnodes : ∀ n ∈ b.nodes, NodeRecord.isBlockEntry n.record = true →
      ∃ n' ∈ b'.nodes, n'.id = n.id ∧ n'.record = n.record ∧ n'.endLink = n.endLink) :
    b'.Origin := by
  cases h with
  | raw source =>
    refine .raw fun e he => ?_
    obtain ⟨e', he', hends⟩ := hedges e he
    obtain ⟨hr, hs, -⟩ := ends_eq_iff.1 hends
    rw [hs, hr]
    exact source e' he'
  | merged unlinked traced =>
    refine .merged (fun e he => ?_) fun e he => ?_
    · obtain ⟨e', he', hends⟩ := hedges e he
      rw [(ends_eq_iff.1 hends).1]
      exact unlinked e' he'
    · obtain ⟨e', he', hends⟩ := hedges e he
      obtain ⟨hr, hs, -⟩ := ends_eq_iff.1 hends
      rw [Traced, hr, hs]
      refine (traced e' he').imp_right ?_
      rintro ⟨n, hn, hid, hentry, hlink⟩
      obtain ⟨n', hn', hid', hrecord, hlink'⟩ := hnodes n hn hentry
      exact ⟨n', hn', hid'.trans hid, hrecord ▸ hentry, hlink'.trans hlink⟩

theorem Origin.collapse (h : b.Origin) (hi : b.Indexed) (summarize : Node N → Node N → Summary) :
    (b.collapse summarize).Origin := by
  cases h with
  | raw source =>
    refine .merged (unlinked_collapse hi summarize) fun e he => ?_
    rw [edges_collapse hi] at he
    obtain ⟨e', he', rfl⟩ := List.mem_map.1 (List.mem_filter.1 (List.mem_filter.1 he).1).1
    have hs := source e' he'
    cases ho : b.owner? e'.source with
    | none =>
      left
      show (b.owner? e'.source).getD e'.source = _
      rw [ho, Option.getD_none]
      exact hs
    | some o =>
      right
      obtain ⟨entry, hentry, rfl, hends⟩ := exists_entry_of_owner? ho
      refine ⟨b.collapsedNode summarize entry, ?_, ?_, ?_, ?_⟩
      · rw [nodes_collapse]
        exact List.mem_map_of_mem hentry
      · rw [id_collapsedNode]
        show _ = (b.owner? e'.source).getD e'.source
        rw [ho, Option.getD_some]
      · rw [record_collapsedNode]
        exact (List.mem_filter.1 hentry).2
      · rw [endLink_collapsedNode hends]
        exact congrArg some hs
  | merged unlinked traced =>
    refine Origin.of_ends (.merged unlinked traced) (fun e he => ?_) fun n hn hentry => ?_
    · rw [edges_collapse hi] at he
      obtain ⟨e', he', rfl⟩ := List.mem_map.1 (List.mem_filter.1 (List.mem_filter.1 he).1).1
      exact ⟨e', he', by rw [redirect_of_unlinked hi unlinked]⟩
    · refine ⟨n, ?_, rfl, rfl, rfl⟩
      rw [nodes_collapse, List.mem_map]
      exact ⟨n, List.mem_filter.2 ⟨hn, hentry⟩, collapsedNode_of_unlinked hi unlinked summarize n⟩

/-- No operation loses track of a source. -/
theorem Origin.apply (h : b.Origin) (hi : b.Indexed) (operation : Operation N E) :
    (b.apply operation).Origin := by
  cases operation with
  | collapse summarize => exact h.collapse hi summarize
  | dropDangling =>
    refine h.of_ends (fun e he => ?_) fun n hn _ => ?_
    · rw [Builder.apply, edges_dropDangling] at he
      exact ⟨e, (List.mem_filter.1 he).1, rfl⟩
    · exact ⟨n, by rwa [Builder.apply, nodes_dropDangling], rfl, rfl, rfl⟩
  | markBackedges root follows =>
    refine h.of_ends (fun e he => ?_) fun n hn _ => ⟨n, hn, rfl, rfl, rfl⟩
    have hmem : ends e ∈ b.edges.map ends := ends_markBackedges ▸ List.mem_map_of_mem he
    obtain ⟨e', he', hends⟩ := List.mem_map.1 hmem
    exact ⟨e', he', hends.symm⟩
  | assignLevels root follows =>
    exact h.of_ends (fun e he => ⟨e, he, rfl⟩) fun n hn _ =>
      ⟨_, List.mem_map_of_mem hn, rfl, rfl, rfl⟩
  | reindex => exact h.of_ends (fun e he => ⟨e, he, rfl⟩) fun n hn _ => ⟨n, hn, rfl, rfl, rfl⟩

theorem Origin.run (h : b.Origin) (hi : b.Indexed) (operations : List (Operation N E)) :
    (b.run operations).Origin :=
  run_induction hi h (fun _ operation hc ho => ho.apply hc operation) operations

/-- **No session loses what the elements are.** If the edges leave the sources of their records at
first, then after every session the remaining elements stand in their old order and are what they
were, and each edge leaves the source of its record or a block entry among the nodes that says that
its block ends there. -/
theorem identity_never_lost (s : Strategy N E) (nodes : List N) (edges : List E)
    (operations : List (Operation N E))
    (hsource : ∀ e ∈ edges, (s.edge e).source = EdgeRecord.source (s.edge e).record) :
    let b := (ofRecords nodes edges s).run operations
    (b.nodes.map Node.identity).Sublist ((nodes.map s.node).map Node.identity) ∧
    (b.edges.map Edge.identity).Sublist ((edges.map s.edge).map Edge.identity) ∧
    ∀ e ∈ b.edges, e.source = EdgeRecord.source e.record ∨
      ∃ n ∈ b.nodes, n.id = e.source ∧ NodeRecord.isBlockEntry n.record = true ∧
        n.endLink = some (EdgeRecord.source e.record) := by
  intro b
  have hindexed := indexed_ofRecords nodes edges s
  have horigin : (ofRecords nodes edges s).Origin := by
    refine .raw fun e he => ?_
    obtain ⟨record, hrecord, rfl⟩ := List.mem_map.1 he
    exact hsource record hrecord
  exact ⟨nodes_run_sublist hindexed operations, edges_run_sublist hindexed operations,
    fun e he => (horigin.run hindexed operations).traced he⟩

/-- Every record as it is. -/
def plain : Strategy Hir.Node Hir.Edge where
  node n := .ofRecord n n.name
  edge e := .ofRecord e ""

/-- Two blocks that have their end in common. -/
def sharedNodes : List Hir.Node :=
  [{ id := 1, name := "BeginInst" }, { id := 3, name := "BeginInst" },
    { id := 2, name := "GOTOInst" }]

/-- Both blocks lead to their end, which jumps to the first of them. -/
def sharedEdges : List Hir.Edge :=
  [{ source := 1, target := 2, typeName := "bb" }, { source := 3, target := 2, typeName := "bb" },
    { source := 2, target := 1, typeName := "cfg" }]

/-- The last of the two blocks takes the jump over. -/
theorem owner?_shared : (ofRecords sharedNodes sharedEdges plain).owner? 2 = some 3 := by
  have hends : (ofRecords sharedNodes sharedEdges plain).endsAt 2 = fun entry => Option.any _ _ :=
    funext fun entry => congrArg (Option.any _)
      (blockEnd?_eq (indexed_ofRecords sharedNodes sharedEdges plain) entry)
  rw [owner?, ownerAmong, hends]
  decide

theorem exists_endLink_shared : (∀ e ∈ sharedEdges, (plain.edge e).source = e.source) ∧
    ∃ e ∈ ((ofRecords sharedNodes sharedEdges plain).run [.collapse fun _ _ => ⟨"", ""⟩]).edges,
      e.source ≠ e.record.source ∧
        ∃ n ∈ ((ofRecords sharedNodes sharedEdges plain).run
            [.collapse fun _ _ => ⟨"", ""⟩]).nodes,
          n.id = e.source ∧ n.endLink = some e.record.source := by
  have hsource : ∀ e ∈ sharedEdges, (plain.edge e).source = e.source := fun _ _ => rfl
  obtain ⟨-, -, htraced⟩ := identity_never_lost plain sharedNodes sharedEdges
    [.collapse fun _ _ => ⟨"", ""⟩] hsource
  let jump : Edge Hir.Edge :=
    { source := 3, target := 1, label := "",
      record := { source := 2, target := 1, typeName := "cfg" } }
  have hjump : (ofRecords sharedNodes sharedEdges plain).redirect
      (plain.edge { source := 2, target := 1, typeName := "cfg" }) = jump := by
    show ({ source := (owner? _ 2).getD 2, .. } : Edge Hir.Edge) = jump
    rw [owner?_shared]
    rfl
  have hmem : jump ∈ ((ofRecords sharedNodes sharedEdges plain).run
      [.collapse fun _ _ => ⟨"", ""⟩]).edges := by
    show jump ∈ (collapse _ _).edges
    rw [edges_collapse (indexed_ofRecords sharedNodes sharedEdges plain)]
    exact List.mem_filter.2 ⟨List.mem_filter.2 ⟨List.mem_map.2
      ⟨_, .tail _ (.tail _ (.head _)), hjump⟩, by decide⟩, isAttached_ofList.2 (by decide)⟩
  refine ⟨hsource, jump, hmem, by decide, ?_⟩
  obtain hraw | ⟨n, hn, hid, -, hlink⟩ := htraced jump hmem
  · exact absurd hraw (by decide)
  · exact ⟨n, hn, hid, hlink⟩

end Builder

end Display

end IrView
