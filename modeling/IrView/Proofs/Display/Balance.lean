import IrView.Proofs.Display.Identity

/-!
# Every edge is accounted for

An operation that drops edges counts them (`Builder.recorded_dropDangling`), except for block links,
which go when blocks are collapsed (`Builder.recorded_collapse`). The walks drop nothing. So after a
build the edges that are listed, those that were counted and the block links add up to the edges
that were given (`build_accounts`).
-/

namespace IrView

namespace Display

variable {N E : Type}

theorem Graph.Shows.identities {g : Graph N E} {b : Builder N E} (h : g.Shows b) :
    g.nodes.map Node.identity = b.nodes.map Node.identity := by
  have hidentity : (Node.identity : Node N → _) = Node.identity ∘ Node.unleveled := rfl
  rw [hidentity, ← List.map_map, h.nodes, List.map_map]

/-! ### Edges that go -/

namespace Builder

variable {b : Builder N E}

/-- The edges that are listed and those that were counted when they were dropped. -/
def recorded (b : Builder N E) : Nat :=
  b.edges.length + b.diagnostics.droppedEdges

theorem recorded_dropDangling (b : Builder N E) : b.dropDangling.recorded = b.recorded := by
  rw [recorded, recorded, edges_dropDangling, diagnostics_dropDangling]
  dsimp only
  rw [← length_attached_add_dangling b]
  omega

/-- Dropping dangling edges leaves none. -/
theorem attached_dropDangling {e : Edge E} (he : e ∈ b.dropDangling.edges) :
    e.source ∈ b.dropDangling.nodes.map Node.id ∧ e.target ∈ b.dropDangling.nodes.map Node.id := by
  rw [edges_dropDangling] at he
  rw [nodes_dropDangling]
  exact isAttached_ofList.1 (List.mem_filter.1 he).2

variable [EdgeRecord E]

/-- The number of block links among the edges. -/
def links (edges : List (Edge E)) : Nat :=
  edges.countP fun e => EdgeRecord.isBlockLink e.record

variable [NodeRecord N]

/-- Collapsing drops the block links without counting them. -/
theorem recorded_collapse (h : b.Indexed) (summarize : Node N → Node N → Summary) :
    (b.collapse summarize).recorded + links b.edges = b.recorded := by
  have hlinks : links (b.edges.map b.redirect) = links b.edges := List.countP_map
  have hlength : (b.mergeBlocks summarize).edges.length + links b.edges = b.edges.length := by
    have hsplit := (b.edges.map b.redirect).length_eq_countP_add_countP fun e =>
      EdgeRecord.isBlockLink e.record
    simp only [Bool.not_eq_true, Bool.decide_eq_false] at hsplit
    rw [edges_mergeBlocks h, ← List.countP_eq_length_filter, ← hlinks, Nat.add_comm]
    exact hsplit.symm.trans (List.length_map _)
  rw [collapse, recorded_dropDangling]
  show (b.mergeBlocks summarize).edges.length + b.diagnostics.droppedEdges + _ = _
  rw [recorded]
  omega

/-! ### What is prepared for the walks -/

variable {s : Strategy N E} {nodes : List N} {edges : List E}

/-- If blocks are kept and no edge dangles, the walks see all records. -/
theorem prepare_of_attached (hkeep : s.summarize = none)
    (h : ∀ e ∈ (ofRecords nodes edges s).edges,
      e.source ∈ (ofRecords nodes edges s).nodes.map Node.id ∧
        e.target ∈ (ofRecords nodes edges s).nodes.map Node.id) :
    prepare s nodes edges = ofRecords nodes edges s := by
  rw [prepare, hkeep]
  exact dropDangling_of_attached h

theorem attached_prepare {e : Edge E} (he : e ∈ (prepare s nodes edges).edges) :
    e.source ∈ (prepare s nodes edges).nodes.map Node.id ∧
      e.target ∈ (prepare s nodes edges).nodes.map Node.id := by
  unfold prepare at he ⊢
  split at he
  · exact attached_dropDangling he
  · exact attached_dropDangling he

theorem identity_prepare : (prepare s nodes edges).nodes.map Node.identity =
    (if s.summarize.isSome then (nodes.map s.node).filter fun n => NodeRecord.isBlockEntry n.record
      else nodes.map s.node).map Node.identity := by
  unfold prepare
  cases s.summarize with
  | none => exact congrArg (List.map _) (nodes_dropDangling _)
  | some summarize =>
    dsimp only
    rw [nodes_dropDangling, identity_nodes_collapse]
    rfl

theorem unlinked_prepare (hcollapse : s.summarize.isSome = true) :
    ∀ e ∈ (prepare s nodes edges).edges, EdgeRecord.isBlockLink e.record = false := by
  unfold prepare
  cases hs : s.summarize with
  | none => rw [hs] at hcollapse; cases hcollapse
  | some summarize =>
    intro e he
    rw [edges_dropDangling] at he
    exact unlinked_collapse (indexed_ofRecords nodes edges s) summarize e (List.mem_filter.1 he).1

theorem recorded_prepare : (prepare s nodes edges).recorded +
    (if s.summarize.isSome then links (edges.map s.edge) else 0) = edges.length := by
  have hrecords : (ofRecords nodes edges s).recorded = edges.length := List.length_map _
  unfold prepare
  cases s.summarize with
  | none =>
    dsimp only
    rw [recorded_dropDangling, hrecords]
    rfl
  | some summarize =>
    dsimp only
    rw [recorded_dropDangling, ← hrecords]
    exact recorded_collapse (indexed_ofRecords nodes edges s) summarize

end Builder

/-! ### Built graphs -/

variable [NodeRecord N] [EdgeRecord E]

/-- The graph accounts for the given nodes and edges: its edges lead from node to node, it has the
given nodes, or the block entries among them if blocks are collapsed, and each given edge is listed,
counted as dropped, or a block link that went when blocks were collapsed. -/
structure Graph.Accounts (g : Graph N E) (collapsing : Bool) (nodes : List (Node N))
    (edges : List (Edge E)) : Prop where
  closed : ∀ e ∈ g.edges, e.source ∈ g.nodes.map Node.id ∧ e.target ∈ g.nodes.map Node.id
  nodes : g.nodes.map Node.identity =
    (if collapsing then nodes.filter fun n => NodeRecord.isBlockEntry n.record
      else nodes).map Node.identity
  unlinked : collapsing = true → ∀ e ∈ g.edges, EdgeRecord.isBlockLink e.record = false
  balance : edges.length = g.edges.length + g.diagnostics.droppedEdges +
    if collapsing then edges.countP fun e => EdgeRecord.isBlockLink e.record else 0

/-- A build accounts for what it was given. -/
theorem build_accounts (s : Strategy N E) (nodes : List N) (edges : List E) :
    (build s nodes edges).Accounts s.summarize.isSome (nodes.map s.node) (edges.map s.edge) := by
  have hshows : (build s nodes edges).Shows (Builder.prepare s nodes edges) := shows_build
  have hmem : ∀ e ∈ (build s nodes edges).edges, ∃ e' ∈ (Builder.prepare s nodes edges).edges,
      Builder.ends e' = Builder.ends e := by
    intro e he
    exact List.mem_map.1 (hshows.ends ▸ List.mem_map_of_mem he)
  refine ⟨fun e he => ?_, hshows.identities.trans Builder.identity_prepare, fun hs e he => ?_, ?_⟩
  · obtain ⟨e', he', hends⟩ := hmem e he
    obtain ⟨-, hsource, htarget⟩ := Builder.ends_eq_iff.1 hends
    rw [hshows.ids, ← hsource, ← htarget]
    exact Builder.attached_prepare he'
  · obtain ⟨e', he', hends⟩ := hmem e he
    rw [← (Builder.ends_eq_iff.1 hends).1]
    exact Builder.unlinked_prepare hs e' he'
  · have hlength := congrArg List.length hshows.ends
    rw [List.length_map, List.length_map] at hlength
    rw [List.length_map, hlength, hshows.dropped]
    exact Builder.recorded_prepare.symm

end Display

end IrView
