import IrView.Proofs.Display.Balance
import IrView.Proofs.Flow.Renumbering
import IrView.Proofs.View.Subdivision
import IrView.View.Detail

/-!
# Operands do not mark loops

What walks do not follow they do not see. A graph and the part of it that walks follow
(`Graph.FollowedPart`) differ in the numbers of the edges only, so each operation on both keeps the
one a part of the other (`Builder.followedPart_markBackedges`). In the detail view walks follow all
edges but those to operands; so two passes with the same instructions show the same loops if they
differ in their operands only (`View.operands_mark_no_loops`).
-/

namespace IrView

namespace Display

variable {N E : Type}

/-- The second graph is the part of the first one that walks follow, with the same loops. -/
structure Graph.FollowedPart (follows : E → Bool) (g part : Graph N E) : Prop where
  nodes : part.nodes = g.nodes
  edges : part.edges = g.edges.filter fun e => follows e.record
  unmarked : ∀ e ∈ g.edges, follows e.record = false → e.isBackedge = false
  backedges : part.diagnostics.backedges = g.diagnostics.backedges
  missingRoot : part.diagnostics.missingRoot = g.diagnostics.missingRoot

namespace Builder

variable {b part : Builder N E} {follows : E → Bool} {root : NodeId}

/-! ### What walks see of a part -/

/-- Where an edge of the part stands in the whole list. -/
def placeIn (follows : E → Bool) (b : Builder N E) : Nat → Nat :=
  View.placeOf (fun e => follows e.record) b.edges

theorem zipIdx_followed (h : b.finish.FollowedPart follows part.finish) :
    (b.edges.zipIdx.filter fun x => follows x.1.record) =
      part.edges.zipIdx.map fun x => (x.1, b.placeIn follows x.2) := by
  have hedges : part.edges = b.edges.filter fun e => follows e.record := h.edges
  rw [hedges]
  exact View.zipIdx_filter_fst (p := fun e : Edge E => follows e.record)

theorem renumbering_adjacency (h : b.finish.FollowedPart follows part.finish) :
    Flow.Renumbering (b.placeIn follows) (part.adjacency follows) (b.adjacency follows) where
  order id := by
    have hnodes : part.nodes = b.nodes := h.nodes
    rw [mem_order_adjacency, mem_order_adjacency, hnodes]
  arcs id := by
    have hedges : part.edges = b.edges.filter fun e => follows e.record := h.edges
    have hfollowed : (part.edges.zipIdx.filter fun x => follows x.1.record && x.1.source == id) =
        part.edges.zipIdx.filter fun x => x.1.source == id := by
      refine List.filter_congr fun x hx => ?_
      have hmem : x.1 ∈ part.edges := List.fst_mem_of_mem_zipIdx hx
      rw [hedges] at hmem
      rw [(List.mem_filter.1 hmem).2, Bool.true_and]
    rw [arcs_adjacency, arcs_adjacency, hfollowed, List.map_map]
    calc (b.edges.zipIdx.filter fun x => follows x.1.record && x.1.source == id).map
          (fun x => (⟨x.2, x.1.target⟩ : Flow.Arc))
        = ((b.edges.zipIdx.filter fun x => follows x.1.record).filter fun x =>
            x.1.source == id).map fun x => ⟨x.2, x.1.target⟩ := by
          rw [List.filter_filter]
          exact congrArg (List.map _) (List.filter_congr fun _ _ => Bool.and_comm _ _)
      _ = ((part.edges.zipIdx.map fun x => (x.1, b.placeIn follows x.2)).filter fun x =>
            x.1.source == id).map fun x => ⟨x.2, x.1.target⟩ := by
          rw [zipIdx_followed h]
      _ = _ := by
          rw [List.filter_map, List.map_map]
          rfl

theorem placeIn_mem_backedges_iff (h : b.finish.FollowedPart follows part.finish) {j : Nat}
    (hj : j < part.edges.length) :
    b.placeIn follows j ∈ Flow.backedges (b.adjacency follows) root ↔
      j ∈ Flow.backedges (part.adjacency follows) root := by
  have hedges : part.edges = b.edges.filter fun e => follows e.record := h.edges
  rw [(renumbering_adjacency h).mem_backedges_iff]
  constructor
  · rintro ⟨i, hi, hplace⟩
    have hlt := lt_length_of_mem_backedges hi
    rw [hedges] at hlt hj
    rwa [← View.placeOf_inj hlt hj hplace]
  · exact fun hmem => ⟨j, hmem, rfl⟩

/-! ### What the operations keep -/

theorem followedPart_dropDangling (h : b.finish.FollowedPart follows part.finish) :
    b.dropDangling.finish.FollowedPart follows part.dropDangling.finish := by
  have hnodes : part.nodes = b.nodes := h.nodes
  have hedges : part.edges = b.edges.filter fun e => follows e.record := h.edges
  refine ⟨?_, ?_, fun e he => ?_, ?_, ?_⟩
  · show part.dropDangling.nodes = b.dropDangling.nodes
    rw [nodes_dropDangling, nodes_dropDangling, hnodes]
  · show part.dropDangling.edges = b.dropDangling.edges.filter _
    rw [edges_dropDangling, edges_dropDangling, attached, attached, hnodes, hedges,
      List.filter_comm]
  · change e ∈ b.dropDangling.edges at he
    rw [edges_dropDangling] at he
    exact h.unmarked e (List.mem_filter.1 he).1
  · show part.dropDangling.diagnostics.backedges = b.dropDangling.diagnostics.backedges
    rw [diagnostics_dropDangling, diagnostics_dropDangling]
    exact h.backedges
  · show part.dropDangling.diagnostics.missingRoot = b.dropDangling.diagnostics.missingRoot
    rw [diagnostics_dropDangling, diagnostics_dropDangling]
    exact h.missingRoot

theorem edges_markBackedges_eq : (b.markBackedges root follows).edges = b.edges.zipIdx.map fun x =>
    if x.2 ∈ Flow.backedges (b.adjacency follows) root then asBackedge x.1 else x.1 := by
  refine List.ext_getElem? fun i => ?_
  rw [getElem?_markBackedges, List.getElem?_map, List.getElem?_zipIdx, Option.map_map]
  simp [Function.comp_def]

/-- **Marking backedges marks the same in the part that walks follow.** -/
theorem followedPart_markBackedges (hclear : ∀ e ∈ b.edges, e.isBackedge = false)
    (h : b.finish.FollowedPart follows part.finish) :
    (b.markBackedges root follows).finish.FollowedPart follows
      (part.markBackedges root follows).finish := by
  have hedges : part.edges = b.edges.filter fun e => follows e.record := h.edges
  have hpart : (part.markBackedges root follows).edges =
      (b.markBackedges root follows).edges.filter fun e => follows e.record := by
    have hrecord : (fun x : Edge E × Nat => follows (if x.2 ∈
        Flow.backedges (b.adjacency follows) root then asBackedge x.1 else x.1).record) =
          fun x => follows x.1.record := by
      funext x
      split_ifs <;> rfl
    rw [edges_markBackedges_eq, edges_markBackedges_eq, List.filter_map]
    show _ = (b.edges.zipIdx.filter fun x : Edge E × Nat => follows (if x.2 ∈
      Flow.backedges (b.adjacency follows) root then asBackedge x.1 else x.1).record).map _
    rw [hrecord, zipIdx_followed h, List.map_map]
    refine List.map_congr_left fun x hx => ?_
    have hlt := List.snd_lt_of_mem_zipIdx hx
    rw [Nat.add_zero] at hlt
    exact if_congr (placeIn_mem_backedges_iff h hlt).symm rfl rfl
  have hunmarked : ∀ e ∈ (b.markBackedges root follows).edges, follows e.record = false →
      e.isBackedge = false := by
    intro e he hf
    obtain ⟨i, hi⟩ := List.mem_iff_getElem?.1 he
    have hp := getElem?_of_markBackedges hclear hi
    by_contra hb
    rw [Bool.not_eq_false] at hb
    rw [if_pos hb] at hp
    obtain ⟨e', he', rfl⟩ := Option.map_eq_some_iff.1 hp
    have hfollowed := (cycle_of_mem_backedges he' ((isBackedge_markBackedges hclear hi).1 hb)).1
    exact Bool.false_ne_true (hf.symm.trans hfollowed)
  refine ⟨h.nodes, hpart, hunmarked, ?_, h.missingRoot⟩
  -- the backedges that were found are the marked edges, and they are all in the part
  have hclear' : ∀ e ∈ part.edges, e.isBackedge = false := by
    intro e he
    rw [hedges] at he
    exact hclear e (List.mem_filter.1 he).1
  have hcount : (part.markBackedges root follows).edges.countP Edge.isBackedge =
      (b.markBackedges root follows).edges.countP Edge.isBackedge := by
    rw [hpart, List.countP_filter]
    refine List.countP_congr fun e he => ?_
    rw [Bool.and_eq_true, and_iff_left_iff_imp]
    intro hb
    by_contra hf
    rw [hunmarked e he (Bool.not_eq_true _ ▸ hf)] at hb
    exact Bool.false_ne_true hb
  exact (countP_isBackedge hclear').symm.trans (hcount.trans (countP_isBackedge hclear))

end Builder

/-! ### Builds -/

variable [NodeRecord N] [EdgeRecord E] {s : Strategy N E} {nodes : List N} {edges : List E}

/-- A build that keeps its blocks shows the same loops without the edges that walks do not
follow. -/
theorem followedPart_build (hkeep : s.summarize = none) (hlevels : s.assignLevels = false)
    (hrecord : ∀ e, (s.edge e).record = e) (hclear : ∀ e, (s.edge e).isBackedge = false) :
    (build s nodes edges).FollowedPart s.follows (build s nodes (edges.filter s.follows)) := by
  have hrecords : (Builder.ofRecords nodes edges s).finish.FollowedPart s.follows
      (Builder.ofRecords nodes (edges.filter s.follows) s).finish := by
    refine ⟨rfl, ?_, fun e he _ => ?_, rfl, rfl⟩
    · show (edges.filter s.follows).map s.edge = (edges.map s.edge).filter _
      rw [List.filter_map]
      exact congrArg (List.map _) (List.filter_congr fun e _ => congrArg s.follows (hrecord e).symm)
    · obtain ⟨e, -, rfl⟩ := List.mem_map.1 he
      exact hclear e
  have hprepared : (Builder.prepare s nodes edges).finish.FollowedPart s.follows
      (Builder.prepare s nodes (edges.filter s.follows)).finish := by
    rw [Builder.prepare, Builder.prepare, hkeep]
    exact Builder.followedPart_dropDangling hrecords
  have hunmarked : ∀ e ∈ (Builder.prepare s nodes edges).edges, e.isBackedge = false := by
    intro e he
    rw [Builder.prepare, hkeep, Builder.edges_dropDangling] at he
    obtain ⟨e, -, rfl⟩ := List.mem_map.1 (List.mem_filter.1 he).1
    exact hclear e
  have hroot : (Builder.prepare s nodes (edges.filter s.follows)).findRoot s.root =
      (Builder.prepare s nodes edges).findRoot s.root := by
    have hnodes : (Builder.prepare s nodes (edges.filter s.follows)).nodes =
        (Builder.prepare s nodes edges).nodes := hprepared.nodes
    rw [Builder.findRoot, Builder.findRoot, hnodes]
  rw [build_eq_walk, build_eq_walk, Builder.walk, Builder.walk, hroot, hlevels, Bool.or_false]
  by_cases hmark : s.markBackedges = true
  · rw [if_pos hmark, if_pos hmark]
    cases (Builder.prepare s nodes edges).findRoot s.root with
    | none => exact ⟨hprepared.nodes, hprepared.edges, hprepared.unmarked, hprepared.backedges, rfl⟩
    | some root =>
      dsimp only
      rw [Builder.walkFrom, Builder.walkFrom, hlevels, hmark]
      exact Builder.followedPart_markBackedges hunmarked hprepared
  · rw [if_neg hmark, if_neg hmark]
    exact hprepared

end Display

namespace View

variable {options : DetailOptions} {hir : Hir.Graph}

/-- The pass without the edges to operands. -/
def withoutOperands (hir : Hir.Graph) : Hir.Graph :=
  { hir with edges := hir.edges.filter fun e => e.kind != .operand }

theorem followedPart_detail : (detail options hir).FollowedPart isFollowed
    (detail options (withoutOperands hir)) := by
  let removed := removedIds options.hides hir.nodes
  have hkept : keepEdges removed (withoutOperands hir).edges =
      (keepEdges removed hir.edges).filter isFollowed := List.filter_comm _ _ _
  have hpart : detail options (withoutOperands hir) = Display.build (detailStrategy options)
      (keepNodes removed hir.nodes) ((keepEdges removed hir.edges).filter isFollowed) :=
    congrArg (Display.build _ (keepNodes removed hir.nodes)) hkept
  rw [hpart]
  exact Display.followedPart_build (s := detailStrategy options) rfl rfl (fun _ => rfl)
    fun _ => rfl

/-- **Operands do not mark loops.** If two passes have the same instructions and differ in their
edges to operands only, the detail view shows the same other edges of them, with the same marks and
colors, counts as many backedges, and misses the root in both or in none. No edge to an operand is
marked. -/
theorem operands_mark_no_loops (options : DetailOptions) (hir hir' : Hir.Graph)
    (hnodes : hir.nodes = hir'.nodes)
    (hedges : (hir.edges.filter fun e => e.kind != .operand) =
      hir'.edges.filter fun e => e.kind != .operand) :
    let g := detail options hir
    let g' := detail options hir'
    (g.edges.filter fun e => e.record.kind != .operand) =
      g'.edges.filter (fun e => e.record.kind != .operand) ∧
    g.diagnostics.backedges = g'.diagnostics.backedges ∧
    g.diagnostics.missingRoot = g'.diagnostics.missingRoot ∧
    (∀ e ∈ g.edges, e.record.kind = .operand → e.isBackedge = false) ∧
    ∀ e ∈ g'.edges, e.record.kind = .operand → e.isBackedge = false := by
  intro g g'
  have hsame : withoutOperands hir = withoutOperands hir' := by
    rw [withoutOperands, withoutOperands, hnodes, hedges]
  have h : g.FollowedPart isFollowed (detail options (withoutOperands hir)) := followedPart_detail
  have h' : g'.FollowedPart isFollowed (detail options (withoutOperands hir)) :=
    hsame ▸ followedPart_detail
  have hoperand : ∀ e : Hir.Edge, e.kind = .operand → isFollowed e = false := by
    intro e he
    rw [isFollowed, he]
    rfl
  exact ⟨h.edges.symm.trans h'.edges, h.backedges.symm.trans h'.backedges,
    h.missingRoot.symm.trans h'.missingRoot,
    fun e he hk => h.unmarked e he (hoperand _ hk), fun e he hk => h'.unmarked e he (hoperand _ hk)⟩

/-- An instruction that jumps to itself. -/
def jumpToSelf : Hir.Graph where
  nodes := [{ id := 1, name := "BeginInst", root := true }]
  edges := [{ source := 1, target := 1, typeName := "cfg" }]

/-- The same instruction, which is its own operand as well, with operands that are missing. -/
def jumpWithOperands : Hir.Graph where
  nodes := jumpToSelf.nodes
  edges := [{ source := 1, target := 9, typeName := "op" },
    { source := 1, target := 1, typeName := "op" }, { source := 1, target := 1, typeName := "cfg" },
    { source := 9, target := 1, typeName := "op" }]

/-- The jump as the view shows it. -/
def markedJump : Display.Edge Hir.Edge :=
  Display.Builder.asBackedge (detailEdge { source := 1, target := 1, typeName := "cfg" })

theorem detail_jumpToSelf : detail { markBackedges := true } jumpToSelf =
    ((Display.Builder.ofRecords jumpToSelf.nodes jumpToSelf.edges
      (detailStrategy { markBackedges := true })).markBackedges 1 isFollowed).finish := by
  have hremoved : removedIds (DetailOptions.hides { markBackedges := true })
      jumpToSelf.nodes = [] := by
    decide
  rw [detail, hremoved, Display.build_eq_walk]
  show (Display.Builder.prepare _ jumpToSelf.nodes jumpToSelf.edges).walk _ = _
  rw [Display.Builder.prepare_of_attached rfl fun e he => ?_]
  · rfl
  · obtain rfl := List.mem_singleton.1 he
    exact ⟨List.mem_singleton_self _, List.mem_singleton_self _⟩

theorem markedJump_mem : markedJump ∈ (detail { markBackedges := true } jumpToSelf).edges := by
  let b := Display.Builder.ofRecords jumpToSelf.nodes jumpToSelf.edges
    (detailStrategy { markBackedges := true })
  -- the jump leads to the root, where the walk stands when it meets the jump
  have hfound : 0 ∈ Flow.backedges (b.adjacency isFollowed) 1 := by
    have hroot : 1 ∈ (b.adjacency isFollowed).order :=
      Display.Builder.mem_order_adjacency.2 (List.mem_singleton_self _)
    obtain ⟨p, -, -, hfound⟩ := Flow.exists_trail_of_reaches hroot .refl
    refine hfound ⟨0, 1⟩ (Display.Builder.mem_arcs_adjacency.2 ?_) List.mem_cons_self
    exact ⟨_, rfl, rfl, rfl, rfl⟩
  have hmarked : (b.markBackedges 1 isFollowed).edges[0]? = some markedJump := by
    rw [Display.Builder.getElem?_markBackedges]
    simp only [hfound, if_true]
    rfl
  rw [detail_jumpToSelf]
  exact List.mem_of_getElem? hmarked

theorem operands_mark_no_loops_jump : jumpToSelf.nodes = jumpWithOperands.nodes ∧
    (jumpToSelf.edges.filter fun e => e.kind != .operand) =
      (jumpWithOperands.edges.filter fun e => e.kind != .operand) ∧
    markedJump ∈ (detail { markBackedges := true } jumpWithOperands).edges ∧
    markedJump.isBackedge = true := by
  have hedges : (jumpToSelf.edges.filter fun e => e.kind != .operand) =
      jumpWithOperands.edges.filter fun e => e.kind != .operand := by decide
  obtain ⟨hsame, -⟩ := operands_mark_no_loops { markBackedges := true } jumpToSelf
    jumpWithOperands rfl hedges
  have hshown : markedJump ∈ (detail { markBackedges := true } jumpToSelf).edges.filter
      fun e => e.record.kind != .operand := List.mem_filter.2 ⟨markedJump_mem, by decide⟩
  rw [hsame] at hshown
  exact ⟨rfl, hedges, (List.mem_filter.1 hshown).1, rfl⟩

end View

end IrView
