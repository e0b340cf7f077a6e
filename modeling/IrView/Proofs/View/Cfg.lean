import IrView.Proofs.Display.Walks
import IrView.Proofs.View.Subdivision

/-!
# Collapsing keeps loops and depths

The graph of the view with its blocks kept is a subdivision of the graph with its blocks collapsed.
So both views mark the same edges as backedges, and a block that the root reaches stands on twice
the level (`View.collapsing_keeps_loops_and_depths`).

A block that the root does not reach is placed below what is on the levels already, so for it the
levels of both views are not tied to one another (`View.not_level_doubled_of_stray`).
-/

namespace IrView

namespace View

open Relation

variable {hir : Hir.Graph} {options options' : CfgOptions} {b id : NodeId}

/-! ### The root -/

theorem findRoot_kept (h : hir.WellFormed) {r : Hir.Node} (hr : r ∈ hir.controls)
    (hroot : r.root = true) : (kept options hir).findRoot .flagged = some r.id := by
  have hfind : hir.controls.find? Hir.Node.root = some r := by
    rw [← List.head?_filter, (h.filter_root hr hroot).1, List.head?_cons]
  rw [Display.Builder.findRoot, kept, Display.Builder.nodes_dropDangling]
  show ((hir.controls.map (cfgStrategy options).node).find? _).map _ = _
  rw [List.find?_map]
  show ((hir.controls.find? Hir.Node.root).map _).map _ = _
  rw [hfind]
  rfl

theorem findRoot_collapsed (h : hir.WellFormed) {r : Hir.Node} (hr : r ∈ hir.controls)
    (hroot : r.root = true) : (collapsed options hir).findRoot .flagged = some r.id := by
  have hfind : (hir.controls.filter fun n => n.kind == .begin).find? Hir.Node.root = some r := by
    obtain ⟨hr, hk⟩ := h.filter_root hr hroot
    rw [← List.head?_filter, List.filter_comm, hr]
    simp [hk]
  have hentries : (records options hir).entries =
      (hir.controls.filter fun n => n.kind == .begin).map (cfgStrategy options).node :=
    List.filter_map
  have hrecord : (fun n => NodeRecord.isRoot ((records options hir).collapsedNode summarizeBlock
      ((cfgStrategy options).node n)).record) = Hir.Node.root := by
    funext n
    rw [Display.Builder.record_collapsedNode]
    rfl
  rw [Display.Builder.findRoot, collapsed, Display.Builder.nodes_dropDangling,
    Display.Builder.nodes_collapse, hentries, List.find?_map, List.find?_map]
  show ((List.find? (fun n => NodeRecord.isRoot ((records options hir).collapsedNode
    summarizeBlock ((cfgStrategy options).node n)).record) _).map _ |>.map _).map _ = _
  rw [hrecord, hfind]
  exact congrArg some (Display.Builder.id_collapsedNode summarizeBlock _)

/-! ### Marks -/

theorem marks_kept (h : hir.WellFormed) {root : NodeId} :
    ((kept options hir).walked root isFollowed).marks = hir.flows.zipIdx.map fun x =>
      (x.1, decide (x.2 ∈ Flow.backedges ((kept options hir).adjacency isFollowed) root)) := by
  have hedges : (kept options hir).edges = _ := edges_kept h
  have hclear : ∀ e ∈ (kept options hir).edges, e.isBackedge = false := by
    intro e he
    rw [hedges] at he
    obtain ⟨e, -, rfl⟩ := List.mem_map.1 he
    rfl
  rw [Display.Builder.marks_walked hclear, hedges, List.zipIdx_map, List.map_map]
  rfl

theorem marks_collapsed (h : hir.WellFormed) {root : NodeId} :
    ((collapsed options hir).walked root isFollowed).marks =
      (hir.flows.filter hir.isShown).zipIdx.map fun x => (x.1,
        decide (x.2 ∈ Flow.backedges ((collapsed options hir).adjacency isFollowed) root)) := by
  have hedges : (collapsed options hir).edges = _ := edges_collapsed h
  have hclear : ∀ e ∈ (collapsed options hir).edges, e.isBackedge = false := by
    intro e he
    rw [hedges] at he
    obtain ⟨e, -, rfl⟩ := List.mem_map.1 he
    rfl
  rw [Display.Builder.marks_walked hclear, hedges, List.zipIdx_map, List.map_map]
  rfl

/-- The backedges found among the shown edges stand where the backedges among all edges stand. -/
theorem mem_backedges_kept (options options' : CfgOptions) (h : hir.WellFormed) {root : NodeId}
    (hroot : hir.BeginsAt root) {i : Nat} :
    i ∈ Flow.backedges ((kept options' hir).adjacency isFollowed) root ↔
      ∃ j < (hir.flows.filter hir.isShown).length, placeOf hir.isShown hir.flows j = i ∧
        j ∈ Flow.backedges ((collapsed options hir).adjacency isFollowed) root := by
  rw [(subdivision options options' h).mem_backedges_iff (mem_order_collapsed.2 hroot)]
  constructor
  · rintro ⟨j, hj, hi⟩
    have hlt := Display.Builder.lt_length_of_mem_backedges hj
    rw [collapsed, edges_collapsed h, List.length_map] at hlt
    exact ⟨j, hlt, hi, hj⟩
  · rintro ⟨j, -, hi, hj⟩
    exact ⟨j, hj, hi⟩

theorem placeOf_mem_backedges_iff (h : hir.WellFormed) {root : NodeId} (hroot : hir.BeginsAt root)
    {j : Nat} (hj : j < (hir.flows.filter hir.isShown).length) :
    placeOf hir.isShown hir.flows j ∈
        Flow.backedges ((kept options' hir).adjacency isFollowed) root ↔
      j ∈ Flow.backedges ((collapsed options hir).adjacency isFollowed) root := by
  rw [mem_backedges_kept options options' h hroot]
  constructor
  · rintro ⟨k, hk, he, hmem⟩
    rwa [placeOf_inj hk hj he] at hmem
  · exact fun hmem => ⟨j, hj, rfl, hmem⟩

/-- The collapsed view marks what the uncollapsed view marks. -/
theorem marks_collapsed_eq (h : hir.WellFormed) {root : NodeId} (hroot : hir.BeginsAt root) :
    ((collapsed options hir).walked root isFollowed).marks =
      ((kept options' hir).walked root isFollowed).marks.filter fun m => hir.isShown m.1 := by
  rw [marks_kept h, marks_collapsed h, List.filter_map]
  show _ = (hir.flows.zipIdx.filter fun x => hir.isShown x.1).map _
  rw [zipIdx_filter_fst, List.map_map]
  refine List.map_congr_left fun x hx => ?_
  have hlt := List.snd_lt_of_mem_zipIdx hx
  rw [Nat.add_zero] at hlt
  exact congrArg (Prod.mk x.1) (decide_eq_decide.2 (placeOf_mem_backedges_iff h hroot hlt).symm)

/-- A marked edge leads from the end of a linked block to a block. -/
theorem isShown_of_mem_marks (h : hir.WellFormed) {root : NodeId} (hroot : hir.BeginsAt root)
    {m : Hir.Edge × Bool} (hm : m ∈ ((kept options hir).walked root isFollowed).marks)
    (hmark : m.2 = true) : hir.isShown m.1 = true := by
  rw [marks_kept h] at hm
  obtain ⟨x, hx, rfl⟩ := List.mem_map.1 hm
  obtain ⟨j, hj, hp, -⟩ :=
    (mem_backedges_kept options options h hroot).1 (of_decide_eq_true hmark)
  -- a backedge stands where a shown edge stands, so it is that edge
  have hat : hir.flows[x.2]? = some x.1 := List.mem_zipIdx_iff_getElem?.1 hx
  rw [← hp, getElem?_placeOf hj] at hat
  exact (List.mem_filter.1 (List.mem_of_getElem? hat)).2

/-! ### Levels -/

theorem reaches_kept_iff (options options' : CfgOptions) (h : hir.WellFormed) {root : NodeId}
    (hroot : hir.BeginsAt root) (hb : hir.BeginsAt b) :
    ReflTransGen (((kept options' hir).walked root isFollowed).Leads isFollowed) root b ↔
      ReflTransGen (((collapsed options hir).walked root isFollowed).Leads isFollowed) root b := by
  rw [Display.Builder.leads_walked, Display.Builder.leads_walked]
  exact (subdivision options options' h).reaches_iff (mem_order_collapsed.2 hroot)
    (mem_order_collapsed.2 hb)

/-- The level of a block that the root reaches is the distance, and it doubles. -/
theorem level?_doubles (options options' : CfgOptions) (h : hir.WellFormed) {root : NodeId}
    (hroot : hir.BeginsAt root) (hb : hir.BeginsAt b)
    (hreach : ReflTransGen (((collapsed options hir).walked root isFollowed).Leads isFollowed)
      root b) :
    ∃ d : Int, ((collapsed options hir).walked root isFollowed).level? b = some d ∧
      ((kept options' hir).walked root isFollowed).level? b = some (2 * d) := by
  have hsub := subdivision options options' h
  have hknown : b ∈ ((collapsed options hir).adjacency isFollowed).order :=
    mem_order_collapsed.2 hb
  have hroot : root ∈ ((collapsed options hir).adjacency isFollowed).order :=
    mem_order_collapsed.2 hroot
  have hknown' := hsub.known b hknown b Flow.inBlock_self
  have hroot' := hsub.known root hroot root Flow.inBlock_self
  rw [Display.Builder.leads_walked] at hreach
  obtain ⟨p, hp⟩ := Flow.Trail.exists_of_reaches hreach
  obtain ⟨d, hd⟩ := Flow.exists_distance hroot hp
  refine ⟨d, ?_, ?_⟩
  · rw [Display.Builder.level?_walked (mem_ids_collapsed.2 hb)]
    exact Flow.getElem?_level hroot hd
  · rw [Display.Builder.level?_walked (Display.Builder.mem_order_adjacency.1 hknown')]
    exact Flow.getElem?_level hroot' (hsub.distance hroot hknown hd)

/-! ### Both views -/

theorem cfg_kept (h : hir.WellFormed) {r : Hir.Node} (hr : r ∈ hir.controls)
    (hroot : r.root = true) (labels : Bool) :
    cfg { collapseBlocks := false, branchLabels := labels } hir =
      (kept { collapseBlocks := false, branchLabels := labels } hir).walked r.id isFollowed :=
  Display.build_eq_walked rfl rfl (findRoot_kept h hr hroot)

theorem cfg_collapsed (h : hir.WellFormed) {r : Hir.Node} (hr : r ∈ hir.controls)
    (hroot : r.root = true) (labels : Bool) :
    cfg { branchLabels := labels } hir =
      (collapsed { branchLabels := labels } hir).walked r.id isFollowed :=
  Display.build_eq_walked rfl rfl (findRoot_collapsed h hr hroot)

/-- **Collapsing blocks changes neither the loops nor the depths that are shown.** The collapsed
view lists the edges that the uncollapsed view lists, as far as they lead from the end of a linked
block to a block, and marks the same of them; the others are unmarked in both views. Both views
reach the same blocks, and the level of a reached block doubles. -/
theorem collapsing_keeps_loops_and_depths (hir : Hir.Graph) (labels : Bool) (h : hir.WellFormed) :
    let u := cfg { collapseBlocks := false, branchLabels := labels } hir
    let c := cfg { branchLabels := labels } hir
    u.marks.map Prod.fst = hir.flows ∧
    c.marks = u.marks.filter (fun m => hir.isShown m.1) ∧
    (∀ m ∈ u.marks, m.2 = true → hir.isShown m.1 = true) ∧
    (∀ e ∈ hir.edges, e.kind = .flow → ((e, true) ∈ c.marks ↔ (e, true) ∈ u.marks)) ∧
    (∀ e, e.kind = .block → (e, true) ∉ c.marks ∧ (e, true) ∉ u.marks) ∧
    ∀ r ∈ hir.controls, r.root = true → ∀ n ∈ hir.nodes, n.kind = .begin →
      (ReflTransGen (c.Leads isFollowed) r.id n.id ↔
        ReflTransGen (u.Leads isFollowed) r.id n.id) ∧
      (ReflTransGen (c.Leads isFollowed) r.id n.id →
        ∃ d : Int, c.level? n.id = some d ∧ u.level? n.id = some (2 * d)) := by
  intro u c
  obtain ⟨r, hr, hk⟩ := h.root
  obtain ⟨hcontrol, hflag⟩ := List.mem_filter.1 (hr ▸ List.mem_singleton_self r)
  have hbegins : hir.BeginsAt r.id := ⟨r, (Hir.Graph.mem_controls.1 hcontrol).1, rfl, hk⟩
  have hu : u = (kept _ hir).walked r.id isFollowed := cfg_kept h hcontrol hflag labels
  have hc : c = (collapsed _ hir).walked r.id isFollowed := cfg_collapsed h hcontrol hflag labels
  have hmarks : c.marks = u.marks.filter fun m => hir.isShown m.1 := by
    rw [hu, hc]
    exact marks_collapsed_eq h hbegins
  have hshown : ∀ m ∈ u.marks, m.2 = true → hir.isShown m.1 = true := by
    rw [hu]
    exact fun m hm => isShown_of_mem_marks h hbegins hm
  have hiff : ∀ e, (e, true) ∈ c.marks ↔ (e, true) ∈ u.marks := by
    intro e
    rw [hmarks, List.mem_filter]
    exact ⟨And.left, fun hm => ⟨hm, hshown _ hm rfl⟩⟩
  refine ⟨?_, hmarks, hshown, fun e _ _ => hiff e, fun e hblock => ?_,
    fun r' hr' hflag' n hn hbn => ?_⟩
  · -- the uncollapsed view shows all edges of the control flow, in their order
    rw [hu, marks_kept h, List.map_map]
    exact List.zipIdx_map_fst 0 hir.flows
  · rw [hiff, and_self]
    intro hm
    have hflow := (Hir.Graph.isShown_iff.1 (hshown _ hm rfl)).1
    rw [hblock] at hflow
    cases hflow
  · have hsame : r' ∈ [r] := hr ▸ List.mem_filter.2 ⟨hr', hflag'⟩
    have hb : hir.BeginsAt n.id := ⟨n, hn, rfl, hbn⟩
    rw [List.mem_singleton.1 hsame, hu, hc]
    exact ⟨(reaches_kept_iff _ _ h hbegins hb).symm, level?_doubles _ _ h hbegins hb⟩

/-- A block that jumps back to its begin, and a begin that no edge touches. -/
def loopAndStray : Hir.Graph where
  nodes := [{ id := 1, name := "BeginInst", root := true }, { id := 2, name := "GOTOInst" },
    { id := 3, name := "BeginInst" }]
  edges := [{ source := 1, target := 2, typeName := "bb" },
    { source := 2, target := 1, typeName := "cfg" }]

theorem wellFormed_loopAndStray : loopAndStray.WellFormed where
  nodup_ids := by decide
  block := by decide
  flow := by decide
  nodup_sources := by decide
  nodup_targets := by decide
  root := ⟨_, rfl, rfl⟩

theorem collapsing_keeps_loopAndStray : loopAndStray.WellFormed ∧
    (({ source := 2, target := 1, typeName := "cfg" } : Hir.Edge), true) ∈
      (cfg { collapseBlocks := false } loopAndStray).marks ∧
    ∃ d : Int, (cfg {} loopAndStray).level? 1 = some d ∧
      (cfg { collapseBlocks := false } loopAndStray).level? 1 = some (2 * d) := by
  have h := wellFormed_loopAndStray
  obtain ⟨-, -, -, hmarks, -, hlevels⟩ := collapsing_keeps_loops_and_depths loopAndStray true h
  refine ⟨h, ?_, (hlevels _ List.mem_cons_self rfl _ List.mem_cons_self rfl).2 .refl⟩
  refine (hmarks _ (.tail _ (.head _)) rfl).1 ?_
  have hc : cfg {} loopAndStray = (collapsed {} loopAndStray).walked 1 isFollowed :=
    cfg_collapsed h List.mem_cons_self rfl true
  have hroot : 1 ∈ ((collapsed {} loopAndStray).adjacency isFollowed).order :=
    Display.Builder.mem_order_adjacency.2 (mem_ids_collapsed.2 (by decide))
  -- the loop leads from the block to itself, so it was found when the block was left
  obtain ⟨p, -, -, hfound⟩ := Flow.exists_trail_of_reaches hroot .refl
  have harc : (⟨0, 1⟩ : Flow.Arc) ∈ ((collapsed {} loopAndStray).adjacency isFollowed).arcs 1 := by
    rw [arcs_collapsed h]
    exact .head _
  show _ ∈ (cfg {} loopAndStray).marks
  rw [hc, marks_collapsed h, List.mem_map]
  exact ⟨(_, 0), .head _, by rw [decide_eq_true (hfound ⟨0, 1⟩ harc List.mem_cons_self)]⟩

/-! ### Blocks that the root does not reach -/

theorem level?_collapsed_stray : (cfg {} loopAndStray).level? 3 = some 0 := by
  have hc : cfg {} loopAndStray = (collapsed {} loopAndStray).walked 1 isFollowed :=
    cfg_collapsed wellFormed_loopAndStray List.mem_cons_self rfl true
  have hids : (collapsed {} loopAndStray).nodes.map Display.Node.id = [1, 3] := by
    rw [collapsed, Display.Builder.nodes_dropDangling, Display.Builder.ids_collapse]
    rfl
  have horder : ((collapsed {} loopAndStray).adjacency isFollowed).order = [1, 3] := by
    rw [Display.Builder.order_adjacency, hids]
    decide
  have hroot : 1 ∈ ((collapsed {} loopAndStray).adjacency isFollowed).order := by
    simp [horder]
  rw [hc, Display.Builder.level?_walked (by simp [hids])]
  refine (Flow.getElem?_level_of_untouched (fun _ => 0) hroot (by simp [horder]) (by decide)
    ?_ (fun u arc harc => ?_) fun id hid hne => ?_).trans ?_
  · rw [arcs_collapsed wellFormed_loopAndStray]
    rfl
  · rw [arcs_collapsed wellFormed_loopAndStray] at harc
    obtain ⟨x, hx, rfl⟩ := List.mem_map.1 harc
    have hall : ∀ e ∈ loopAndStray.flows.filter loopAndStray.isShown, e.target ≠ 3 := by decide
    exact hall x.1 (List.fst_mem_of_mem_zipIdx (List.mem_filter.1 hx).1)
  · rw [horder] at hid
    obtain rfl | rfl := List.mem_pair.1 hid
    · exact ⟨⟨[], .start, rfl⟩, fun _ _ => Nat.zero_le _⟩
    · exact absurd rfl hne
  · rw [horder]
    decide

theorem level?_kept_stray : (cfg { collapseBlocks := false } loopAndStray).level? 3 = some 1 := by
  have hu : cfg { collapseBlocks := false } loopAndStray =
      (kept { collapseBlocks := false } loopAndStray).walked 1 isFollowed :=
    cfg_kept wellFormed_loopAndStray List.mem_cons_self rfl true
  have hids : (kept { collapseBlocks := false } loopAndStray).nodes.map Display.Node.id =
      [1, 2, 3] := ids_kept
  have horder : ((kept { collapseBlocks := false } loopAndStray).adjacency isFollowed).order =
      [1, 2, 3] := by
    rw [Display.Builder.order_adjacency, hids]
    decide
  have hroot : 1 ∈
      ((kept { collapseBlocks := false } loopAndStray).adjacency isFollowed).order := by
    simp [horder]
  rw [hu, Display.Builder.level?_walked (by simp [hids])]
  refine (Flow.getElem?_level_of_untouched (fun id => if id = 2 then 1 else 0) hroot
    (by simp [horder]) (by decide) ?_ (fun u arc harc => ?_) fun id hid hne => ?_).trans ?_
  · rw [arcs_kept wellFormed_loopAndStray]
    rfl
  · rw [arcs_kept wellFormed_loopAndStray] at harc
    obtain ⟨x, hx, rfl⟩ := List.mem_map.1 harc
    have hall : ∀ e ∈ loopAndStray.flows, e.target ≠ 3 := by decide
    exact hall x.1 (List.fst_mem_of_mem_zipIdx (List.mem_filter.1 hx).1)
  · rw [horder] at hid
    obtain rfl | rfl | rfl : id = 1 ∨ id = 2 ∨ id = 3 := by simpa using hid
    · exact ⟨⟨[], .start, rfl⟩, fun _ _ => Nat.zero_le _⟩
    · refine ⟨⟨[1], .extend .start ⟨hroot, by simp [horder], ⟨0, 2⟩, ?_, rfl⟩, rfl⟩, fun p hp => ?_⟩
      · rw [arcs_kept wellFormed_loopAndStray]
        exact .head _
      · cases hp with
        | extend _ _ => exact Nat.le_add_left 1 _
    · exact absurd rfl hne
  · rw [horder]
    decide

/-- A block that the root does not reach stands below the reached part, whose depth in nodes is not
twice its depth in blocks. -/
theorem not_level_doubled_of_stray : loopAndStray.WellFormed ∧
    ¬ ∀ n ∈ loopAndStray.nodes, n.kind = .begin → ∀ d : Int,
      (cfg {} loopAndStray).level? n.id = some d →
        (cfg { collapseBlocks := false } loopAndStray).level? n.id = some (2 * d) := by
  refine ⟨wellFormed_loopAndStray, fun hall => ?_⟩
  have hdouble := hall { id := 3, name := "BeginInst" } (by simp [loopAndStray]) rfl 0
    level?_collapsed_stray
  rw [level?_kept_stray] at hdouble
  cases hdouble

end View

end IrView
