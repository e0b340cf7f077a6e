import IrView.Proofs.Display.Marking
import IrView.Proofs.Flow.Subdivision
import IrView.Proofs.View.Blocks

/-!
# The graphs behind both control flow views

The view with its blocks kept and the view with its blocks collapsed see different graphs: the
shown edges leave the begins of blocks instead of their ends, and they are numbered anew, since the
edges that are not shown are gone (`View.placeOf` tells the old number). With that, the graph of the
kept blocks is a subdivision of the graph of the collapsed ones (`View.subdivision`).
-/

namespace IrView

namespace View

/-! ### Where the shown edges stand -/

section

variable {α : Type} {p : α → Bool} {l : List α}

/-- Where the element at a place of the filtered list stands in the list. -/
def placeOf (p : α → Bool) (l : List α) (j : Nat) : Nat :=
  (((l.zipIdx.filter fun x => p x.1)[j]?).map Prod.snd).getD 0

theorem zipIdx_filter_fst :
    (l.zipIdx.filter fun x => p x.1) = (l.filter p).zipIdx.map fun x => (x.1, placeOf p l x.2) := by
  have hfst : (l.zipIdx.filter fun x => p x.1).map Prod.fst = l.filter p := by
    refine List.filter_map.symm.trans ?_
    rw [List.zipIdx_map_fst]
  refine List.ext_getElem? fun j => ?_
  rw [List.getElem?_map, List.getElem?_zipIdx, ← hfst, List.getElem?_map]
  cases hx : (l.zipIdx.filter fun x => p x.1)[j]? with
  | none => rfl
  | some x => simp [placeOf, hx]

theorem getElem?_placeOf {j : Nat} (hj : j < (l.filter p).length) :
    l[placeOf p l j]? = (l.filter p)[j]? := by
  have hmem : ((l.filter p)[j], placeOf p l j) ∈ l.zipIdx.filter fun x => p x.1 := by
    rw [zipIdx_filter_fst, List.mem_map]
    refine ⟨((l.filter p)[j], j), ?_, rfl⟩
    exact List.mk_mem_zipIdx_iff_getElem?.2 (List.getElem?_eq_getElem hj)
  rw [List.getElem?_eq_getElem hj]
  exact List.mk_mem_zipIdx_iff_getElem?.1 (List.mem_filter.1 hmem).1

theorem placeOf_inj {i j : Nat} (hi : i < (l.filter p).length) (hj : j < (l.filter p).length)
    (h : placeOf p l i = placeOf p l j) : i = j := by
  -- in order the places are a part of `0, 1, 2, …`
  have hnodup : ((List.range (l.filter p).length).map (placeOf p l)).Nodup := by
    have hplaces : (List.range (l.filter p).length).map (placeOf p l) =
        (l.zipIdx.filter fun x => p x.1).map Prod.snd := by
      rw [zipIdx_filter_fst, List.map_map, List.range_eq_range', ← List.zipIdx_map_snd 0,
        List.map_map]
      rfl
    rw [hplaces]
    refine List.Nodup.sublist (List.filter_sublist.map _) ?_
    rw [List.zipIdx_map_snd]
    exact List.nodup_range'
  exact List.inj_on_of_nodup_map hnodup (List.mem_range.2 hi) (List.mem_range.2 hj) h

end

/-! ### The graphs that the walks see -/

variable {hir : Hir.Graph} {options options' : CfgOptions} {b t id : NodeId}

/-- The view with its blocks kept, before the walks. -/
def kept (options : CfgOptions) (hir : Hir.Graph) : Display.Builder Hir.Node Hir.Edge :=
  (records options hir).dropDangling

/-- The view with its blocks collapsed, before the walks. -/
def collapsed (options : CfgOptions) (hir : Hir.Graph) : Display.Builder Hir.Node Hir.Edge :=
  ((records options hir).collapse summarizeBlock).dropDangling

theorem ids_kept : (kept options hir).nodes.map Display.Node.id = hir.controls.map Hir.Node.id := by
  rw [kept, Display.Builder.nodes_dropDangling, ids_records]

theorem mem_ids_collapsed :
    id ∈ (collapsed options hir).nodes.map Display.Node.id ↔ hir.BeginsAt id := by
  rw [collapsed, Display.Builder.nodes_dropDangling, Display.Builder.ids_collapse, mem_ids_entries]

theorem mem_order_kept : id ∈ ((kept options hir).adjacency isFollowed).order ↔
    ∃ n ∈ hir.controls, n.id = id := by
  rw [Display.Builder.mem_order_adjacency, ids_kept, List.mem_map]

theorem mem_order_collapsed :
    id ∈ ((collapsed options hir).adjacency isFollowed).order ↔ hir.BeginsAt id :=
  Display.Builder.mem_order_adjacency.trans mem_ids_collapsed

theorem isFollowed_of_mem_flows {e : Hir.Edge} (he : e ∈ hir.flows) : isFollowed e = true := by
  obtain ⟨-, hk | hk⟩ := Hir.Graph.mem_flows.1 he
  · rw [isFollowed, hk]
    rfl
  · rw [isFollowed, hk]
    rfl

theorem arcs_kept (h : hir.WellFormed) : ((kept options hir).adjacency isFollowed).arcs b =
    (hir.flows.zipIdx.filter fun x => x.1.source == b).map fun x => ⟨x.2, x.1.target⟩ := by
  rw [Display.Builder.arcs_adjacency, kept, edges_kept h, List.zipIdx_map, List.filter_map,
    List.map_map]
  refine congrArg (List.map _) (List.filter_congr fun x hx => ?_)
  have hf : isFollowed x.1 = true := isFollowed_of_mem_flows (List.fst_mem_of_mem_zipIdx hx)
  show (isFollowed x.1 && x.1.source == b) = (x.1.source == b)
  rw [hf, Bool.true_and]

theorem arcs_collapsed (h : hir.WellFormed) :
    ((collapsed options hir).adjacency isFollowed).arcs b =
      ((hir.flows.filter hir.isShown).zipIdx.filter fun x => hir.last? b == some x.1.source).map
        fun x => ⟨x.2, x.1.target⟩ := by
  rw [Display.Builder.arcs_adjacency, collapsed, edges_collapsed h, List.zipIdx_map,
    List.filter_map, List.map_map]
  refine congrArg (List.map _) (List.filter_congr fun x hx => ?_)
  obtain ⟨hmem, hshown⟩ := List.mem_filter.1 (List.fst_mem_of_mem_zipIdx hx)
  have hf := isFollowed_of_mem_flows hmem
  obtain ⟨-, c, hc⟩ := Hir.Graph.isShown_iff.1 hshown
  -- the edge leaves the block `c` now, which is `b` iff the block of `b` ends where it left before
  show (isFollowed x.1 &&
    ((records options hir).redirect ((cfgStrategy options).edge x.1)).source == b) = _
  rw [hf, Bool.true_and, source_redirect h hc, Bool.eq_iff_iff, beq_iff_eq, beq_iff_eq,
    h.last?_eq_some_iff]
  exact ⟨fun he => he ▸ hc, fun hl => h.links_left_unique hc hl⟩

/-- What leaves the end of a block is shown, and its source is the end of that block. -/
theorem source_eq_exit_iff (h : hir.WellFormed) (hb : hir.BeginsAt b) {e : Hir.Edge}
    (he : e ∈ hir.flows) : e.source = Flow.exit hir.last? b ↔
      hir.last? b = some e.source ∧ hir.isShown e = true := by
  obtain ⟨hmem, hk⟩ := Hir.Graph.mem_flows.1 he
  cases hl : hir.last? b with
  | none =>
    rw [Flow.exit_of_none hl]
    refine ⟨?_, fun ⟨hno, _⟩ => by cases hno⟩
    rintro rfl
    -- a block without an end is left by no edge, so neither side holds
    rcases hk with hk | hk
    · have hlink : hir.Links e.source e.target := ⟨e, hmem, hk, rfl, rfl⟩
      rw [← h.last?_eq_some_iff, hl] at hlink
      cases hlink
    · exact absurd (h.flow e hmem hk).1 (h.not_endsAt hb)
  | some t =>
    have hlink := h.last?_eq_some_iff.1 hl
    rw [Flow.exit_of_some hl, Option.some.injEq, Hir.Graph.isShown_iff]
    constructor
    · rintro rfl
      rcases hk with hk | hk
      · exact absurd (h.endsAt_of_links hlink) (h.not_endsAt (h.block e hmem hk).1)
      · exact ⟨rfl, hk, b, hlink⟩
    · exact fun ⟨ht, _⟩ => ht.symm

/-- From the begin of a linked block only its end follows. -/
theorem arcs_kept_of_linked (h : hir.WellFormed) (hl : hir.last? b = some t) :
    ∃ i, ((kept options hir).adjacency isFollowed).arcs b = [⟨i, t⟩] := by
  obtain ⟨e, he, rfl⟩ := h.filter_source_eq_singleton (h.last?_eq_some_iff.1 hl)
  have hfst : (hir.flows.zipIdx.filter fun x => x.1.source == b).map Prod.fst = [e] := by
    rw [← he, ← List.zipIdx_map_fst 0 hir.flows, List.filter_map, List.zipIdx_map_fst]
    rfl
  obtain ⟨x, hx, rfl⟩ := List.map_eq_singleton_iff.1 hfst
  refine ⟨x.2, ?_⟩
  rw [arcs_kept h, hx, List.map_singleton]

/-- What leaves the end of a block in one view leaves the block in the other. -/
theorem arcs_kept_exit (h : hir.WellFormed) (hb : hir.BeginsAt b) :
    ((kept options' hir).adjacency isFollowed).arcs (Flow.exit hir.last? b) =
      (((collapsed options hir).adjacency isFollowed).arcs b).map
        (Flow.Arc.renumber (placeOf hir.isShown hir.flows)) := by
  rw [arcs_kept h, arcs_collapsed h, List.map_map]
  calc (hir.flows.zipIdx.filter fun x => x.1.source == Flow.exit hir.last? b).map
        (fun x => (⟨x.2, x.1.target⟩ : Flow.Arc))
      = (hir.flows.zipIdx.filter fun x =>
          hir.last? b == some x.1.source && hir.isShown x.1).map
            fun x => ⟨x.2, x.1.target⟩ := by
        refine congrArg (List.map _) (List.filter_congr fun x hx => ?_)
        rw [Bool.eq_iff_iff, Bool.and_eq_true, beq_iff_eq, beq_iff_eq]
        exact source_eq_exit_iff h hb (List.fst_mem_of_mem_zipIdx hx)
    _ = (((hir.flows.filter hir.isShown).zipIdx.map fun x =>
          (x.1, placeOf hir.isShown hir.flows x.2)).filter fun x =>
            hir.last? b == some x.1.source).map fun x => ⟨x.2, x.1.target⟩ := by
        rw [← zipIdx_filter_fst, List.filter_filter]
    _ = _ := by
        rw [List.filter_map, List.map_map]
        rfl

/-- **A view with its blocks kept is a subdivision of the view with its blocks collapsed.** -/
theorem subdivision (options options' : CfgOptions) (h : hir.WellFormed) :
    Flow.Subdivision hir.last? (placeOf hir.isShown hir.flows)
      ((collapsed options hir).adjacency isFollowed)
      ((kept options' hir).adjacency isFollowed) where
  known b hb x hx := by
    rw [mem_order_kept]
    rcases hx with rfl | hl
    · obtain ⟨n, hn, hid, -⟩ := (mem_order_collapsed.1 hb).mem_controls
      exact ⟨n, hn, hid⟩
    · obtain ⟨n, hn, hid, -⟩ := (h.endsAt_of_last? hl).mem_controls
      exact ⟨n, hn, hid⟩
  disjoint b hb c hc x hxb hxc := by
    rcases hxb with rfl | hlb
    · rcases hxc with rfl | hlc
      · rfl
      · exact absurd (h.endsAt_of_last? hlc) (h.not_endsAt (mem_order_collapsed.1 hb))
    · rcases hxc with rfl | hlc
      · exact absurd (h.endsAt_of_last? hlb) (h.not_endsAt (mem_order_collapsed.1 hc))
      · exact h.links_left_unique (h.last?_eq_some_iff.1 hlb) (h.last?_eq_some_iff.1 hlc)
  proper b hb hl := h.not_endsAt (mem_order_collapsed.1 hb) (h.endsAt_of_last? hl)
  closed b hb arc harc := by
    rw [arcs_collapsed h] at harc
    obtain ⟨x, hx, rfl⟩ := List.mem_map.1 harc
    have hmem := List.fst_mem_of_mem_zipIdx (List.mem_filter.1 hx).1
    obtain ⟨hflow, hshown⟩ := List.mem_filter.1 hmem
    have hk := (Hir.Graph.isShown_iff.1 hshown).1
    exact mem_order_collapsed.2 (h.flow x.1 (Hir.Graph.mem_flows.1 hflow).1 hk).2
  unlinked b _ hl := by
    rw [arcs_collapsed h, hl]
    simp
  linked b _ t hl := arcs_kept_of_linked h hl
  arcs_exit b hb := arcs_kept_exit h (mem_order_collapsed.1 hb)

end View

end IrView
