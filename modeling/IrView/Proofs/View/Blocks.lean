import Mathlib.Data.List.Nodup
import IrView.Proofs.Display.Collapse
import IrView.View.Cfg

/-!
# Well-formed control flow

In a well-formed graph each block link leads from the begin of a block to its end, and a begin and
its end have no other link (`Hir.Graph.WellFormed`). Then an entry owns just the edges that leave
the end of its block (`View.owner?_eq_some_iff`), and the collapsed view shows each edge between
blocks whose source is the end of a block (`View.edges_collapsed`).
-/

namespace IrView

namespace Hir

theorem NodeKind.isControl_of_mem_ends {kind : NodeKind}
    (h : kind ∈ [NodeKind.goto, .branch, .ret]) : kind.isControl = true ∧ kind ≠ .begin := by
  revert h
  cases kind <;> decide

namespace Graph

/-- The instructions that begin or end a block. -/
def controls (g : Graph) : List Node :=
  g.nodes.filter fun n => n.kind.isControl

/-- The edges of the control flow graph. -/
def flows (g : Graph) : List Edge :=
  g.edges.filter fun e => e.kind.isControlFlow

/-- A block begins at the id. -/
def BeginsAt (g : Graph) (id : NodeId) : Prop :=
  ∃ n ∈ g.nodes, n.id = id ∧ n.kind = .begin

/-- A block ends at the id. -/
def EndsAt (g : Graph) (id : NodeId) : Prop :=
  ∃ n ∈ g.nodes, n.id = id ∧ n.kind ∈ [NodeKind.goto, .branch, .ret]

instance (g : Graph) (id : NodeId) : Decidable (g.BeginsAt id) :=
  inferInstanceAs (Decidable (∃ n ∈ g.nodes, n.id = id ∧ n.kind = .begin))

instance (g : Graph) (id : NodeId) : Decidable (g.EndsAt id) :=
  inferInstanceAs (Decidable (∃ n ∈ g.nodes, n.id = id ∧ n.kind ∈ [NodeKind.goto, .branch, .ret]))

/-- A block link leads from one id to the other. -/
def Links (g : Graph) (b t : NodeId) : Prop :=
  ∃ e ∈ g.edges, e.kind = .block ∧ e.source = b ∧ e.target = t

/-- The end of the block that begins at the id, by the first link. -/
def last? (g : Graph) (b : NodeId) : Option NodeId :=
  (g.edges.find? fun e => e.kind == .block && e.source == b).map Edge.target

/-- Whether the edge leads from the end of a linked block to a block. -/
def isShown (g : Graph) (e : Edge) : Bool :=
  e.kind == .flow && g.edges.any fun l => l.kind == .block && l.target == e.source

/-- The control flow of the graph is one of blocks. -/
structure WellFormed (g : Graph) : Prop where
  nodup_ids : (g.controls.map Node.id).Nodup
  block : ∀ e ∈ g.edges, e.kind = .block → g.BeginsAt e.source ∧ g.EndsAt e.target
  flow : ∀ e ∈ g.edges, e.kind = .flow → g.EndsAt e.source ∧ g.BeginsAt e.target
  nodup_sources : ((g.edges.filter fun e => e.kind == .block).map Edge.source).Nodup
  nodup_targets : ((g.edges.filter fun e => e.kind == .block).map Edge.target).Nodup
  root : ∃ n, g.controls.filter Node.root = [n] ∧ n.kind = .begin

variable {g : Graph} {b c t id : NodeId}

theorem mem_controls {n : Node} : n ∈ g.controls ↔ n ∈ g.nodes ∧ n.kind.isControl = true :=
  List.mem_filter

theorem mem_flows {e : Edge} : e ∈ g.flows ↔ e ∈ g.edges ∧ (e.kind = .block ∨ e.kind = .flow) := by
  rw [flows, List.mem_filter]
  cases e.kind <;> simp [EdgeKind.isControlFlow]

theorem isShown_iff {e : Edge} : g.isShown e = true ↔ e.kind = .flow ∧ ∃ b, g.Links b e.source := by
  simp only [isShown, Links, Bool.and_eq_true, beq_iff_eq, List.any_eq_true]
  refine and_congr_right fun _ => ⟨?_, ?_⟩
  · rintro ⟨l, hl, hk, ht⟩
    exact ⟨l.source, l, hl, hk, rfl, ht⟩
  · rintro ⟨b, l, hl, hk, -, ht⟩
    exact ⟨l, hl, hk, ht⟩

theorem BeginsAt.mem_controls (h : g.BeginsAt id) :
    ∃ n ∈ g.controls, n.id = id ∧ n.kind = .begin := by
  obtain ⟨n, hn, hid, hk⟩ := h
  exact ⟨n, Graph.mem_controls.2 ⟨hn, by rw [hk]; rfl⟩, hid, hk⟩

theorem EndsAt.mem_controls (h : g.EndsAt id) :
    ∃ n ∈ g.controls, n.id = id ∧ n.kind ≠ .begin := by
  obtain ⟨n, hn, hid, hk⟩ := h
  obtain ⟨hcontrol, hne⟩ := NodeKind.isControl_of_mem_ends hk
  exact ⟨n, Graph.mem_controls.2 ⟨hn, hcontrol⟩, hid, hne⟩

namespace WellFormed

/-- No block begins where a block ends. -/
theorem not_endsAt (h : g.WellFormed) (hb : g.BeginsAt id) : ¬ g.EndsAt id := by
  intro he
  obtain ⟨n, hn, hnid, hnk⟩ := hb.mem_controls
  obtain ⟨m, hm, hmid, hmk⟩ := he.mem_controls
  have heq := List.inj_on_of_nodup_map h.nodup_ids hn hm (hnid.trans hmid.symm)
  exact hmk (heq ▸ hnk)

theorem beginsAt_of_links (h : g.WellFormed) (hl : g.Links b t) : g.BeginsAt b := by
  obtain ⟨e, he, hk, rfl, rfl⟩ := hl
  exact (h.block e he hk).1

theorem endsAt_of_links (h : g.WellFormed) (hl : g.Links b t) : g.EndsAt t := by
  obtain ⟨e, he, hk, rfl, rfl⟩ := hl
  exact (h.block e he hk).2

theorem last?_eq_some_iff (h : g.WellFormed) : g.last? b = some t ↔ g.Links b t := by
  rw [last?, Option.map_eq_some_iff]
  constructor
  · rintro ⟨e, he, rfl⟩
    have hk := List.find?_some he
    simp only [Bool.and_eq_true, beq_iff_eq] at hk
    exact ⟨e, List.mem_of_find?_eq_some he, hk.1, hk.2, rfl⟩
  · rintro ⟨e, he, hk, hs, rfl⟩
    obtain ⟨e', hmem', he', hk'⟩ := Lookup.exists_find?
      (p := fun e : Edge => e.kind == .block && e.source == b) he (by simp [hk, hs])
    simp only [Bool.and_eq_true, beq_iff_eq] at hk'
    have heq : e' = e := List.inj_on_of_nodup_map h.nodup_sources
      (List.mem_filter.2 ⟨hmem', by simpa using hk'.1⟩) (List.mem_filter.2 ⟨he, by simpa using hk⟩)
      (hk'.2.trans hs.symm)
    exact ⟨e', he', by rw [heq]⟩

theorem endsAt_of_last? (h : g.WellFormed) (hl : g.last? b = some t) : g.EndsAt t :=
  h.endsAt_of_links (h.last?_eq_some_iff.1 hl)

theorem links_right_unique (h : g.WellFormed) {t' : NodeId} (hl : g.Links b t)
    (hl' : g.Links b t') : t = t' := by
  rw [← h.last?_eq_some_iff] at hl hl'
  exact Option.some.inj (hl.symm.trans hl')

theorem links_left_unique (h : g.WellFormed) (hl : g.Links b t) (hl' : g.Links c t) : b = c := by
  obtain ⟨e, he, hk, rfl, ht⟩ := hl
  obtain ⟨e', he', hk', rfl, ht'⟩ := hl'
  have heq := List.inj_on_of_nodup_map h.nodup_targets
    (List.mem_filter.2 ⟨he, by simpa using hk⟩) (List.mem_filter.2 ⟨he', by simpa using hk'⟩)
    (ht.trans ht'.symm)
  rw [heq]

/-- There is one root, and a block begins there. -/
theorem filter_root (h : g.WellFormed) {r : Node} (hr : r ∈ g.controls) (hroot : r.root = true) :
    g.controls.filter Node.root = [r] ∧ r.kind = .begin := by
  obtain ⟨n, hn, hk⟩ := h.root
  have hmem : r ∈ [n] := hn ▸ List.mem_filter.2 ⟨hr, hroot⟩
  rw [List.mem_singleton.1 hmem]
  exact ⟨hn, hk⟩

/-- No other edge leaves the begin of a block than its link. -/
theorem filter_source_eq_singleton (h : g.WellFormed) (hl : g.Links b t) :
    ∃ e, (g.flows.filter fun e => e.source == b) = [e] ∧ e.target = t := by
  have hsame : (g.flows.filter fun e => e.source == b) =
      (g.edges.filter fun e => e.kind == .block).filter fun e => e.source == b := by
    rw [flows, List.filter_filter, List.filter_filter]
    refine List.filter_congr fun e he => ?_
    -- a flow edge leaves the end of a block, so it does not leave `b`
    by_cases hs : e.source = b
    · have hk : e.kind ≠ .flow := fun hk =>
        h.not_endsAt (h.beginsAt_of_links hl) (hs ▸ (h.flow e he hk).1)
      revert hk
      cases e.kind <;> simp [EdgeKind.isControlFlow]
    · have hs' : (e.source == b) = false := by simpa using hs
      rw [hs', Bool.false_and, Bool.false_and]
  obtain ⟨l, hmem, hk, hs, ht⟩ := hl
  have hcount : ((g.edges.filter fun e => e.kind == .block).map Edge.source).count b = 1 :=
    List.count_eq_one_of_mem h.nodup_sources
      (List.mem_map.2 ⟨l, List.mem_filter.2 ⟨hmem, by simpa using hk⟩, hs⟩)
  rw [List.count_eq_countP, List.countP_map, List.countP_eq_length_filter] at hcount
  obtain ⟨e, he⟩ := List.length_eq_one_iff.1 hcount
  have hl' : l ∈ [e] := by
    rw [← he]
    simp [hmem, hk, hs]
  rw [List.mem_singleton] at hl'
  exact ⟨e, hsame.trans he, hl' ▸ ht⟩

end WellFormed

end Graph

end Hir

namespace View

variable {hir : Hir.Graph} {options : CfgOptions} {b t id : NodeId}

/-- The builder that holds the control flow of the graph. -/
def records (options : CfgOptions) (hir : Hir.Graph) : Display.Builder Hir.Node Hir.Edge :=
  .ofRecords hir.controls hir.flows (cfgStrategy options)

theorem indexed_records : (records options hir).Indexed :=
  Display.Builder.indexed_ofRecords _ _ _

theorem ids_records :
    (records options hir).nodes.map Display.Node.id = hir.controls.map Hir.Node.id :=
  List.map_map

theorem edges_records : (records options hir).edges = hir.flows.map (cfgStrategy options).edge :=
  rfl

theorem mem_entries_records {n : Display.Node Hir.Node} : n ∈ (records options hir).entries ↔
    ∃ m ∈ hir.controls, m.kind = .begin ∧ (cfgStrategy options).node m = n := by
  show n ∈ (hir.controls.map (cfgStrategy options).node).filter _ ↔ _
  rw [List.mem_filter, List.mem_map]
  constructor
  · rintro ⟨⟨m, hm, rfl⟩, hk⟩
    exact ⟨m, hm, beq_iff_eq.1 hk, rfl⟩
  · rintro ⟨m, hm, hk, rfl⟩
    exact ⟨⟨m, hm, rfl⟩, beq_iff_eq.2 hk⟩

theorem mem_ids_entries :
    id ∈ (records options hir).entries.map Display.Node.id ↔ hir.BeginsAt id := by
  rw [List.mem_map]
  constructor
  · rintro ⟨n, hn, rfl⟩
    obtain ⟨m, hm, hk, rfl⟩ := mem_entries_records.1 hn
    exact ⟨m, (Hir.Graph.mem_controls.1 hm).1, rfl, hk⟩
  · intro hb
    obtain ⟨m, hm, rfl, hk⟩ := hb.mem_controls
    exact ⟨_, mem_entries_records.2 ⟨m, hm, hk, rfl⟩, rfl⟩

/-! ### Owners -/

theorem endsAt_iff (h : hir.WellFormed) {n : Hir.Node} :
    (records options hir).endsAt t ((cfgStrategy options).node n) = true ↔ hir.Links n.id t := by
  rw [Display.Builder.endsAt, Display.Builder.blockEnd?_eq indexed_records, Option.any_eq_true]
  constructor
  · rintro ⟨last, hlast, ht⟩
    obtain ⟨link, hlink, hfind⟩ := Option.bind_eq_some_iff.1 hlast
    obtain ⟨e, he, rfl⟩ := List.mem_map.1 (List.mem_of_find?_eq_some hlink)
    have hk := List.find?_some hlink
    have hid := List.find?_some hfind
    simp only [Bool.and_eq_true, beq_iff_eq] at hk hid ht
    refine ⟨e, (Hir.Graph.mem_flows.1 he).1, beq_iff_eq.1 hk.2, hk.1, ?_⟩
    exact hid.symm.trans ht
  · rintro ⟨e, he, hk, hs, rfl⟩
    have hmem : (cfgStrategy options).edge e ∈ (records options hir).edges :=
      List.mem_map_of_mem (Hir.Graph.mem_flows.2 ⟨he, Or.inl hk⟩)
    obtain ⟨link, hlink, hfind, hp⟩ := Lookup.exists_find?
      (p := fun l : Display.Edge Hir.Edge =>
        l.source == ((cfgStrategy options).node n).id && EdgeRecord.isBlockLink l.record) hmem
      (Bool.and_eq_true_iff.2 ⟨beq_iff_eq.2 hs, beq_iff_eq.2 hk⟩)
    obtain ⟨e', he', rfl⟩ := List.mem_map.1 hlink
    simp only [Bool.and_eq_true, beq_iff_eq] at hp
    -- the first link of the begin is its only one
    have ht : e'.target = e.target :=
      h.links_right_unique ⟨e', (Hir.Graph.mem_flows.1 he').1, beq_iff_eq.1 hp.2, hp.1, rfl⟩
        ⟨e, he, hk, hs, rfl⟩
    obtain ⟨m, hm, hmid, -⟩ := (h.block e he hk).2.mem_controls
    obtain ⟨last, -, hlast, hid⟩ := Lookup.exists_find?
      (p := fun l : Display.Node Hir.Node => l.id == ((cfgStrategy options).edge e').target)
      (List.mem_map_of_mem (f := (cfgStrategy options).node) hm)
      (beq_iff_eq.2 (hmid.trans ht.symm))
    refine ⟨last, Option.bind_eq_some_iff.2 ⟨_, hfind, hlast⟩, ?_⟩
    rw [beq_iff_eq] at hid ⊢
    exact hid.trans ht

/-- An entry owns the end of its block. -/
theorem owner?_eq_some_iff (h : hir.WellFormed) :
    (records options hir).owner? t = some b ↔ hir.Links b t := by
  rw [Display.Builder.owner?, Display.Builder.ownerAmong, Option.map_eq_some_iff]
  constructor
  · rintro ⟨n, hn, rfl⟩
    obtain ⟨hn, he⟩ := List.mem_filter.1 (List.mem_of_getLast? hn)
    obtain ⟨m, -, -, rfl⟩ := mem_entries_records.1 hn
    exact (endsAt_iff h).1 he
  · intro hl
    obtain ⟨m, hm, rfl, hk⟩ := (h.beginsAt_of_links hl).mem_controls
    have hmem : (cfgStrategy options).node m ∈
        (records options hir).entries.filter ((records options hir).endsAt t) :=
      List.mem_filter.2 ⟨mem_entries_records.2 ⟨m, hm, hk, rfl⟩, (endsAt_iff h).2 hl⟩
    obtain ⟨n, hn⟩ := Option.isSome_iff_exists.1 (List.getLast?_isSome.2 (List.ne_nil_of_mem hmem))
    obtain ⟨hn', he⟩ := List.mem_filter.1 (List.mem_of_getLast? hn)
    obtain ⟨m', -, -, rfl⟩ := mem_entries_records.1 hn'
    exact ⟨_, hn, h.links_left_unique ((endsAt_iff h).1 he) hl⟩

/-! ### The edges of both views -/

theorem source_redirect (h : hir.WellFormed) {e : Hir.Edge} (hl : hir.Links b e.source) :
    ((records options hir).redirect ((cfgStrategy options).edge e)).source = b := by
  show ((records options hir).owner? e.source).getD e.source = b
  rw [(owner?_eq_some_iff h).2 hl, Option.getD_some]

/-- An edge from the end of a block leaves an entry, once its owner took it over, iff the block is
linked. -/
theorem beginsAt_source_redirect_iff (h : hir.WellFormed) {e : Hir.Edge}
    (ht : hir.EndsAt e.source) :
    hir.BeginsAt ((records options hir).redirect ((cfgStrategy options).edge e)).source ↔
      ∃ b, hir.Links b e.source := by
  constructor
  · intro hb
    cases ho : (records options hir).owner? e.source with
    | none =>
      -- an edge that nobody owns still leaves the end, which is no entry
      have hs : ((records options hir).redirect ((cfgStrategy options).edge e)).source = e.source :=
        congrArg (Option.getD · e.source) ho
      rw [hs] at hb
      exact absurd ht (h.not_endsAt hb)
    | some b => exact ⟨b, (owner?_eq_some_iff h).1 ho⟩
  · rintro ⟨b, hl⟩
    rw [source_redirect h hl]
    exact h.beginsAt_of_links hl

/-- With its blocks kept, the view shows all edges. -/
theorem edges_kept (h : hir.WellFormed) :
    (records options hir).dropDangling.edges = hir.flows.map (cfgStrategy options).edge := by
  refine congrArg Display.Builder.edges (Display.Builder.dropDangling_of_attached fun e he => ?_)
  obtain ⟨e, hflow, rfl⟩ := List.mem_map.1 he
  rw [ids_records, List.mem_map, List.mem_map]
  obtain ⟨hmem, hk | hk⟩ := Hir.Graph.mem_flows.1 hflow
  · obtain ⟨hb, ht⟩ := h.block e hmem hk
    obtain ⟨n, hn, hid, -⟩ := hb.mem_controls
    obtain ⟨m, hm, hmid, -⟩ := ht.mem_controls
    exact ⟨⟨n, hn, hid⟩, m, hm, hmid⟩
  · obtain ⟨ht, hb⟩ := h.flow e hmem hk
    obtain ⟨n, hn, hid, -⟩ := ht.mem_controls
    obtain ⟨m, hm, hmid, -⟩ := hb.mem_controls
    exact ⟨⟨n, hn, hid⟩, m, hm, hmid⟩

/-- With its blocks collapsed, the view shows the edges that leave the ends of linked blocks. -/
theorem edges_collapsed (h : hir.WellFormed) :
    ((records options hir).collapse summarizeBlock).dropDangling.edges =
      (hir.flows.filter hir.isShown).map fun e =>
        (records options hir).redirect ((cfgStrategy options).edge e) := by
  rw [Display.Builder.edges_dropDangling_collapse indexed_records,
    Display.Builder.edges_collapse indexed_records, edges_records, List.map_map,
    List.filter_filter, List.filter_map]
  refine congrArg (List.map _) (List.filter_congr fun e he => ?_)
  have hlink : EdgeRecord.isBlockLink e = (e.kind == .block) := rfl
  rw [Function.comp_apply, Bool.eq_iff_iff, Hir.Graph.isShown_iff, Bool.and_eq_true,
    Display.Builder.isAttached_ofList, mem_ids_entries, mem_ids_entries]
  show (_ ∧ hir.BeginsAt e.target) ∧ (!EdgeRecord.isBlockLink e) = true ↔ _
  obtain ⟨hmem, hk | hk⟩ := Hir.Graph.mem_flows.1 he
  · simp [hlink, hk]
  · obtain ⟨ht, hb⟩ := h.flow e hmem hk
    rw [Function.comp_apply, beginsAt_source_redirect_iff h ht]
    simp [hlink, hk, hb]

end View

end IrView
