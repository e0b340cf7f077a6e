import IrView.Display.Collapse
import IrView.Proofs.Display.Tables

/-!
# What collapsing does to the lists

The edges that left the end of a block leave its entry afterwards. Collapsing looks the new source
up by the place of an edge; of an indexed builder it is the owner of the old source, the last entry
whose block ends there (`Builder.owner?`). So the collapsed edges can be told without the table
(`Builder.edges_collapse`).
-/

namespace IrView

namespace Display

namespace Builder

variable {N E : Type}

/-! ### Attached edges -/

theorem isAttached_ofList {ids : List NodeId} {e : Edge E} :
    isAttached (.ofList ids) e = true ↔ e.source ∈ ids ∧ e.target ∈ ids := by
  simp [isAttached]

theorem length_attached_add_dangling (b : Builder N E) :
    b.attached.length + b.dangling = b.edges.length :=
  Nat.add_sub_of_le (List.length_filter_le _ _)

theorem attached_eq_of_dangling {b : Builder N E} (h : b.dangling = 0) : b.attached = b.edges := by
  have hlength := length_attached_add_dangling b
  rw [h, Nat.add_zero] at hlength
  exact List.filter_sublist.eq_of_length hlength

theorem nodes_dropDangling (b : Builder N E) : b.dropDangling.nodes = b.nodes := by
  unfold dropDangling
  split <;> rfl

theorem edges_dropDangling (b : Builder N E) : b.dropDangling.edges = b.attached := by
  unfold dropDangling
  split
  · next h => exact (attached_eq_of_dangling h).symm
  · rfl

theorem diagnostics_dropDangling (b : Builder N E) : b.dropDangling.diagnostics =
    { b.diagnostics with droppedEdges := b.diagnostics.droppedEdges + b.dangling } := by
  unfold dropDangling
  split
  · next h => rw [h, Nat.add_zero]
  · rfl

/-- If no edge dangles, nothing changes. -/
theorem dropDangling_of_attached {b : Builder N E}
    (h : ∀ e ∈ b.edges, e.source ∈ b.nodes.map Node.id ∧ e.target ∈ b.nodes.map Node.id) :
    b.dropDangling = b := by
  have hattached : b.attached = b.edges :=
    List.filter_eq_self.2 fun e he => isAttached_ofList.2 (h e he)
  rw [dropDangling, dangling, hattached, Nat.sub_self, if_pos rfl]

variable [EdgeRecord E] {b : Builder N E}

/-! ### The ends of blocks -/

theorem blockEnd?_eq (h : b.Indexed) (entry : Node N) : b.blockEnd? entry =
    (b.edges.find? fun e => e.source == entry.id && EdgeRecord.isBlockLink e.record).bind
      fun link => b.nodes.find? fun n => n.id == link.target := by
  rw [blockEnd?, h.filterMap_outgoing, List.find?_filter]
  simp only [h.node?_eq_find?, Bool.decide_and, Bool.decide_eq_true]
  rfl

/-- Whether the block of the entry ends at the id. -/
def endsAt (b : Builder N E) (id : NodeId) (entry : Node N) : Bool :=
  (b.blockEnd? entry).any fun last => last.id == id

/-- The last of the given entries with a block that ends at the id. -/
def ownerAmong (b : Builder N E) (entries : List (Node N)) (id : NodeId) : Option NodeId :=
  (entries.filter (b.endsAt id)).getLast?.map Node.id

theorem ownerAmong_cons (entry : Node N) (entries : List (Node N)) (id : NodeId) :
    b.ownerAmong (entry :: entries) id =
      (b.ownerAmong entries id).or (if b.endsAt id entry then some entry.id else none) := by
  unfold ownerAmong
  by_cases h : b.endsAt id entry = true
  · rw [List.filter_cons_of_pos h, List.getLast?_cons, if_pos h]
    cases (entries.filter (b.endsAt id)).getLast? <;> rfl
  · rw [List.filter_cons_of_neg h, if_neg h, Option.or_none]

theorem getElem?_foldl_insert (places : List Nat) (id : NodeId) (sources : Std.HashMap Nat NodeId)
    (i : Nat) : (places.foldl (fun sources i => sources.insert i id) sources)[i]? =
      if i ∈ places then some id else sources[i]? := by
  induction places generalizing sources with
  | nil => simp
  | cons j places ih =>
    rw [List.foldl_cons, ih, Std.HashMap.getElem?_insert]
    by_cases hp : i ∈ places
    · simp [hp]
    · by_cases hj : j = i
      · simp [hj]
      · simp [hp, hj, Ne.symm hj]

/-- Entries that come later overwrite what a table says of earlier ones. -/
theorem getElem?_foldl_owner (id : NodeId) {i : Nat}
    {step : Std.HashMap Nat NodeId → Node N → Std.HashMap Nat NodeId}
    (hstep : ∀ sources entry, (step sources entry)[i]? =
      (if b.endsAt id entry then some entry.id else none).or sources[i]?)
    (entries : List (Node N)) (sources : Std.HashMap Nat NodeId) :
    (entries.foldl step sources)[i]? = (b.ownerAmong entries id).or sources[i]? := by
  induction entries generalizing sources with
  | nil => rfl
  | cons entry entries ih =>
    rw [List.foldl_cons, ih, hstep, ownerAmong_cons, Option.or_assoc]

theorem id_collapsedNode (summarize : Node N → Node N → Summary) (n : Node N) :
    (b.collapsedNode summarize n).id = n.id := by
  unfold collapsedNode
  split <;> rfl

theorem record_collapsedNode (summarize : Node N → Node N → Summary) (n : Node N) :
    (b.collapsedNode summarize n).record = n.record := by
  unfold collapsedNode
  split <;> rfl

/-- An entry whose block ends at an id says so once it is collapsed. -/
theorem endLink_collapsedNode {id : NodeId} {entry : Node N} (h : b.endsAt id entry = true)
    (summarize : Node N → Node N → Summary) :
    (b.collapsedNode summarize entry).endLink = some id := by
  obtain ⟨last, hlast, hid⟩ := (Option.any_eq_true _ _).1 h
  rw [collapsedNode, hlast, ← beq_iff_eq.1 hid]
  rfl

/-- Without a block link no block has an end. -/
theorem blockEnd?_of_unlinked (h : b.Indexed)
    (unlinked : ∀ e ∈ b.edges, EdgeRecord.isBlockLink e.record = false) (entry : Node N) :
    b.blockEnd? entry = none := by
  have hnone : (b.edges.find? fun e => e.source == entry.id && EdgeRecord.isBlockLink e.record) =
      none :=
    List.find?_eq_none.2 fun e he => by simp [unlinked e he]
  rw [blockEnd?_eq h, hnone, Option.bind_none]

theorem collapsedNode_of_unlinked (h : b.Indexed)
    (unlinked : ∀ e ∈ b.edges, EdgeRecord.isBlockLink e.record = false)
    (summarize : Node N → Node N → Summary) (n : Node N) : b.collapsedNode summarize n = n := by
  rw [collapsedNode, blockEnd?_of_unlinked h unlinked]

variable [NodeRecord N]

/-- The entry that takes over the edges that leave an id. -/
def owner? (b : Builder N E) (id : NodeId) : Option NodeId :=
  b.ownerAmong b.entries id

/-- The owner of an id is an entry whose block ends there. -/
theorem exists_entry_of_owner? {id o : NodeId} (h : b.owner? id = some o) :
    ∃ entry ∈ b.entries, entry.id = o ∧ b.endsAt id entry = true := by
  obtain ⟨entry, hlast, rfl⟩ := Option.map_eq_some_iff.1 h
  obtain ⟨hentry, hends⟩ := List.mem_filter.1 (List.mem_of_getLast? hlast)
  exact ⟨entry, hentry, rfl, hends⟩

/-- The table tells for each place the owner of the source that the edge there has. -/
theorem getElem?_takenOver (h : b.Indexed) {i : Nat} {e : Edge E} (he : b.edges[i]? = some e) :
    b.takenOver[i]? = b.owner? e.source := by
  have hplace : ∀ id, i ∈ b.outgoing id ↔ id = e.source := by
    intro id
    rw [h.mem_outgoing, he]
    simp [eq_comm]
  refine (getElem?_foldl_owner (b := b) e.source (fun sources entry => ?_) b.entries ∅).trans ?_
  · rw [endsAt]
    cases b.blockEnd? entry with
    | none => simp
    | some last =>
      rw [getElem?_foldl_insert]
      by_cases hl : last.id = e.source
      · simp [hplace, hl]
      · simp [hplace, hl]
  · rw [owner?, Std.HashMap.getElem?_empty, Option.or_none]

/-! ### The collapsed lists -/

/-- The edge, taken over by the owner of its source. -/
def redirect (b : Builder N E) (e : Edge E) : Edge E :=
  { e with source := (b.owner? e.source).getD e.source }

theorem nodes_collapse (summarize : Node N → Node N → Summary) :
    (b.collapse summarize).nodes = b.entries.map (b.collapsedNode summarize) :=
  nodes_dropDangling _

theorem ids_collapse (summarize : Node N → Node N → Summary) :
    (b.collapse summarize).nodes.map Node.id = b.entries.map Node.id := by
  rw [nodes_collapse, List.map_map]
  exact List.map_congr_left fun n _ => id_collapsedNode summarize n

/-- Merging blocks keeps the edges that are no block links, once each edge is taken over by the owner
of its source. -/
theorem edges_mergeBlocks (h : b.Indexed) (summarize : Node N → Node N → Summary) :
    (b.mergeBlocks summarize).edges =
      (b.edges.map b.redirect).filter fun e => !EdgeRecord.isBlockLink e.record := by
  have hredirect : (b.edges.mapIdx fun i e => { e with source := b.takenOver.getD i e.source }) =
      b.edges.map b.redirect := by
    refine List.ext_getElem? fun i => ?_
    rw [List.getElem?_mapIdx, List.getElem?_map]
    cases he : b.edges[i]? with
    | none => rfl
    | some e =>
      rw [Option.map_some, Option.map_some, Std.HashMap.getD_eq_getD_getElem?,
        getElem?_takenOver h he, redirect]
  rw [← hredirect]
  rfl

/-- Of the merged edges, collapsing keeps those between entries. -/
theorem edges_collapse (h : b.Indexed) (summarize : Node N → Node N → Summary) :
    (b.collapse summarize).edges =
      ((b.edges.map b.redirect).filter fun e => !EdgeRecord.isBlockLink e.record).filter
        (isAttached (.ofList (b.entries.map Node.id))) := by
  rw [collapse, edges_dropDangling, ← edges_mergeBlocks h summarize, ← ids_collapse summarize,
    collapse, nodes_dropDangling]
  rfl

theorem redirect_of_unlinked (h : b.Indexed)
    (unlinked : ∀ e ∈ b.edges, EdgeRecord.isBlockLink e.record = false) (e : Edge E) :
    b.redirect e = e := by
  have hnone : b.owner? e.source = none := by
    cases ho : b.owner? e.source with
    | none => rfl
    | some o =>
      obtain ⟨entry, -, -, hends⟩ := exists_entry_of_owner? ho
      rw [endsAt, blockEnd?_of_unlinked h unlinked] at hends
      cases hends
  rw [redirect, hnone, Option.getD_none]

/-- Collapsing leaves no block link. -/
theorem unlinked_collapse (h : b.Indexed) (summarize : Node N → Node N → Summary) :
    ∀ e ∈ (b.collapse summarize).edges, EdgeRecord.isBlockLink e.record = false := by
  intro e he
  rw [edges_collapse h] at he
  simpa using (List.mem_filter.1 (List.mem_filter.1 he).1).2

/-- Collapsing leaves no edge dangling. -/
theorem edges_dropDangling_collapse (h : b.Indexed) (summarize : Node N → Node N → Summary) :
    (b.collapse summarize).dropDangling.edges = (b.collapse summarize).edges := by
  refine congrArg Builder.edges (dropDangling_of_attached fun e he => ?_)
  rw [edges_collapse h] at he
  rw [ids_collapse]
  exact isAttached_ofList.1 (List.mem_filter.1 he).2

end Builder

end Display

end IrView
