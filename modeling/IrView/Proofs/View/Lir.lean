import Mathlib.Data.List.SplitBy
import IrView.Proofs.Display.Balance
import IrView.Proofs.Flow.Distance
import IrView.Proofs.Text.Occurrence
import IrView.View.Lir

/-!
# The graph of machine blocks

The blocks of a listing are its runs of instructions with one label (`runs_machineBlocks`), and
their positions are their ids. So an edge between blocks leads from one block that is shown to
another one, no edge dangles, and the graph has exactly the edges that the last instructions of the
blocks ask for (`lir_shows_blocks`). The first block is the root, and as there is a root, every
block has a level.
-/

namespace IrView

namespace View

/-! ### Runs of instructions -/

/-- The blocks are the longest runs of instructions with one label, numbered in order. -/
structure Runs (instructions : List Lir.Instruction) (blocks : List MachineBlock) : Prop where
  /-- No instruction is lost, repeated or moved. -/
  complete : blocks.flatMap MachineBlock.instructions = instructions
  inhabited : ∀ b ∈ blocks, b.instructions ≠ []
  labeled : ∀ b ∈ blocks, ∀ i ∈ b.instructions, i.block = b.label
  /-- A run ends only where the label changes. -/
  longest : (blocks.map MachineBlock.label).IsChain (· ≠ ·)
  numbered : ∀ (k : Nat) b, blocks[k]? = some b → b.id = k

namespace Runs

variable {instructions : List Lir.Instruction} {blocks : List MachineBlock} {b : MachineBlock}

theorem ids (h : Runs instructions blocks) :
    blocks.map MachineBlock.id = (List.range blocks.length).map Int.ofNat := by
  refine List.ext_getElem? fun k => ?_
  rw [List.getElem?_map, List.getElem?_map]
  cases hb : blocks[k]? with
  | none =>
    rw [List.getElem?_eq_none_iff] at hb
    simp [hb]
  | some b =>
    have hk : k < blocks.length := (List.getElem?_eq_some_iff.1 hb).1
    simp [hk, h.numbered k b hb]

theorem eq_nil_iff (h : Runs instructions blocks) : blocks = [] ↔ instructions = [] := by
  rw [← h.complete, List.flatMap_eq_nil_iff]
  constructor
  · rintro rfl
    intro b hb
    exact absurd hb List.not_mem_nil
  · intro hnil
    exact List.eq_nil_iff_forall_not_mem.2 fun b hb => h.inhabited b hb (hnil b hb)

theorem length_instructions (h : Runs instructions blocks) :
    Number.total (fun b => b.instructions.length) blocks = instructions.length := by
  rw [← h.complete, List.length_flatMap]
  clear h
  induction blocks with
  | nil => rfl
  | cons b blocks ih => simp [ih]

end Runs

/-- The runs of a listing. -/
def runsOf (instructions : List Lir.Instruction) : List (List Lir.Instruction) :=
  instructions.splitBy fun i j => i.block == j.block

/-- The label of a run: that of its first instruction. -/
def runLabel (run : List Lir.Instruction) : String :=
  (run.head?.map Lir.Instruction.block).getD ""

theorem getElem?_machineBlocks (instructions : List Lir.Instruction) (k : Nat) :
    (machineBlocks instructions)[k]? = (runsOf instructions)[k]?.map (blockOfRun k) :=
  List.getElem?_mapIdx

/-- What a block shows of its run does not depend on its number. -/
theorem map_machineBlocks {β : Type} (f : MachineBlock → β) (g : List Lir.Instruction → β)
    (h : ∀ k run, f (blockOfRun k run) = g run) (instructions : List Lir.Instruction) :
    (machineBlocks instructions).map f = (runsOf instructions).map g := by
  refine List.ext_getElem? fun k => ?_
  rw [List.getElem?_map, List.getElem?_map, getElem?_machineBlocks, Option.map_map]
  exact congrArg (fun f => (runsOf instructions)[k]?.map f) (funext (h k))

theorem exists_run {instructions : List Lir.Instruction} {b : MachineBlock}
    (hb : b ∈ machineBlocks instructions) :
    ∃ run ∈ runsOf instructions, b.instructions = run ∧ b.label = runLabel run := by
  obtain ⟨k, hk⟩ := List.mem_iff_getElem?.1 hb
  rw [getElem?_machineBlocks, Option.map_eq_some_iff] at hk
  obtain ⟨run, hrun, rfl⟩ := hk
  exact ⟨run, List.mem_of_getElem? hrun, rfl, rfl⟩

/-- All instructions of a run have its label. -/
theorem block_eq_runLabel {instructions run : List Lir.Instruction} {i : Lir.Instruction}
    (hrun : run ∈ runsOf instructions) (hi : i ∈ run) : i.block = runLabel run := by
  have hchain : run.IsChain fun i j => i.block = j.block :=
    (List.isChain_of_mem_splitBy hrun).imp fun _ _ h => beq_iff_eq.1 h
  cases run with
  | nil => exact absurd hi List.not_mem_nil
  | cons first rest =>
    let Same (i j : Lir.Instruction) : Prop := i.block = j.block
    have : Trans Same Same Same := ⟨Eq.trans⟩
    obtain rfl | hi := List.mem_cons.1 hi
    · rfl
    · exact (List.rel_of_pairwise_cons ((List.isChain_iff_pairwise (R := Same)).1 hchain) hi).symm

/-- The blocks of a listing are its runs. -/
theorem runs_machineBlocks (instructions : List Lir.Instruction) :
    Runs instructions (machineBlocks instructions) where
  complete := by
    rw [List.flatMap_def, map_machineBlocks _ id fun _ _ => rfl, List.map_id]
    exact List.flatten_splitBy _ _
  inhabited := by
    intro b hb
    obtain ⟨run, hrun, hb, -⟩ := exists_run hb
    rw [hb]
    exact List.ne_nil_of_mem_splitBy hrun
  labeled := by
    intro b hb i hi
    obtain ⟨run, hrun, hinstructions, hlabel⟩ := exists_run hb
    rw [hlabel]
    exact block_eq_runLabel hrun (hinstructions ▸ hi)
  longest := by
    rw [map_machineBlocks _ runLabel fun _ _ => rfl, List.isChain_map]
    refine (List.isChain_getLast_head_splitBy _ instructions).imp_of_mem_imp ?_
    rintro run next hrun hnext ⟨hne, hne', hdiffer⟩ hsame
    -- the last label of a run is the label of the run, and the first one of the next run likewise
    rw [beq_eq_false_iff_ne] at hdiffer
    rw [block_eq_runLabel hrun (List.getLast_mem hne),
      block_eq_runLabel hnext (List.head_mem hne')] at hdiffer
    exact hdiffer hsame
  numbered := by
    intro k b hb
    rw [getElem?_machineBlocks, Option.map_eq_some_iff] at hb
    obtain ⟨run, -, rfl⟩ := hb
    rfl

/-! ### Edges between blocks -/

/-- The label that an entry names: what stands behind its first equals sign, or all of it if it has
none. -/
def Names (entry label : String) : Prop :=
  (∃ front, '=' ∉ front ∧ entry.toList = front ++ '=' :: label.toList) ∨
    '=' ∉ entry.toList ∧ entry = label

/-- The block at a position is the first one with the label. -/
def FirstLabeled (blocks : List MachineBlock) (label : String) (k : Nat) : Prop :=
  (∃ b, blocks[k]? = some b ∧ b.label = label) ∧
    ∀ j < k, ∀ b, blocks[j]? = some b → b.label ≠ label

/-- The position to which an entry leads: that of the first block with the label that it names. -/
def LeadsTo (blocks : List MachineBlock) (entry : String) (k : Nat) : Prop :=
  ∃ label, Names entry label ∧ FirstLabeled blocks label k

/-- The entries of the last instruction of a block. -/
def MachineBlock.entries (b : MachineBlock) : List String :=
  (b.instructions.getLast?.map Lir.Instruction.successors).getD []

theorem successors_eq (b : MachineBlock) : b.successors = b.entries.map Successor.ofText := by
  rw [MachineBlock.successors, MachineBlock.entries]
  cases b.instructions.getLast? with
  | none => rfl
  | some last => rfl

/-- The position of the first block that an entry names. -/
def resolve (blocks : List MachineBlock) (entry : String) : Option Nat :=
  blocks.findIdx? fun b => b.label == Text.afterFirst '=' entry

theorem findIdx?_label_eq_some_iff {blocks : List MachineBlock} {label : String} {k : Nat} :
    (blocks.findIdx? fun b => b.label == label) = some k ↔ FirstLabeled blocks label k := by
  rw [List.findIdx?_eq_some_iff_getElem, FirstLabeled]
  constructor
  · rintro ⟨hk, hlabel, hbefore⟩
    refine ⟨⟨blocks[k], List.getElem?_eq_getElem hk, beq_iff_eq.1 hlabel⟩, fun j hj b hb => ?_⟩
    obtain ⟨hj', rfl⟩ := List.getElem?_eq_some_iff.1 hb
    simpa using hbefore j hj
  · rintro ⟨⟨b, hb, hlabel⟩, hbefore⟩
    obtain ⟨hk, rfl⟩ := List.getElem?_eq_some_iff.1 hb
    refine ⟨hk, beq_iff_eq.2 hlabel, fun j hj => ?_⟩
    simpa using hbefore j hj _ (List.getElem?_eq_getElem (hj.trans hk))

theorem resolve_eq_some_iff {blocks : List MachineBlock} {entry : String} {k : Nat} :
    resolve blocks entry = some k ↔ LeadsTo blocks entry k := by
  rw [resolve, findIdx?_label_eq_some_iff]
  constructor
  · intro hfirst
    exact ⟨_, Text.afterFirst_eq_iff.1 rfl, hfirst⟩
  · rintro ⟨label, hnames, hfirst⟩
    rwa [Text.afterFirst_eq_iff.2 hnames]

/-- The edges, as positions of blocks. -/
theorem ends_machineEdges {instructions : List Lir.Instruction} {blocks : List MachineBlock}
    (h : Runs instructions blocks) :
    (machineEdges blocks).map (fun e => (e.source, e.target)) = blocks.flatMap fun b =>
      b.entries.filterMap fun entry => (resolve blocks entry).map fun k => (b.id, (k : Int)) := by
  have hedge : ∀ (b : MachineBlock) (entry : String),
      (edgeTo? blocks b (.ofText entry)).map (fun e => (e.source, e.target)) =
        (resolve blocks entry).map fun k => (b.id, (k : Int)) := by
    intro b entry
    rw [edgeTo?, List.find?_eq_bind_findIdx?_getElem?]
    show (((resolve blocks entry).bind _).map _).map _ = _
    cases hk : resolve blocks entry with
    | none => rfl
    | some k =>
      obtain ⟨-, -, ⟨target, htarget, -⟩, -⟩ := resolve_eq_some_iff.1 hk
      simp [htarget, h.numbered k target htarget]
  rw [machineEdges, List.map_flatMap]
  refine congrArg (blocks.flatMap ·) (funext fun b => ?_)
  rw [successors_eq, List.filterMap_map, List.map_filterMap]
  exact congrArg (List.filterMap · b.entries) (funext (hedge b))

/-! ### The graph -/

variable {instructions : List Lir.Instruction} {blocks : List MachineBlock} {width : Nat}

/-- The builder that holds the blocks and their edges. -/
def blockRecords (width : Nat) (blocks : List MachineBlock) :
    Display.Builder MachineBlock MachineEdge :=
  .ofRecords blocks (machineEdges blocks) (lirStrategy width)

theorem ids_blockRecords :
    (blockRecords width blocks).nodes.map Display.Node.id = blocks.map MachineBlock.id :=
  List.map_map

/-- An edge leads from block to block. -/
theorem mem_of_mem_machineEdges {e : MachineEdge} (he : e ∈ machineEdges blocks) :
    e.source ∈ blocks.map MachineBlock.id ∧ e.target ∈ blocks.map MachineBlock.id := by
  obtain ⟨b, hb, he⟩ := List.mem_flatMap.1 he
  obtain ⟨s, -, hs⟩ := List.mem_filterMap.1 he
  obtain ⟨target, htarget, rfl⟩ := Option.map_eq_some_iff.1 hs
  exact ⟨List.mem_map_of_mem hb, List.mem_map_of_mem (List.mem_of_find?_eq_some htarget)⟩

/-- No edge dangles, so the walks see all blocks and all edges. -/
theorem prepare_blocks : Display.Builder.prepare (lirStrategy width) blocks (machineEdges blocks) =
    blockRecords width blocks := by
  refine Display.Builder.prepare_of_attached rfl fun e he => ?_
  obtain ⟨edge, hedge, rfl⟩ := List.mem_map.1 he
  show _ ∈ (blockRecords width blocks).nodes.map _ ∧ _ ∈ (blockRecords width blocks).nodes.map _
  rw [ids_blockRecords]
  exact mem_of_mem_machineEdges hedge

theorem shows_blocks : (Display.build (lirStrategy width) blocks (machineEdges blocks)).Shows
    (blockRecords width blocks) := by
  rw [← prepare_blocks]
  exact Display.shows_build

theorem records_blocks : (Display.build (lirStrategy width) blocks (machineEdges blocks)).nodes.map
    (fun n => n.record) = blocks := by
  have hrecord : (fun n : Display.Node MachineBlock => n.record) =
      (fun n => n.record) ∘ Display.Node.unleveled := rfl
  rw [hrecord, ← List.map_map, shows_blocks.nodes, List.map_map]
  exact List.map_map.trans (List.map_id _)

theorem ends_blocks : (Display.build (lirStrategy width) blocks (machineEdges blocks)).edges.map
    (fun e => (e.source, e.target)) = (machineEdges blocks).map fun e => (e.source, e.target) := by
  have hends : (fun e : Display.Edge MachineEdge => (e.source, e.target)) =
      (fun x => x.2) ∘ Display.Builder.ends := rfl
  rw [hends, ← List.map_map, shows_blocks.ends, List.map_map]
  exact List.map_map

/-- The first block is the root, and the walks start there. -/
theorem findRoot_blockRecords (h : Runs instructions blocks) :
    (blockRecords width blocks).findRoot .flagged = if blocks = [] then none else some 0 := by
  cases blocks with
  | nil => rfl
  | cons b blocks =>
    have hid : b.id = 0 := h.numbered 0 b rfl
    have hfirst : ((b :: blocks).map (lirStrategy width).node).find? (fun n => n.record.id == 0) =
        some ((lirStrategy width).node b) := List.find?_cons_of_pos (beq_iff_eq.2 hid)
    rw [if_neg (List.cons_ne_nil b blocks), ← hid]
    exact congrArg (Option.map Display.Node.id) hfirst

/-- What the walks leave, if there is a block. -/
theorem build_blocks (h : Runs instructions blocks) (hne : blocks ≠ []) :
    Display.build (lirStrategy width) blocks (machineEdges blocks) =
      (blockRecords width blocks).walked 0 fun _ => true := by
  have hroot : (Display.Builder.prepare (lirStrategy width) blocks (machineEdges blocks)).findRoot
      .flagged = some 0 := by
    rw [prepare_blocks, findRoot_blockRecords h, if_neg hne]
  rw [Display.build_eq_walked rfl rfl hroot, prepare_blocks]
  rfl

theorem build_noBlocks : Display.build (lirStrategy width) [] (machineEdges []) =
    { nodes := [], edges := [], diagnostics := { missingRoot := true } } := by
  rw [Display.build_eq_walk, prepare_blocks]
  rfl

theorem diagnostics_blocks (h : Runs instructions blocks) :
    let d := (Display.build (lirStrategy width) blocks (machineEdges blocks)).diagnostics
    d.droppedEdges = 0 ∧ d.skippedCollapses = [] ∧ (d.missingRoot = true ↔ blocks = []) := by
  by_cases hblocks : blocks = []
  · subst hblocks
    rw [build_noBlocks]
    simp
  · rw [build_blocks h hblocks]
    exact ⟨rfl, rfl, iff_of_false Bool.false_ne_true hblocks⟩

/-- Every block has a level, and the first block is the root. -/
theorem levels_blocks (h : Runs instructions blocks) (hne : blocks ≠ []) :
    let g := Display.build (lirStrategy width) blocks (machineEdges blocks)
    (∀ n ∈ g.nodes, n.level.isSome) ∧ g.level? 0 = some 0 := by
  have hids : ∀ id, id ∈ ((blockRecords width blocks).adjacency fun _ => true).order ↔
      id ∈ (blockRecords width blocks).nodes.map Display.Node.id :=
    fun _ => Display.Builder.mem_order_adjacency
  have hzero : (0 : NodeId) ∈ (blockRecords width blocks).nodes.map Display.Node.id := by
    rw [ids_blockRecords, h.ids]
    exact List.mem_map.2 ⟨0, List.mem_range.2 (List.length_pos_iff.2 hne), rfl⟩
  have hroot := (hids 0).2 hzero
  rw [build_blocks h hne]
  refine ⟨fun n hn => ?_, ?_⟩
  · rw [Display.Builder.nodes_walked] at hn
    obtain ⟨m, hm, rfl⟩ := List.mem_map.1 hn
    obtain ⟨level, hlevel⟩ := Flow.exists_level hroot ((hids m.id).2 (List.mem_map_of_mem hm))
    exact Option.isSome_iff_exists.2 ⟨level, hlevel⟩
  · rw [Display.Builder.level?_walked hzero]
    exact Flow.getElem?_level hroot Flow.distance_root

/-- **The machine view is the resolved graph of blocks.** Its nodes are the runs of the listing in
order, and its edges lead, for each block and each entry of its last instruction, to the first block
with the label that the entry names. Nothing is dropped or passed over, a root is missing only if
there is no instruction, and otherwise all blocks have levels, the first one level 0. -/
theorem lir_shows_blocks (listing : Lir.Listing) :
    let v := lir listing
    Runs listing.instructions v.blocks ∧
    v.graph.nodes.map (fun n => n.record) = v.blocks ∧
    v.graph.nodes.map (fun n => n.id) = (List.range v.blocks.length).map Int.ofNat ∧
    (∃ target : String → Option Nat,
      (∀ entry k, target entry = some k ↔ LeadsTo v.blocks entry k) ∧
      v.graph.edges.map (fun e => (e.source, e.target)) = v.blocks.flatMap fun b =>
        b.entries.filterMap fun entry => (target entry).map fun k => (b.id, (k : Int))) ∧
    v.graph.diagnostics.droppedEdges = 0 ∧
    v.graph.diagnostics.skippedCollapses = [] ∧
    (v.graph.diagnostics.missingRoot = true ↔ listing.instructions = []) ∧
    (listing.instructions ≠ [] →
      (∀ n ∈ v.graph.nodes, n.level.isSome) ∧ v.graph.level? 0 = some 0) ∧
    v.instructionCount = listing.instructions.length := by
  intro v
  have h : Runs listing.instructions v.blocks := runs_machineBlocks listing.instructions
  obtain ⟨hdropped, hskipped, hmissing⟩ := diagnostics_blocks h
  have hids : v.graph.nodes.map (fun n => n.id) = (List.range v.blocks.length).map Int.ofNat := by
    rw [← h.ids, ← ids_blockRecords]
    exact shows_blocks.ids
  exact ⟨h, records_blocks, hids, ⟨resolve v.blocks, fun _ _ => resolve_eq_some_iff,
    ends_blocks.trans (ends_machineEdges h)⟩, hdropped, hskipped, hmissing.trans h.eq_nil_iff,
    fun hne => levels_blocks h (mt h.eq_nil_iff.1 hne), h.length_instructions⟩

end View

end IrView
