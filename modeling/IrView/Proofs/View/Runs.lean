import Mathlib.Data.List.ModifyLast
import IrView.Proofs.View.Lir

/-!
# A listing has one decomposition into blocks

Reading a listing instruction by instruction, the last block takes an instruction that has its
label, and any other instruction begins a block (`takeInstruction`). At each moment the blocks are
the longest runs with one label of what was read (`Runs.takeInstruction`). There is only one way to
cut a listing into such runs, so the blocks do not depend on how they are found
(`machineBlocks_only_runs`).
-/

namespace IrView

namespace View

variable {instructions rest : List Lir.Instruction} {blocks front : List MachineBlock}
  {last : MachineBlock} {i : Lir.Instruction}

/-! ### Instruction by instruction -/

/-- The block with one more instruction at its end. -/
def MachineBlock.extend (b : MachineBlock) (i : Lir.Instruction) : MachineBlock :=
  { b with instructions := b.instructions ++ [i] }

/-- The blocks after one more instruction: the last block takes it if it has its label, and
otherwise a block begins with it. -/
def takeInstruction (blocks : List MachineBlock) (i : Lir.Instruction) : List MachineBlock :=
  if blocks.getLast?.any fun b => b.label == i.block then
    blocks.modifyLast fun b => b.extend i
  else blocks ++ [⟨blocks.length, i.block, [i]⟩]

namespace Runs

theorem nil : Runs [] [] where
  complete := rfl
  inhabited _ hb := absurd hb List.not_mem_nil
  labeled _ hb := absurd hb List.not_mem_nil
  longest := .nil
  numbered _ _ hb := by cases hb

/-- The last run goes on. -/
theorem extend (h : Runs instructions (front ++ [last])) (hi : last.label = i.block) :
    Runs (instructions ++ [i]) (front ++ [last.extend i]) where
  complete := by
    rw [← h.complete, List.flatMap_append, List.flatMap_append, List.flatMap_singleton,
      List.flatMap_singleton, List.append_assoc]
    rfl
  inhabited b hb := by
    rw [List.mem_append, List.mem_singleton] at hb
    obtain hb | rfl := hb
    · exact h.inhabited b (List.mem_append_left _ hb)
    · simp [MachineBlock.extend]
  labeled b hb j hj := by
    rw [List.mem_append, List.mem_singleton] at hb
    obtain hb | rfl := hb
    · exact h.labeled b (List.mem_append_left _ hb) j hj
    · obtain hj | hj := List.mem_append.1 hj
      · exact h.labeled last (List.mem_append_right _ (List.mem_singleton_self _)) j hj
      · rw [List.mem_singleton.1 hj]
        exact hi.symm
  longest := by
    have hlabels : (front ++ [last.extend i]).map MachineBlock.label =
        (front ++ [last]).map MachineBlock.label := by
      rw [List.map_append, List.map_append]
      rfl
    rw [hlabels]
    exact h.longest
  numbered k b hb := by
    have hnumbered := h.numbered k
    obtain hk | hk := Nat.lt_or_ge k front.length
    · rw [List.getElem?_append_left hk] at hb hnumbered
      exact hnumbered b hb
    · rw [List.getElem?_append_right hk] at hb hnumbered
      obtain rfl := List.mem_singleton.1 (List.mem_of_getElem? hb)
      obtain ⟨hlast, -⟩ := List.getElem?_eq_some_iff.1 hb
      exact hnumbered last (List.getElem?_eq_some_iff.2 ⟨hlast, List.getElem_singleton _⟩)

/-- A run begins. -/
theorem begin (h : Runs instructions blocks) (hi : ∀ b ∈ blocks.getLast?, b.label ≠ i.block) :
    Runs (instructions ++ [i]) (blocks ++ [⟨blocks.length, i.block, [i]⟩]) where
  complete := by
    rw [List.flatMap_append, List.flatMap_singleton, h.complete]
  inhabited b hb := by
    rw [List.mem_append, List.mem_singleton] at hb
    obtain hb | rfl := hb
    · exact h.inhabited b hb
    · exact List.cons_ne_nil _ _
  labeled b hb j hj := by
    rw [List.mem_append, List.mem_singleton] at hb
    obtain hb | rfl := hb
    · exact h.labeled b hb j hj
    · rw [List.mem_singleton.1 hj]
  longest := by
    rw [List.map_append, List.map_singleton, List.isChain_append]
    refine ⟨h.longest, .singleton _, fun label hlabel label' hlabel' => ?_⟩
    rw [List.getLast?_map, Option.mem_map] at hlabel
    obtain ⟨b, hb, rfl⟩ := hlabel
    obtain rfl : i.block = label' := by simpa using hlabel'
    exact hi b hb
  numbered k b hb := by
    obtain hk | hk := Nat.lt_or_ge k blocks.length
    · rw [List.getElem?_append_left hk] at hb
      exact h.numbered k b hb
    · rw [List.getElem?_append_right hk] at hb
      obtain rfl := List.mem_singleton.1 (List.mem_of_getElem? hb)
      obtain ⟨hlast, -⟩ := List.getElem?_eq_some_iff.1 hb
      rw [List.length_singleton] at hlast
      exact congrArg Int.ofNat (by omega)

/-- **Each instruction keeps the blocks the runs of what was read.** -/
theorem takeInstruction (h : Runs instructions blocks) (i : Lir.Instruction) :
    Runs (instructions ++ [i]) (takeInstruction blocks i) := by
  rw [View.takeInstruction]
  split_ifs with hcontinues
  · obtain ⟨last, hlast, hlabel⟩ := (Option.any_eq_true _ _).1 hcontinues
    obtain ⟨front, rfl⟩ := List.getLast?_eq_some_iff.1 hlast
    rw [List.modifyLast_concat]
    exact h.extend (beq_iff_eq.1 hlabel)
  · refine h.begin fun b hb hlabel => hcontinues ?_
    exact (Option.any_eq_true _ _).2 ⟨b, hb, beq_iff_eq.2 hlabel⟩

/-- Reading on, the blocks stay the runs of what was read. -/
theorem foldl_takeInstruction (h : Runs instructions blocks) :
    Runs (instructions ++ rest) (rest.foldl View.takeInstruction blocks) := by
  induction rest generalizing instructions blocks with
  | nil => rwa [List.append_nil]
  | cons i rest ih =>
    rw [List.foldl_cons, List.append_cons]
    exact ih (h.takeInstruction i)

/-! ### One decomposition -/

/-- The longest runs of a listing are those that splitting it where the label changes gives. -/
theorem runsOf_eq (h : Runs instructions blocks) :
    runsOf instructions = blocks.map MachineBlock.instructions := by
  refine List.splitBy_eq_iff.2 ⟨?_, fun hempty => ?_, fun run hrun => ?_, ?_⟩
  · rw [← List.flatMap_def, h.complete]
  · obtain ⟨b, hb, hnil⟩ := List.mem_map.1 hempty
    exact h.inhabited b hb hnil
  · obtain ⟨b, hb, rfl⟩ := List.mem_map.1 hrun
    refine List.Pairwise.isChain (List.pairwise_iff_forall_sublist.2 fun {i j} hij => ?_)
    have hi := h.labeled b hb i (hij.subset List.mem_cons_self)
    have hj := h.labeled b hb j (hij.subset (List.mem_cons_of_mem _ List.mem_cons_self))
    rw [hi, hj, beq_self_eq_true]
  · rw [List.isChain_map]
    refine ((List.isChain_map _).1 h.longest).imp_of_mem_imp fun b b' hb hb' hlabels => ?_
    refine ⟨h.inhabited b hb, h.inhabited b' hb', beq_eq_false_iff_ne.2 ?_⟩
    rw [h.labeled b hb _ (List.getLast_mem _), h.labeled b' hb' _ (List.head_mem _)]
    exact hlabels

/-- A block with its number is told by its instructions. -/
theorem blockOfRun_instructions (h : Runs instructions blocks) {k : Nat} {b : MachineBlock}
    (hb : blocks[k]? = some b) : blockOfRun k b.instructions = b := by
  have hmem := List.mem_of_getElem? hb
  obtain ⟨i, rest, hrun⟩ := List.exists_cons_of_ne_nil (h.inhabited b hmem)
  have hlabel : i.block = b.label := h.labeled b hmem i (hrun ▸ List.mem_cons_self)
  have hid := h.numbered k b hb
  obtain ⟨id, label, run⟩ := b
  subst hrun hlabel hid
  rfl

theorem eq_machineBlocks (h : Runs instructions blocks) : blocks = machineBlocks instructions := by
  refine List.ext_getElem? fun k => ?_
  rw [getElem?_machineBlocks, h.runsOf_eq, List.getElem?_map, Option.map_map]
  cases hb : blocks[k]? with
  | none => rfl
  | some b => exact congrArg some (h.blockOfRun_instructions hb).symm

end Runs

/-- **The blocks of a listing are its only decomposition into longest runs.** They are what reading
the listing instruction by instruction gives. -/
theorem machineBlocks_only_runs (instructions : List Lir.Instruction) :
    instructions.foldl takeInstruction [] = machineBlocks instructions ∧
    ∀ blocks, Runs instructions blocks ↔ blocks = machineBlocks instructions := by
  have hread : Runs instructions (instructions.foldl takeInstruction []) :=
    Runs.nil.foldl_takeInstruction
  refine ⟨hread.eq_machineBlocks, fun blocks => ⟨Runs.eq_machineBlocks, ?_⟩⟩
  rintro rfl
  exact runs_machineBlocks instructions

end View

end IrView
