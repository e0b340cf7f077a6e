import IrView.Proofs.Text.Lines
import IrView.Proofs.Text.Decimal
import IrView.Proofs.View.Lir

/-!
# Where the ids of a listing line up

The id of an instruction stands in front of the first colon of its line (`idField`), padded to the
width of the greatest id. An id that is longer than that is not cut, so the column is straight just
if no id is longer than the greatest one. A negative id may be (`fields_not_lined_up`), an id
without a sign is not, and whatever its length, a field reads back as its id
(`id_fields_line_up_iff`).
-/

namespace IrView

namespace View

variable {instructions : List Lir.Instruction} {i j : Lir.Instruction} {width : Nat}

/-- The id field of a line: what stands in front of the first colon. -/
def idField (line : String) : String :=
  String.ofList (line.toList.takeWhile (· ≠ ':'))

/-- The length of the decimal text of an id. -/
def idLength (i : Lir.Instruction) : Nat :=
  (toString i.id).length

/-- The id fields line up: each is as long as the longest decimal text of an id. -/
def FieldsLineUp (instructions : List Lir.Instruction) (line : Lir.Instruction → String) : Prop :=
  ∀ i ∈ instructions, (∃ j ∈ instructions, (idField (line i)).length = idLength j) ∧
    ∀ j ∈ instructions, idLength j ≤ (idField (line i)).length

/-! ### Fields -/

/-- A field ends where the rest of its line begins. -/
theorem idField_zeroPad (width : Nat) (id : Int) (rest : String) :
    idField (Text.zeroPad width id ++ ": " ++ rest) = Text.zeroPad width id := by
  have hfield : ∀ c ∈ (Text.zeroPad width id).toList, decide (c ≠ ':') = true := by
    intro c hc
    obtain hdigit | rfl := Text.isDigit_or_eq_minus_of_mem_zeroPad hc
    · refine decide_eq_true ?_
      rintro rfl
      cases hdigit
    · decide
  have hline : (Text.zeroPad width id ++ ": " ++ rest).toList =
      (Text.zeroPad width id).toList ++ ':' :: ' ' :: rest.toList := by
    rw [String.toList_append, String.toList_append, List.append_assoc]
    rfl
  rw [idField, hline, Text.takeWhile_append_cons hfield (by decide), String.ofList_toList]

theorem idField_plainLine : idField (plainLine width i) = Text.zeroPad width i.id := by
  rw [plainLine, String.append_assoc, String.append_assoc, String.append_assoc]
  exact idField_zeroPad width i.id _

theorem idField_markedLine : idField (markedLine width i) = Text.zeroPad width i.id := by
  have hmark : ": *" = ": " ++ "*" := rfl
  rw [markedLine, hmark]
  simp only [String.append_assoc]
  rw [← String.append_assoc]
  exact idField_zeroPad width i.id _

theorem length_idField : (idField (plainLine width i)).length = max width (idLength i) := by
  rw [idField_plainLine, Text.length_zeroPad, idLength]

/-! ### The width -/

/-- The width is the length of the greatest id. -/
theorem idWidth_eq (hi : i ∈ instructions) (hgreatest : ∀ j ∈ instructions, j.id ≤ i.id) :
    idWidth instructions = idLength i := by
  have hmax : (instructions.map Lir.Instruction.id).max? = some i.id := by
    refine List.max?_eq_some_iff.2 ⟨List.mem_map_of_mem hi, fun id hid => ?_⟩
    obtain ⟨j, hj, rfl⟩ := List.mem_map.1 hid
    exact hgreatest j hj
  rw [idWidth, hmax, idLength]

theorem exists_greatest (hi : i ∈ instructions) :
    ∃ g ∈ instructions, ∀ j ∈ instructions, j.id ≤ g.id := by
  have hids : instructions.map Lir.Instruction.id ≠ [] :=
    List.ne_nil_of_mem (List.mem_map_of_mem hi)
  obtain ⟨id, hmax⟩ := Option.ne_none_iff_exists'.1 (mt List.max?_eq_none_iff.1 hids)
  obtain ⟨hid, hgreatest⟩ := List.max?_eq_some_iff.1 hmax
  obtain ⟨g, hg, rfl⟩ := List.mem_map.1 hid
  exact ⟨g, hg, fun j hj => hgreatest _ (List.mem_map_of_mem hj)⟩

/-- An id without a sign is not longer than the greatest id. -/
theorem idLength_le_idWidth (hi : i ∈ instructions) (hsign : 0 ≤ i.id) :
    idLength i ≤ idWidth instructions := by
  obtain ⟨g, hg, hgreatest⟩ := exists_greatest hi
  rw [idWidth_eq hg hgreatest]
  exact Text.length_toString_le hsign (hgreatest i hi)

/-- **The fields have one length just if no id is longer than the greatest one.** -/
theorem forall_length_idField_eq_iff :
    (∀ i ∈ instructions, ∀ j ∈ instructions,
      (idField (plainLine (idWidth instructions) i)).length =
        (idField (plainLine (idWidth instructions) j)).length) ↔
      ∀ i ∈ instructions, idLength i ≤ idWidth instructions := by
  simp only [length_idField]
  constructor
  · intro hsame i hi
    obtain ⟨g, hg, hgreatest⟩ := exists_greatest hi
    have hwidth := idWidth_eq hg hgreatest
    have hlength := hsame i hi g hg
    omega
  · intro hle i hi j hj
    rw [Nat.max_eq_left (hle i hi), Nat.max_eq_left (hle j hj)]

theorem fieldsLineUp_iff : FieldsLineUp instructions (plainLine (idWidth instructions)) ↔
    ∀ i ∈ instructions, idLength i ≤ idWidth instructions := by
  simp only [FieldsLineUp, length_idField]
  constructor
  · intro hlined i hi
    -- the field of the greatest id is as wide as the column
    obtain ⟨g, hg, hgreatest⟩ := exists_greatest hi
    have hwidth := idWidth_eq hg hgreatest
    have hlength := (hlined g hg).2 i hi
    omega
  · intro hle i hi
    obtain ⟨g, hg, hgreatest⟩ := exists_greatest hi
    rw [Nat.max_eq_left (hle i hi)]
    exact ⟨⟨g, hg, idWidth_eq hg hgreatest⟩, hle⟩

/-- Only negative ids can be longer than the greatest one. -/
theorem forall_idLength_le_iff : (∀ i ∈ instructions, idLength i ≤ idWidth instructions) ↔
    ∀ i ∈ instructions, i.id < 0 → idLength i ≤ idWidth instructions := by
  refine forall₂_congr fun i hi => ⟨fun hle _ => hle, fun hle => ?_⟩
  obtain hneg | hsign := Int.lt_or_le i.id 0
  · exact hle hneg
  · exact idLength_le_idWidth hi hsign

/-! ### The view -/

theorem labels_lir (listing : Lir.Listing) : (lir listing).graph.nodes.map Display.Node.label =
    (lir listing).blocks.map (blockLabel (idWidth listing.instructions)) := by
  have hlabel : (Display.Node.label : Display.Node MachineBlock → String) =
      Display.Node.label ∘ Display.Node.unleveled := rfl
  have hshows : (lir listing).graph.Shows (blockRecords (idWidth listing.instructions)
      (lir listing).blocks) := shows_blocks
  rw [hlabel, ← List.map_map, hshows.nodes, List.map_map]
  exact List.map_map

/-- **Where ids line up.** The listing and the labels of the blocks consist of lines, one for each
instruction, and in both the field in front is the id: it reads back as the id, and it is as long as
the greatest id or as long as the id itself, whichever is longer. So the fields are all as long as
the longest id, or all of one length, just if no negative id is longer than the greatest id. -/
theorem id_fields_line_up_iff (listing : Lir.Listing) :
    let v := lir listing
    let all := listing.instructions
    let width := idWidth all
    v.listing = "\n".intercalate (all.map (plainLine width)) ∧
    v.graph.nodes.map Display.Node.label = v.blocks.map (fun b =>
      "\n".intercalate (("*" ++ b.label ++ "*") :: b.instructions.map (markedLine width))) ∧
    v.blocks.flatMap MachineBlock.instructions = all ∧
    (∀ i, idField (markedLine width i) = idField (plainLine width i) ∧
      Number.readId? (idField (plainLine width i)) = (some i.id).filter Number.fitsWord ∧
      (idField (plainLine width i)).length = max width (toString i.id).length) ∧
    (∀ g ∈ all, (∀ i ∈ all, i.id ≤ g.id) → width = (toString g.id).length) ∧
    (FieldsLineUp all (plainLine width) ↔
      ∀ i ∈ all, i.id < 0 → (toString i.id).length ≤ width) ∧
    ((∀ i ∈ all, ∀ j ∈ all, (idField (plainLine width i)).length =
        (idField (plainLine width j)).length) ↔
      ∀ i ∈ all, i.id < 0 → (toString i.id).length ≤ width) := by
  intro v all width
  refine ⟨rfl, labels_lir listing, (runs_machineBlocks all).complete, fun i => ⟨?_, ?_, ?_⟩,
    fun g => idWidth_eq, fieldsLineUp_iff.trans forall_idLength_le_iff,
    forall_length_idField_eq_iff.trans forall_idLength_le_iff⟩
  · rw [idField_markedLine, idField_plainLine]
  · rw [idField_plainLine]
    exact Number.readId?_zeroPad width i.id
  · exact length_idField

/-- Two instructions of one block, one of them with a negative id. -/
def negativeAndPositive : Lir.Listing where
  instructions := [{ id := -5, name := "N", block := "x" }, { id := 3, name := "P", block := "x" }]

/-- A negative id may be longer than the greatest id, and then the fields do not line up. -/
theorem fields_not_lined_up :
    let all := negativeAndPositive.instructions
    let field := fun i => idField (plainLine (idWidth all) i)
    all.map field = ["-5", "3"] ∧ ¬ FieldsLineUp all (plainLine (idWidth all)) := by
  refine ⟨by decide, fun hlined => ?_⟩
  have hlength := fieldsLineUp_iff.1 hlined _ List.mem_cons_self
  revert hlength
  decide

end View

end IrView
