import IrView.Display.Collapse
import IrView.Form
import IrView.Text.Basic

/-!
# The machine blocks of a pass

A block is a longest run of instructions with one label. The last instruction of a block names the
blocks that may follow; a name leads to the first block with that label, and a name of no block is
passed over.
-/

namespace IrView

namespace View

/-! ### Blocks -/

/-- How control passes from a block to a following one. -/
inductive Branch where
  | unconditional
  | thenTaken
  | elseTaken
  deriving DecidableEq, Repr

/-- How control passes on, told by the words in the name of a successor. -/
def Branch.ofSuccessor (text : String) : Branch :=
  if Text.contains text "then" then .thenTaken
  else if Text.contains text "else" then .elseTaken
  else .unconditional

/-- Color of a branch. -/
def Branch.color : Branch → String
  | .thenTaken => Style.trueBranchColor
  | .elseTaken => Style.falseBranchColor
  | .unconditional => Style.flowColor

/-- A following block, by its label. -/
structure Successor where
  label : String
  branch : Branch
  deriving DecidableEq, Repr

/-- The following block that a text names: the label stands behind the first equals sign. -/
def Successor.ofText (text : String) : Successor :=
  ⟨Text.afterFirst '=' text, .ofSuccessor text⟩

/-- A block of machine instructions. -/
structure MachineBlock where
  /-- Position among the blocks. -/
  id : NodeId
  label : String
  instructions : List Lir.Instruction
  deriving DecidableEq, Repr

/-- The blocks that may follow. -/
def MachineBlock.successors (b : MachineBlock) : List Successor :=
  match b.instructions.getLast? with
  | some last => last.successors.map Successor.ofText
  | none => []

/-- An edge between blocks. -/
structure MachineEdge where
  source : NodeId
  target : NodeId
  branch : Branch
  deriving DecidableEq, Repr

/-- The first block is the root; a block is one node from the start, so none is an entry. -/
instance : NodeRecord MachineBlock where
  id b := b.id
  name b := b.label
  isRoot b := b.id == 0

/-- Edges lead from block to block, so none is a block link. -/
instance : EdgeRecord MachineEdge where
  source e := e.source
  target e := e.target

/-- The block of a run of instructions. -/
def blockOfRun (position : Nat) (run : List Lir.Instruction) : MachineBlock :=
  { id := position, label := (run.head?.map Lir.Instruction.block).getD "", instructions := run }

/-- The blocks of a listing. -/
def machineBlocks (instructions : List Lir.Instruction) : List MachineBlock :=
  (instructions.splitBy fun i j => i.block == j.block).mapIdx blockOfRun

/-- The edge to a following block, if a block has the label. -/
def edgeTo? (blocks : List MachineBlock) (source : MachineBlock) (s : Successor) :
    Option MachineEdge :=
  (blocks.find? fun b => b.label == s.label).map fun b => ⟨source.id, b.id, s.branch⟩

/-- The edges between blocks. -/
def machineEdges (blocks : List MachineBlock) : List MachineEdge :=
  blocks.flatMap fun b => b.successors.filterMap (edgeTo? blocks b)

/-! ### Texts -/

/-- The number of characters of the greatest id. -/
def idWidth (instructions : List Lir.Instruction) : Nat :=
  match (instructions.map Lir.Instruction.id).max? with
  | some id => (toString id).length
  | none => 1

/-- The result of an instruction, unless it is empty. -/
def resultOf (i : Lir.Instruction) : Option String :=
  i.result.filter fun r => !r.isEmpty

/-- A list behind a space, between marks; nothing if the list is empty. -/
def listPart (mark : String) (items : List String) : String :=
  if items.isEmpty then "" else " " ++ mark ++ ",".intercalate items ++ mark

/-- An instruction as a line of a block label, with marks for slanted and bold text. -/
def markedLine (width : Nat) (i : Lir.Instruction) : String :=
  Text.zeroPad width i.id ++ ": *" ++ i.name ++ "*" ++ listPart "_" i.operands ++
    (match resultOf i with
      | some r => " *->* _" ++ r ++ "_"
      | none => "") ++
    listPart "_" i.successors

/-- The label of a block: its own label, and a line for each instruction. -/
def blockLabel (width : Nat) (b : MachineBlock) : String :=
  "\n".intercalate (("*" ++ b.label ++ "*") :: b.instructions.map (markedLine width))

/-- An instruction as a line of the listing. -/
def plainLine (width : Nat) (i : Lir.Instruction) : String :=
  Text.zeroPad width i.id ++ ": " ++ i.name ++ listPart "" i.operands ++
    (match resultOf i with
      | some r => " -> " ++ r
      | none => "") ++
    listPart "" i.successors

/-- The listing as plain text. -/
def listingText (lir : Lir.Listing) : String :=
  "\n".intercalate (lir.instructions.map (plainLine (idWidth lir.instructions)))

/-! ### The view -/

/-- The machine blocks of a pass, the graph of them, and the listing. -/
structure LirView where
  blocks : List MachineBlock
  graph : Display.Graph MachineBlock MachineEdge
  listing : String

/-- The number of instructions in all blocks. -/
def LirView.instructionCount (v : LirView) : Nat :=
  Number.total (fun b => b.instructions.length) v.blocks

/-- How the graph of blocks is built. -/
def lirStrategy (width : Nat) : Display.Strategy MachineBlock MachineEdge where
  node b := .ofRecord b (blockLabel width b)
  edge e := (Display.Edge.ofRecord e "").colored e.branch.color
  markBackedges := true
  assignLevels := true

/-- The machine view. -/
def lir (listing : Lir.Listing) : LirView :=
  let blocks := machineBlocks listing.instructions
  { blocks
    graph := Display.build (lirStrategy (idWidth listing.instructions)) blocks
      (machineEdges blocks)
    listing := listingText listing }

end View

end IrView
