import IrView.Record

/-!
# Forms of a method

The high-level form of a method is a graph of instructions. The kind of an instruction or of an
edge follows from its name in the dump; a name that is not known has the kind `unknown`.

The low-level form is a listing of machine instructions, each with the label of its basic block. The
last instruction of a block names the blocks that may follow.
-/

namespace IrView

namespace Hir

/-! ### Kinds -/

/-- Kind of an instruction. -/
inductive NodeKind where
  | unknown
  | add
  | arrayLoad
  | arrayRef
  | arrayBoundsCheck
  | arrayLength
  | arrayStore
  | begin
  | const
  | goto
  | branch
  | load
  | phi
  | ret
  | sub
  | branchAssumption
  | sourceState
  deriving DecidableEq, Repr

namespace NodeKind

/-- All kinds. -/
def all : List NodeKind :=
  [unknown, add, arrayLoad, arrayRef, arrayBoundsCheck, arrayLength, arrayStore, begin, const,
   goto, branch, load, phi, ret, sub, branchAssumption, sourceState]

/-- The name of a kind in the dump. -/
def wireName : NodeKind → String
  | unknown => "Unknown"
  | add => "ADDInst"
  | arrayLoad => "ALOADInst"
  | arrayRef => "AREFInst"
  | arrayBoundsCheck => "ARRAYBOUNDSCHECKInst"
  | arrayLength => "ARRAYLENGTHInst"
  | arrayStore => "ASTOREInst"
  | begin => "BeginInst"
  | const => "CONSTInst"
  | goto => "GOTOInst"
  | branch => "IFInst"
  | load => "LOADInst"
  | phi => "PHIInst"
  | ret => "RETURNInst"
  | sub => "SUBInst"
  | branchAssumption => "IFAssumptionInst"
  | sourceState => "SourceStateInst"

/-- The kind with the given name. -/
def ofName (name : String) : NodeKind :=
  (all.find? fun kind => kind.wireName == name).getD unknown

/-- Whether the kind begins or ends a basic block. -/
def isControl : NodeKind → Bool
  | begin | goto | ret | branch => true
  | _ => false

end NodeKind

/-- Kind of an edge. -/
inductive EdgeKind where
  | unknown
  /-- From the begin of a basic block to its end. -/
  | block
  /-- From the end of a basic block to the begin of a next one. -/
  | flow
  /-- From a user to its operand. -/
  | operand
  | schedule
  deriving DecidableEq, Repr

namespace EdgeKind

/-- All kinds. -/
def all : List EdgeKind :=
  [unknown, block, flow, operand, schedule]

/-- The name of a kind in the dump. -/
def wireName : EdgeKind → String
  | unknown => "Unknown"
  | block => "bb"
  | flow => "cfg"
  | operand => "op"
  | schedule => "sched"

/-- The kind with the given name. -/
def ofName (name : String) : EdgeKind :=
  (all.find? fun kind => kind.wireName == name).getD unknown

/-- Whether the kind belongs to the control flow graph. -/
def isControlFlow : EdgeKind → Bool
  | block | flow => true
  | _ => false

end EdgeKind

/-! ### Graphs -/

/-- An instruction. -/
structure Node where
  id : NodeId
  name : String
  typeName : String := ""
  /-- The basic block that holds the instruction; absent for a floating one. -/
  block : Option Int := none
  root : Bool := false
  operands : List NodeId := []
  /-- The value of a constant. -/
  value : Option Float := none
  condition : Option String := none
  sideEffects : Option Bool := none
  deriving Repr

/-- Kind of the instruction. -/
def Node.kind (n : Node) : NodeKind :=
  .ofName n.name

/-- An edge between two instructions. -/
structure Edge where
  source : NodeId
  target : NodeId
  typeName : String
  /-- For an edge that leaves a condition: whether the condition holds. -/
  branch : Option Bool := none
  deriving DecidableEq, Repr

/-- Kind of the edge. -/
def Edge.kind (e : Edge) : EdgeKind :=
  .ofName e.typeName

/-- The high-level form of a method. -/
structure Graph where
  nodes : List Node
  edges : List Edge
  deriving Repr

/-- The dump flags the root, and the kind tells where a block begins. -/
instance : NodeRecord Node where
  id n := n.id
  name n := n.name
  isRoot n := n.root
  isBlockEntry n := n.kind == .begin

/-- The kind tells the block links. -/
instance : EdgeRecord Edge where
  source e := e.source
  target e := e.target
  isBlockLink e := e.kind == .block

end Hir

/-! ### Machine instructions -/

namespace Lir

/-- A machine instruction. -/
structure Instruction where
  id : Int
  name : String
  typeName : String := ""
  /-- Label of the basic block. -/
  block : String
  operands : List String := []
  result : Option String := none
  successors : List String := []
  deriving DecidableEq, Repr

/-- The low-level form of a method. -/
structure Listing where
  instructions : List Instruction
  deriving DecidableEq, Repr

end Lir

end IrView
