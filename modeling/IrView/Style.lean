import IrView.Dependency.Basic
import IrView.Form
import IrView.Number.Double

/-!
# Colors and labels

What a node or an edge looks like depends on its own record only.
-/

namespace IrView

namespace Style

/-! ### Palette -/

/-- The color of an edge that closes a cycle. -/
def backedgeColor : String := "#EE0000"

/-- The color of a condition. -/
def branchColor : String := "#A1EC76"

/-- The color of an instruction that leaves the method. -/
def returnColor : String := "#FFA807"

/-- The color of an instruction of no special kind. -/
def defaultColor : String := "#97C2FC"

/-- The color of a jump. -/
def gotoColor : String := "#C7E2FC"

/-- The color of an instruction that chooses a value by the way that led to it. -/
def phiColor : String := "#FFCA66"

/-- The color of control flow for a condition that holds. -/
def trueBranchColor : String := "#5aa52b"

/-- The color of control flow for a condition that does not hold. -/
def falseBranchColor : String := "#7C29F0"

/-- The color of unconditional control flow. -/
def flowColor : String := "#87B2EC"

/-- The color of an edge to an operand. -/
def operandColor : String := "#808080"

/-- The color of an edge that orders two instructions. -/
def scheduleColor : String := "#FDBFC9"

/-- The color of all other edges between instructions. -/
def unknownColor : String := "#000000"

/-- The color of a pass or an artifact that is switched off. -/
def disabledColor : String := "#DCDCDC"

/-- The color of a pass that is an artifact as well. -/
def passArtifactColor : String := "#BA55D3"

/-- The color of a pass. -/
def passColor : String := "#87CEEB"

/-- The color of an artifact. -/
def artifactColor : String := "#8FBC8F"

/-- The color of an edge to what a pass modifies. -/
def modifiesColor : String := "#DC143C"

/-- The color of a schedule edge. -/
def orderColor : String := "#66CDAA"

/-- The color of a schedule edge between direct neighbors. -/
def immediateOrderColor : String := "#FF7F50"

/-- The color of all other relations. -/
def relationColor : String := "#A9A9A9"

/-! ### Instructions -/

/-- Color of an instruction. A node that stands for a whole block does not tell a jump apart. -/
def nodeColor (kind : Hir.NodeKind) (wholeBlock : Bool) : String :=
  match kind with
  | .goto => if wholeBlock then defaultColor else gotoColor
  | .branch => branchColor
  | .ret => returnColor
  | .phi => phiColor
  | _ => defaultColor

/-- The operator that a condition code stands for. -/
def conditionSymbol (condition : Option String) : String :=
  match condition with
  | some "GE" => ">="
  | some "GT" => ">"
  | some "LE" => "<="
  | some "LT" => "<"
  | some "EQ" => "=="
  | some "NE" => "!="
  | _ => "?"

/-- The text of a constant. A whole number below `10 ^ 15` has no sign of zero. -/
def valueText (x : Float) : String :=
  match Number.whole? x with
  | some i => if i.natAbs < Nat.pow 10 15 then toString i else Number.text x
  | none => Number.text x

/-- A reference to an operand. -/
def reference (id : NodeId) : String :=
  "#" ++ toString id

/-- A reference to the operand at a position, which may be missing. -/
def operandAt (operands : List NodeId) (i : Nat) : String :=
  match operands[i]? with
  | some id => reference id
  | none => "#?"

/-- The two operands of a condition around its operator. -/
def comparison (n : Hir.Node) : String :=
  operandAt n.operands 0 ++ " " ++ conditionSymbol n.condition ++ " " ++ operandAt n.operands 1

/-- All operands. -/
def operandList (operands : List NodeId) : String :=
  ",".intercalate (operands.map reference)

/-- The operands as they stand in a label. -/
def operandText (n : Hir.Node) : String :=
  match n.kind with
  | .branch | .branchAssumption => comparison n
  | _ => operandList n.operands

/-- The full label of an instruction. -/
def nodeLabel (n : Hir.Node) : String :=
  let value := match n.kind, n.value with
    | .const, some x => ": " ++ valueText x
    | _, _ => ""
  let operands := if n.operands.isEmpty then "" else "[" ++ operandText n ++ "]"
  "[" ++ toString n.id ++ "]: " ++ n.name ++ value ++ operands

/-- The label of an instruction that ends a block. -/
def shortLabel (n : Hir.Node) : String :=
  match n.kind with
  | .const =>
    match n.value with
    | some x => "Const: " ++ valueText x
    | none => "Const"
  | .ret =>
    match n.operands with
    | id :: _ => "RETURN " ++ reference id
    | [] => "RETURN"
  | .branch => "IF [" ++ comparison n ++ "]"
  | .branchAssumption => "IFAssumption [" ++ comparison n ++ "]"
  | _ => if n.operands.isEmpty then n.name else n.name ++ " " ++ operandList n.operands

/-- The name of a value type without the marks that the compiler adds. -/
def displayType (typeName : String) : String :=
  typeName.replace "TypeID" ""

/-! ### Edges between instructions -/

/-- Color of an edge. -/
def edgeColor (e : Hir.Edge) : String :=
  match e.kind with
  | .flow =>
    match e.branch with
    | some true => trueBranchColor
    | some false => falseBranchColor
    | none => flowColor
  | .operand => operandColor
  | .schedule => scheduleColor
  | .block | .unknown => unknownColor

/-- Whether edges of a kind are dashed. -/
def isDashed (kind : Hir.EdgeKind) : Bool :=
  kind == .block

/-- The mark of a conditional edge. -/
def branchLabel? (e : Hir.Edge) : Option String :=
  e.branch.map fun taken => if taken then "T" else "F"

/-- The name of an edge kind in a label. -/
def kindLabel (kind : Hir.EdgeKind) : String :=
  match kind with
  | .unknown => "unknown"
  | kind => kind.wireName

/-- The label of an edge: its branch for conditional control flow, and else its kind. -/
def edgeLabel (e : Hir.Edge) : String :=
  match e.kind with
  | .flow => (branchLabel? e).getD (kindLabel .flow)
  | kind => kindLabel kind

/-! ### Dependencies -/

/-- Color of a pass or an artifact. -/
def dependencyColor (n : Dependency.Node) : String :=
  if !n.enabled then disabledColor
  else if n.isPass && n.isArtifact then passArtifactColor
  else if n.isPass then passColor
  else artifactColor

/-- Color of a relation. -/
def relationColorOf (relation : Dependency.Relation) : String :=
  match relation with
  | .modifies => modifiesColor
  | .before | .after => orderColor
  | .immediatelyBefore | .immediatelyAfter => immediateOrderColor
  | _ => relationColor

end Style

end IrView
