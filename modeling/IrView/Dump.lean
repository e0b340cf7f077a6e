import IrView.Json.Reader
import IrView.Json.Record
import IrView.Method
import IrView.Number.Double
import IrView.Text.Basic

/-!
# Reading a dump

A dump is the JSON text of one method. The functions here say which record is read from which
members. A dump is refused as a whole if it is not well formed or if a record misses a member or
holds a wrong one.
-/

namespace IrView

namespace Dump

open Json (Value Source parse)

/-! ### Dependencies -/

/-- A flag, written as a truth value or as text. A text is true if it reads `true`, in any case and
between any blanks. -/
def readFlag : Value → Option Bool
  | .bool b => some b
  | .string content => content.map fun s => (Text.trim s).map Char.toLower == "true"
  | _ => none

/-- A pass or an artifact. -/
def readDependencyNode (v : Value) : Option Dependency.Node := do
  let fields ← v.fields? ["id", "name", "pass", "artifact", "enabled"]
  return {
    id := ← fields.required "id" Value.int?
    name := ← fields.getD "name" "" Value.string?
    isPass := ← fields.getD "pass" false readFlag
    isArtifact := ← fields.getD "artifact" false readFlag
    enabled := ← fields.getD "enabled" true readFlag }

/-- An edge of either graph. -/
def readEdge (v : Value) : Option Hir.Edge := do
  let fields ← v.fields? ["from", "to", "type", "trueBranch"]
  return {
    source := ← fields.required "from" Value.int?
    target := ← fields.required "to" Value.int?
    typeName := ← fields.getD "type" "" Value.string?
    branch := ← fields.optional "trueBranch" Value.bool? }

/-- An edge between passes and artifacts; a branch is passed over. -/
def readDependencyEdge (v : Value) : Option Dependency.Edge :=
  (readEdge v).map fun e => .ofLabel e.source e.target e.typeName

/-- The dependency graph. -/
def readDependencies (v : Value) : Option Dependency.Graph := do
  let fields ← v.fields? ["nodes", "edges"]
  return {
    nodes := ← fields.getD "nodes" [] (Value.list? readDependencyNode)
    edges := ← fields.getD "edges" [] (Value.list? readDependencyEdge) }

/-! ### Instructions -/

/-- An instruction. -/
def readNode (v : Value) : Option Hir.Node := do
  let fields ← v.fields?
    ["id", "name", "type", "BB", "root", "operands", "value", "condition", "sideEffects"]
  return {
    id := ← fields.required "id" Value.int?
    name := ← fields.getD "name" "" Value.string?
    typeName := ← fields.getD "type" "" Value.string?
    block := ← fields.optional "BB" Value.int?
    root := (← fields.getD "root" none (Value.nullable? Value.bool?)).getD false
    operands :=
      (← fields.getD "operands" none (Value.nullable? (Value.list? Value.int?))).getD []
    value := ← fields.optional "value" Value.float?
    condition := ← fields.optional "condition" Value.string?
    sideEffects := ← fields.optional "sideEffects" Value.bool? }

/-- The high-level form of the method. -/
def readHir (v : Value) : Option Hir.Graph := do
  let fields ← v.fields? ["nodes", "edges"]
  return {
    nodes := ← fields.getD "nodes" [] (Value.list? readNode)
    edges := ← fields.getD "edges" [] (Value.list? readEdge) }

/-- A machine instruction. -/
def readInstruction (v : Value) : Option Lir.Instruction := do
  let fields ← v.fields? ["id", "name", "type", "BB", "result", "operands", "successors"]
  return {
    id := ← fields.required "id" Value.int?
    name := ← fields.getD "name" "" Value.string?
    typeName := ← fields.getD "type" "" Value.string?
    block := ← fields.getD "BB" "" Value.string?
    result := ← fields.optional "result" Value.string?
    operands := (← fields.optional "operands" (Value.list? Value.string?)).getD []
    successors := (← fields.optional "successors" (Value.list? Value.string?)).getD [] }

/-- The low-level form of the method. -/
def readLir (v : Value) : Option Lir.Listing := do
  let fields ← v.fields? ["instructions"]
  return { instructions := ← fields.getD "instructions" [] (Value.list? readInstruction) }

/-! ### Methods -/

/-- A time in whole nanoseconds: a half is rounded up, a negative time counts as none, and a very
long one as the greatest that fits an unsigned 64-bit word. -/
def nanosOf (time : Float) : Nat :=
  match Number.Binary64.ofFloat time with
  | .finite false m e =>
    let (num, den) := Number.ratio m e
    min ((2 * num + den) / (2 * den)) (Nat.pow 2 64 - 1)
  | _ => 0

/-- A pass; its position is given. -/
def readPass (v : Value) : Option (Nat → Pass) := do
  let fields ← v.fields? ["name", "time", "HIR", "LIR"]
  let name ← fields.getD "name" "" Value.string?
  let time ← fields.getD "time" 0 Value.float?
  let hir ← fields.optional "HIR" readHir
  let lir ← fields.optional "LIR" readLir
  return fun index => { index, name, nanos := nanosOf time, hir, lir }

/-- The method. -/
def readMethod (v : Value) : Option Method := do
  let fields ← v.fields? ["class", "method", "desc", "passDependencyGraph", "passes"]
  let className ← fields.getD "class" "" Value.string?
  let name ← fields.getD "method" "" Value.string?
  let descriptor ← fields.getD "desc" "" Value.string?
  let dependencies ← fields.getD "passDependencyGraph" ⟨[], []⟩ readDependencies
  let passes ← fields.getD "passes" [] (Value.list? readPass)
  return {
    className, name, descriptor, dependencies
    passes := passes.mapIdx fun index pass => pass index }

/-- The method that a source holds, if it holds a dump. -/
def read? (source : Source) : Option Method :=
  (parse source).bind readMethod

/-- The fault of a source that holds no dump. -/
def fault : Fault :=
  { kind := .parseFailed, message := "not a dump of a method" }

/-- Reads a dump from its text. -/
def ofText (text : String) : Except Fault Method :=
  match read? (.ofString text) with
  | some m => .ok m
  | none => .error (fault.inOperation "load::from_json")

/-- Reads a dump from its bytes. -/
def ofBytes (bytes : List UInt8) : Except Fault Method :=
  match read? (.ofBytes bytes) with
  | some m => .ok m
  | none => .error (fault.inOperation "load::from_reader")

end Dump

end IrView
