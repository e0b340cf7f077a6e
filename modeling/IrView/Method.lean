import IrView.Dependency.Basic
import IrView.Descriptor
import IrView.Fault
import IrView.Form
import IrView.Number.Basic

/-!
# Methods and their passes

A dump holds one method and, for each pass that ran over it, the forms that the method had after
the pass. Passes are chosen by position or by name.
-/

namespace IrView

/-! ### Passes -/

/-- A pass and the forms of the method that it left behind. -/
structure Pass where
  /-- Position in the dump, from zero. -/
  index : Nat
  name : String
  /-- Time spent, in nanoseconds. -/
  nanos : Nat
  hir : Option Hir.Graph
  lir : Option Lir.Listing

namespace Pass

/-- The name up to the last occurrence of the word `Pass`. -/
def displayName (p : Pass) : String :=
  match Text.beforeLast? "Pass".toList p.name.toList with
  | some front => String.ofList front
  | none => p.name

/-- Whether the pass does nothing but print. -/
def isPrinter (p : Pass) : Bool :=
  "Printer".toList.isSuffixOf p.displayName.toList

/-- The percentage of a total time that the pass took; zero of no time at all. -/
def share (p : Pass) (total : Nat) : Float :=
  if total = 0 then 0 else Float.ofNat p.nanos / Float.ofNat total * 100

end Pass

/-! ### Methods -/

/-- A method as the compiler dumped it. -/
structure Method where
  className : String
  name : String
  descriptor : String
  dependencies : Dependency.Graph
  passes : List Pass

namespace Method

/-- The time spent in all passes, in nanoseconds. -/
def nanos (m : Method) : Nat :=
  Number.total Pass.nanos m.passes

/-- The first pass with the given name, or else the first one that is displayed under it. -/
def passNamed? (m : Method) (name : String) : Option Pass :=
  (m.passes.find? fun p => p.name == name).or (m.passes.find? fun p => p.displayName == name)

/-- The pass that a user names by position or by name. A text that reads as a position is never
taken for a name. -/
def findPass (m : Method) (selector : String) : Except Fault Pass :=
  let found := match Number.readIndex? selector with
    | some index => m.passes[index]?
    | none => m.passNamed? selector
  match found with
  | some p => .ok p
  | none => .error ((Fault.passNotFound selector).inOperation "method::find_pass")

/-- The passes in a listing, which may leave out those that only print. -/
def listed (m : Method) (ignorePrinters : Bool) : List Pass :=
  m.passes.filter fun p => !(ignorePrinters && p.isPrinter)

/-- The header of the method. -/
def header (m : Method) : String :=
  (Descriptor.signature m.descriptor).header m.name

end Method

end IrView
