/-!
# Faults

A fault says what kind of thing went wrong, in which operation, and with what details. Building a
graph never fails: faults arise where a dump or a configuration is read, where a pass or a view is
chosen, and where files are touched.

`Fault.describe` is the one-line text of a fault, `Fault.report` the text over several lines.
-/

namespace IrView

/-- What kind of thing went wrong. -/
inductive FaultKind where
  | unexpected
  | configInvalid
  | invalidArgument
  | parseFailed
  | passNotFound
  | viewUnavailable
  | fileNotFound
  | permissionDenied
  | ioFailed
  /-- A value cannot be written. No function has a fault of this kind, see `render`. -/
  | serializationFailed
  deriving DecidableEq, Repr

/-- The name of a kind, as it is shown. -/
def FaultKind.name : FaultKind → String
  | .unexpected => "Unexpected"
  | .configInvalid => "ConfigInvalid"
  | .invalidArgument => "InvalidArgument"
  | .parseFailed => "ParseFailed"
  | .passNotFound => "PassNotFound"
  | .viewUnavailable => "ViewUnavailable"
  | .fileNotFound => "FileNotFound"
  | .permissionDenied => "PermissionDenied"
  | .ioFailed => "IoFailed"
  | .serializationFailed => "SerializationFailed"

/-- Whether what the user gave is at fault, and not the environment. -/
def FaultKind.isUsers : FaultKind → Bool
  | .configInvalid | .invalidArgument | .parseFailed | .passNotFound | .viewUnavailable => true
  | _ => false

/-- The two texts of a failure that led to a fault. -/
structure Cause where
  line : String
  report : String
  deriving DecidableEq, Repr

/-- A fault. -/
structure Fault where
  kind : FaultKind
  message : String
  /-- The operation that failed; empty as long as it is not known. -/
  operation : String := ""
  /-- Details as keys and values, in the order in which they were added. -/
  context : List (String × String) := []
  cause : Option Cause := none
  deriving DecidableEq, Repr

namespace Fault

/-! ### Texts -/

/-- The details between braces. -/
def contextText (context : List (String × String)) : String :=
  ", context \x7b " ++ ", ".intercalate (context.map fun (key, value) => key ++ ": " ++ value) ++
    " \x7d"

/-- The fault on one line. Parts that are empty are left out. -/
def describe (f : Fault) : String :=
  f.kind.name ++ (if f.operation.isEmpty then "" else " at " ++ f.operation) ++
    (if f.context.isEmpty then "" else contextText f.context) ++
    (if f.message.isEmpty then "" else " => " ++ f.message)

/-- The fault over several lines, together with what led to it. -/
def report (f : Fault) : String :=
  f.kind.name ++ " at " ++ f.operation ++ "\n" ++
    (if f.message.isEmpty then "" else "\n    Message: " ++ f.message ++ "\n") ++
    (if f.context.isEmpty then "" else "\n    Context:\n" ++
      String.join (f.context.map fun (key, value) => "        " ++ key ++ ": " ++ value ++ "\n")) ++
    (match f.cause with
      | some cause => "\n    Source: " ++ cause.report ++ "\n"
      | none => "")

/-! ### Details -/

/-- Adds a detail. -/
def addContext (f : Fault) (key value : String) : Fault :=
  { f with context := f.context ++ [(key, value)] }

/-- Names the operation that failed. An operation that was named before becomes a detail, so the
chain of calls is kept. -/
def inOperation (f : Fault) (operation : String) : Fault :=
  let f := if f.operation.isEmpty then f else f.addContext "called" f.operation
  { f with operation }

/-- Keeps another fault as the cause of this one. -/
def causedBy (f : Fault) (cause : Fault) : Fault :=
  { f with cause := some ⟨cause.describe, cause.report⟩ }

/-! ### Particular faults -/

/-- There is no file at the path. -/
def fileNotFound (path : String) : Fault :=
  { kind := .fileNotFound, message := s!"file '{path}' not found", context := [("path", path)] }

/-- The dump has no such pass. -/
def passNotFound (pass : String) : Fault :=
  { kind := .passNotFound, message := s!"pass '{pass}' not found", context := [("pass", pass)] }

/-- The pass has nothing to show in the view. -/
def viewUnavailable (view pass : String) : Fault :=
  { kind := .viewUnavailable
    message := s!"pass '{pass}' has nothing to render for the {view} view"
    context := [("view", view), ("pass", pass)] }

/-- A failure of the operating system, known by its text. -/
def ofSystem (kind : FaultKind) (text : String) : Fault :=
  { kind, message := text, operation := "io", cause := some ⟨text, text⟩ }

end Fault

end IrView
