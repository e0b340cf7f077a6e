import IrView.Cli.Run

/-!
# The command line

Runs the program on the files of the machine.
-/

namespace IrView

namespace Cli

/-- The text of a system failure with its number. -/
def systemFailure (kind : FaultKind) (code : UInt32) (details : String) : FileFailure :=
  ⟨kind, details ++ " (os error " ++ toString code ++ ")"⟩

/-- A failure of the machine. -/
def failureOf : IO.Error → FileFailure
  | .noFileOrDirectory _ code details => systemFailure .fileNotFound code details
  | .noSuchThing _ code details => systemFailure .fileNotFound code details
  | .permissionDenied _ code details => systemFailure .permissionDenied code details
  | .alreadyExists _ code details => systemFailure .ioFailed code details
  | .inappropriateType _ code details => systemFailure .ioFailed code details
  | .invalidArgument _ code details => systemFailure .ioFailed code details
  | .resourceExhausted _ code details => systemFailure .ioFailed code details
  | .otherError code details => systemFailure .ioFailed code details
  | e => ⟨.ioFailed, toString e⟩

/-- What an action gives, or how it failed. -/
def attempt {α : Type} (action : IO α) : IO (Except FileFailure α) := do
  match ← action.toBaseIO with
  | .ok a => return .ok a
  | .error e => return .error (failureOf e)

/-- Whether there is anything at the path. -/
def isPresent (path : String) : IO Bool := do
  match ← attempt (IO.FS.realPath path) with
  | .ok _ => return true
  | .error _ => return false

/-- Whether there is a folder at the path. -/
def isFolder (path : String) : IO Bool :=
  isPresent (path ++ "/.")

/-- The file operations of the machine. -/
def machineFiles : Files IO where
  isPresent := isPresent
  isFile path := do return (← isPresent path) && !(← isFolder path)
  isFolder := isFolder
  readText path := do
    match ← attempt (IO.FS.readBinFile path) with
    | .ok bytes =>
      match String.fromUTF8? bytes with
      | some text => return .ok text
      | none => return .error .notText
    | .error e => return .error e
  createFolder path := attempt (IO.FS.createDir path)
  writeText path text := attempt (IO.FS.writeFile path text)

end Cli

end IrView

/-- Runs the program in the working folder. -/
def main (arguments : List String) : IO UInt32 := do
  let folder ← IO.currentDir
  let outcome ← IrView.Cli.run IrView.Cli.machineFiles (toString folder ++ "/") arguments
  (← IO.getStdout).putStr outcome.stdout
  (← IO.getStderr).putStr outcome.stderr
  return outcome.exit
