import IrView.Fault

/-!
# Paths and files

A path leads from the root or from the working folder through folders to its last name. `.` stays
in a folder and `..` goes back. A slash at the end asks for a folder.

What the program needs of a file system, as operations of some monad. The program itself does not
say where the files are: it runs on the files of a machine and on a file tree in memory alike.
-/

namespace IrView

namespace Cli

/-! ### Paths -/

/-- A path, taken apart. -/
structure Path where
  isAbsolute : Bool
  /-- The names between the slashes; none for the root. -/
  names : List String
  /-- Whether a slash stands at the end. -/
  asksFolder : Bool
  deriving DecidableEq, Repr

namespace Path

/-- The parts of a written path. -/
def ofText (path : String) : Path :=
  let cs := path.toList
  { isAbsolute := cs.head? == some '/'
    names := ((cs.splitOn '/').map String.ofList).filter fun name => !name.isEmpty
    asksFolder := cs.getLast? == some '/' }

/-- A path to the given names. -/
def toText (isAbsolute : Bool) (names : List String) : String :=
  (if isAbsolute then "/" else "") ++ "/".intercalate names

/-- The folders that lead to a path, innermost first. -/
def folders (path : String) : List String :=
  let p := ofText path
  let names := p.names.filter (· != ".")
  let lengths := (List.range names.length).reverse.filter (· != 0)
  lengths.map fun n => toText p.isAbsolute (names.take n)

end Path

/-! ### Failures -/

/-- Why a file operation failed. -/
structure FileFailure where
  kind : FaultKind
  /-- The text that the system gives. -/
  text : String
  deriving DecidableEq, Repr

namespace FileFailure

/-- There is no such file. -/
def notFound : FileFailure :=
  ⟨.fileNotFound, "No such file or directory (os error 2)"⟩

/-- There is something already where a folder is to be created. -/
def present : FileFailure :=
  ⟨.ioFailed, "File exists (os error 17)"⟩

/-- A file stands where the path goes on. -/
def notFolder : FileFailure :=
  ⟨.ioFailed, "Not a directory (os error 20)"⟩

/-- A folder stands where a file is expected. -/
def isFolder : FileFailure :=
  ⟨.ioFailed, "Is a directory (os error 21)"⟩

/-- There is no room for the text. -/
def noRoom : FileFailure :=
  ⟨.ioFailed, "No space left on device (os error 28)"⟩

/-- A name or the whole path has too many bytes. -/
def tooLong : FileFailure :=
  ⟨.ioFailed, "File name too long (os error 36)"⟩

/-- The file holds no text. -/
def notText : FileFailure :=
  ⟨.ioFailed, "stream did not contain valid UTF-8"⟩

/-- The failure as a fault. -/
def fault (f : FileFailure) : Fault :=
  .ofSystem f.kind f.text

end FileFailure

/-! ### Operations -/

/-- The file operations that the program uses. -/
structure Files (m : Type → Type) where
  /-- Whether there is anything at the path. -/
  isPresent : String → m Bool
  /-- Whether there is a file at the path. -/
  isFile : String → m Bool
  /-- Whether there is a folder at the path. -/
  isFolder : String → m Bool
  /-- The text of a file. -/
  readText : String → m (Except FileFailure String)
  /-- Creates a folder inside a folder that is there. -/
  createFolder : String → m (Except FileFailure Unit)
  /-- Writes a text to a file. -/
  writeText : String → String → m (Except FileFailure Unit)

namespace Files

variable {m : Type → Type} [Monad m]

/-- Creates a folder unless it is there. -/
def ensureFolder (files : Files m) (path : String) : m (Except FileFailure Unit) := do
  match ← files.createFolder path with
  | .ok () => return .ok ()
  | .error e => if ← files.isFolder path then return .ok () else return .error e

/-- Makes sure of the first folder. The others lead to it, innermost first; they are created only
if the first one cannot be, for want of a folder on the way. -/
def ensureFolders (files : Files m) : List String → m (Except FileFailure Unit)
  | [] => return .ok ()
  | path :: outer => do
    match ← files.ensureFolder path with
    | .ok () => return .ok ()
    | .error e =>
      if e.kind = .fileNotFound then
        match ← ensureFolders files outer with
        | .ok () => files.ensureFolder path
        | .error e => return .error e
      else return .error e

/-- Writes a text to a file, and creates the folders that lead to it. -/
def writeDeep (files : Files m) (path text : String) : m (Except FileFailure Unit) := do
  match ← files.ensureFolders (Path.folders path) with
  | .ok () => files.writeText path text
  | .error e => return .error e

end Files

end Cli

end IrView
