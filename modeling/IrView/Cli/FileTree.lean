import IrView.Cli.Files
import IrView.Json.Source

/-!
# A file tree in memory

A file tree lists files and folders by the names that lead to them from the root. Paths are walked
name by name, as a system does it: every name but the last one must be that of a folder, going
back from the root stays there, and no name is longer than 255 bytes.

Besides what it is given, a tree has the folders and the devices that every system has.
-/

namespace IrView

namespace Cli

/-- The names that lead from the root to a file or a folder. -/
abbrev Place := List String

/-- Files and folders, and what was written to the devices that show it. -/
structure FileTree where
  files : List (Place × List UInt8)
  folders : List Place
  output : String := ""
  errors : String := ""

/-- A device. All of them are read as empty. -/
inductive Device where
  /-- Keeps nothing. -/
  | null
  /-- Has no room for anything. -/
  | full
  /-- Shows what the program puts out. -/
  | output
  /-- Shows what the program complains about. -/
  | errors

/-- What there may be at a place. -/
inductive Entry where
  | folder
  | file (bytes : List UInt8)
  | device (d : Device)

namespace FileTree

/-! ### Places -/

/-- The working folder, at which relative paths start. -/
def home : Place :=
  ["tmp", "work"]

/-- The folders in the root. -/
def rootFolders : List String :=
  ["bin", "boot", "dev", "etc", "home", "lib", "media", "mnt", "opt", "proc", "root", "run",
    "sbin", "srv", "sys", "tmp", "usr", "var"]

/-- Where a name leads from a folder. -/
def stepTo (place : Place) (name : String) : Place :=
  if name = "." then place else if name = ".." then place.dropLast else place ++ [name]

/-- Where a path starts. -/
def start (p : Path) : Place :=
  if p.isAbsolute then [] else home

/-- Gives the file at a place these bytes, and adds it if there is none. -/
def put (t : FileTree) (place : Place) (bytes : List UInt8) : FileTree :=
  if (t.files.lookup place).isSome then
    { t with files := t.files.map fun (p, old) => (p, if p = place then bytes else old) }
  else { t with files := t.files ++ [(place, bytes)] }

/-- Adds a file and the folders that its path goes through. -/
def add (t : FileTree) (path : String) (bytes : List UInt8) : FileTree :=
  let p := Path.ofText path
  let visited := (List.range p.names.length).map fun n => (p.names.take n).foldl stepTo (start p)
  { t with folders := t.folders ++ visited }.put (p.names.foldl stepTo (start p)) bytes

/-- The tree with the given files, whose paths start at the working folder. -/
def ofFiles (files : List (String × List UInt8)) : FileTree :=
  files.foldl (fun t (path, bytes) => t.add path bytes)
    { files := [], folders := home :: rootFolders.map fun name => [name] }

/-- The device at a place. -/
def device? : Place → Option Device
  | ["dev", "null"] | ["dev", "stdin"] => some .null
  | ["dev", "full"] => some .full
  | ["dev", "stdout"] => some .output
  | ["dev", "stderr"] => some .errors
  | _ => none

/-- What there is at a place. -/
def entry? (t : FileTree) (place : Place) : Option Entry :=
  if place.isEmpty || t.folders.contains place then some .folder
  else ((device? place).map .device).or ((t.files.lookup place).map .file)

/-! ### Walking a path -/

/-- Whether a name does not name an entry of its own. -/
def isDots (name : String) : Bool :=
  name == "." || name == ".."

/-- What a folder holds under a name. -/
def lookIn (t : FileTree) (place : Place) (name : String) : Except FileFailure (Option Entry) :=
  if 255 < name.utf8ByteSize then .error .tooLong else .ok (t.entry? (place ++ [name]))

/-- Goes from a folder to a folder. -/
def enter (t : FileTree) (place : Place) (name : String) : Except FileFailure Place :=
  if isDots name then .ok (stepTo place name)
  else do
    match ← t.lookIn place name with
    | some .folder => .ok (place ++ [name])
    | some _ => .error .notFolder
    | none => .error .notFound

/-- Goes through folders, one after the other. -/
def enterAll (t : FileTree) (p : Path) (names : List String) : Except FileFailure Place :=
  names.foldlM t.enter (start p)

/-- The parts of a path that is not too long. -/
def parts (path : String) : Except FileFailure Path :=
  if 4096 ≤ path.utf8ByteSize then .error .tooLong else .ok (Path.ofText path)

/-- What a path leads to. -/
def find (t : FileTree) (path : String) : Except FileFailure Entry := do
  let p ← parts path
  match p.names.getLast? with
  | none => .ok .folder
  | some last =>
    let place ← t.enterAll p p.names.dropLast
    if isDots last || p.asksFolder then
      let _ ← t.enter place last
      return .folder
    match ← t.lookIn place last with
    | some entry => return entry
    | none => throw .notFound

/-! ### Operations -/

/-- Whether there is anything at the path. -/
def isPresent (t : FileTree) (path : String) : Bool :=
  match t.find path with
  | .ok _ => true
  | .error _ => false

/-- Whether there is a file at the path. -/
def isFile (t : FileTree) (path : String) : Bool :=
  match t.find path with
  | .ok (.file _) => true
  | _ => false

/-- Whether there is a folder at the path. -/
def isFolder (t : FileTree) (path : String) : Bool :=
  match t.find path with
  | .ok .folder => true
  | _ => false

/-- The text of a file. -/
def readText (t : FileTree) (path : String) : Except FileFailure String := do
  match ← t.find path with
  | .folder => throw .isFolder
  | .device _ => return ""
  | .file bytes =>
    match (Json.Source.ofBytes bytes).text? with
    | some text => return text
    | none => throw .notText

/-- Creates a folder. -/
def createFolder (t : FileTree) (path : String) : Except FileFailure FileTree := do
  let p ← parts path
  match p.names.getLast? with
  | none => throw .present
  | some last =>
    let place ← t.enterAll p p.names.dropLast
    if isDots last then throw .present
    match ← t.lookIn place last with
    | some _ => throw .present
    | none => return { t with folders := (place ++ [last]) :: t.folders }

/-- Writes a text to a device. -/
def writeDevice (t : FileTree) (text : String) : Device → Except FileFailure FileTree
  | .null => .ok t
  | .full => if text.isEmpty then .ok t else .error .noRoom
  | .output => .ok { t with output := t.output ++ text }
  | .errors => .ok { t with errors := t.errors ++ text }

/-- Writes a text to a file. -/
def writeText (t : FileTree) (path text : String) : Except FileFailure FileTree := do
  let p ← parts path
  match p.names.getLast? with
  | none => throw .isFolder
  | some last =>
    let place ← t.enterAll p p.names.dropLast
    if isDots last || p.asksFolder then throw .isFolder
    match ← t.lookIn place last with
    | some .folder => throw .isFolder
    | some (.device d) => t.writeDevice text d
    | some (.file _) | none => return t.put (place ++ [last]) text.toUTF8.toList

/-- Keeps the tree that an operation gives, if it succeeds. -/
def keep (result : Except FileFailure FileTree) : StateM FileTree (Except FileFailure Unit) := do
  match result with
  | .ok t => set t; return .ok ()
  | .error e => return .error e

/-- The file operations on a tree that is carried along. -/
def operations : Files (StateM FileTree) where
  isPresent path := do return (← get).isPresent path
  isFile path := do return (← get).isFile path
  isFolder path := do return (← get).isFolder path
  readText path := do return (← get).readText path
  createFolder path := do keep ((← get).createFolder path)
  writeText path text := do keep ((← get).writeText path text)

/-! ### Changes -/

/-- The files of the working folder that a tree `before` did not have or had with other contents,
by their paths. -/
def written (before after : FileTree) : List (String × List UInt8) :=
  let changed := after.files.filter fun (place, bytes) =>
    home.isPrefixOf place && before.files.lookup place != some bytes
  changed.map fun (place, bytes) => (Path.toText false (place.drop home.length), bytes)

end FileTree

end Cli

end IrView
