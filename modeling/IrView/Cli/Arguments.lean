import IrView.Cli.Toggles
import IrView.Number.Basic

/-!
# Command line arguments

Arguments are read from left to right, and reading ends at the first one that does not fit. A long
option takes its value from the same argument behind an equals sign, or from the next one; a short
option also directly behind its letter. A value in an argument of its own does not begin with a
dash, unless it is nothing but a dash. A toggle without a value is switched on.
-/

namespace IrView

namespace Cli

/-- What the command line asks for. -/
structure Arguments where
  file : String := ""
  view : Option String := none
  pass : Option String := none
  format : Option String := none
  legend : Bool := false
  search : Option String := none
  focus : Option NodeId := none
  listPasses : Bool := false
  ignorePrinters : Bool := false
  noClusters : Bool := false
  config : Option String := none
  toggles : Toggles := {}
  output : Option String := none
  deriving DecidableEq, Repr

/-- What becomes of a command line. -/
inductive Command where
  | run (arguments : Arguments)
  | version
  | help
  /-- The arguments do not fit. -/
  | usage
  deriving DecidableEq, Repr

namespace Arguments

/-! ### Options -/

/-- What follows an option. -/
inductive Takes where
  /-- Nothing. -/
  | nothing
  /-- A truth value, which may be left out. -/
  | toggle
  /-- A text. -/
  | text
  /-- The path of a file, which is not empty. -/
  | path
  /-- A node id, which may be negative. -/
  | id
  deriving DecidableEq, Repr

/-- What follows an option, by its long name. -/
def takes? (name : String) : Option Takes :=
  [("file", Takes.path), ("view", .text), ("pass", .text), ("format", .text),
    ("legend", .nothing), ("search", .text), ("focus", .id), ("list-passes", .nothing),
    ("ignore-printers", .nothing), ("no-clusters", .nothing), ("config", .path),
    ("collapse-blocks", .toggle), ("branch-labels", .toggle), ("backedges", .toggle),
    ("levels", .toggle), ("hide-source-states", .toggle), ("hide-floating", .toggle),
    ("detail-backedges", .toggle), ("group-edges", .toggle), ("only-enabled", .toggle),
    ("hide-requires", .toggle), ("hide-provides", .toggle), ("hide-modifies", .toggle),
    ("hide-schedule", .toggle), ("canonical-schedule", .toggle), ("dependency-levels", .toggle),
    ("output", .path)].lookup name

/-- The long name of a short option with a value. -/
def longName? (letter : Char) : Option String :=
  [('f', "file"), ('p', "pass"), ('o', "output")].lookup letter

/-- The value of a toggle. -/
def bool? (value : String) : Option Bool :=
  if value = "true" then some true else if value = "false" then some false else none

/-- Sets a toggle. -/
def setToggle (t : Toggles) (name : String) (value : Bool) : Toggles :=
  match name with
  | "collapse-blocks" => { t with cfg := { t.cfg with collapseBlocks := some value } }
  | "branch-labels" => { t with cfg := { t.cfg with branchLabels := some value } }
  | "backedges" => { t with cfg := { t.cfg with backedges := some value } }
  | "levels" => { t with cfg := { t.cfg with levels := some value } }
  | "hide-source-states" =>
    { t with detail := { t.detail with hideSourceStates := some value } }
  | "hide-floating" => { t with detail := { t.detail with hideFloating := some value } }
  | "detail-backedges" => { t with detail := { t.detail with backedges := some value } }
  | "group-edges" => { t with dependency := { t.dependency with groupEdges := some value } }
  | "only-enabled" => { t with dependency := { t.dependency with onlyEnabled := some value } }
  | "hide-requires" => { t with dependency := { t.dependency with hideRequires := some value } }
  | "hide-provides" => { t with dependency := { t.dependency with hideProvides := some value } }
  | "hide-modifies" => { t with dependency := { t.dependency with hideModifies := some value } }
  | "hide-schedule" => { t with dependency := { t.dependency with hideSchedule := some value } }
  | "canonical-schedule" =>
    { t with dependency := { t.dependency with canonicalSchedule := some value } }
  | "dependency-levels" => { t with dependency := { t.dependency with levels := some value } }
  | _ => t

/-- Sets an option to a value, or switches it on if there is none. -/
def set? (a : Arguments) (name : String) (value : Option String) : Option Arguments :=
  match takes? name, value with
  | some .nothing, none =>
    match name with
    | "legend" => some { a with legend := true }
    | "list-passes" => some { a with listPasses := true }
    | "ignore-printers" => some { a with ignorePrinters := true }
    | _ => some { a with noClusters := true }
  | some .toggle, value =>
    (bool? (value.getD "true")).map fun b => { a with toggles := setToggle a.toggles name b }
  | some .text, some value =>
    match name with
    | "view" => some { a with view := some value }
    | "pass" => some { a with pass := some value }
    | "format" => some { a with format := some value }
    | _ => some { a with search := some value }
  | some .path, some value =>
    if value.isEmpty then none
    else match name with
      | "file" => some { a with file := value }
      | "config" => some { a with config := some value }
      | _ => some { a with output := some value }
  | some .id, some value => (Number.readId? value).map fun id => { a with focus := some id }
  | _, _ => none

/-! ### Single arguments -/

/-- Whether an argument can be the value of an option before it. -/
def isValue (takes : Takes) (argument : String) : Bool :=
  match argument.toList with
  | '-' :: _ :: _ => takes == .id && (Number.readId? argument).isSome
  | _ => true

/-- Splits a long option from a value behind its first equals sign. -/
def splitLong (cs : List Char) : String × Option String :=
  (String.ofList (cs.takeWhile (· != '=')),
    (Text.afterFirst? '=' cs).map String.ofList)

/-- An argument. -/
inductive Part where
  | version
  | help
  /-- The end of all options. -/
  | noMoreOptions
  /-- An option, by its long name, and a value in the same argument. -/
  | option (name : String) (value : Option String)
  /-- Anything else. -/
  | other

/-- What an argument says, taken by itself. -/
def Part.ofArgument (argument : String) : Part :=
  match argument.toList with
  | ['-', '-'] => .noMoreOptions
  | '-' :: '-' :: cs =>
    match splitLong cs with
    | ("version", none) => .version
    | ("help", none) => .help
    | (name, value) => .option name value
  | '-' :: 'V' :: _ => .version
  | '-' :: 'h' :: _ => .help
  | '-' :: letter :: cs =>
    match longName? letter with
    | some name =>
      match cs with
      | [] => .option name none
      | '=' :: cs => .option name (some (String.ofList cs))
      | cs => .option name (some (String.ofList cs))
    | none => .other
  | _ => .other

/-! ### All arguments -/

/-- An option that was given, with its value and the arguments behind it. A value may come from
the next argument. -/
def takeValue? (name : String) (attached : Option String) (rest : List String) :
    Option (Option String × List String) :=
  match takes? name, attached, rest with
  | none, _, _ => none
  | some .nothing, none, rest => some (none, rest)
  | some .nothing, some _, _ => none
  | some _, some value, rest => some (some value, rest)
  | some takes, none, next :: rest =>
    if isValue takes next then some (some next, rest)
    else if takes = .toggle then some (none, next :: rest)
    else none
  | some takes, none, [] => if takes = .toggle then some (none, []) else none

theorem length_le_of_takeValue? {name : String} {attached value : Option String}
    {rest rest' : List String} (h : takeValue? name attached rest = some (value, rest')) :
    rest'.length ≤ rest.length := by
  unfold takeValue? at h
  split at h
  · simp at h
  · simp_all
  · simp at h
  · simp_all
  · split at h
    · simp_all
    · split at h <;> simp_all
  · split at h <;> simp_all

/-- Reads arguments on top of those that were read before; no option is given twice. -/
def readFrom (a : Arguments) (given : List String) (arguments : List String) : Command :=
  match arguments with
  | [] => if given.contains "file" then .run a else .usage
  | argument :: rest =>
    match Part.ofArgument argument with
    | .version => .version
    | .help => .help
    | .noMoreOptions => if rest.isEmpty && given.contains "file" then .run a else .usage
    | .other => .usage
    | .option name attached =>
      match _h : takeValue? name attached rest with
      | some (value, rest') =>
        if given.contains name then .usage
        else
          match a.set? name value with
          | some a => readFrom a (name :: given) rest'
          | none => .usage
      | none => .usage
  termination_by arguments.length
  decreasing_by
    have := length_le_of_takeValue? _h
    rw [List.length_cons]
    omega

/-- Reads the command line. -/
def read (arguments : List String) : Command :=
  readFrom {} [] arguments

end Arguments

end Cli

end IrView
