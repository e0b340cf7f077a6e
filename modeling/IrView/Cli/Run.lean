import IrView.Cli.Arguments
import IrView.Cli.Config
import IrView.Cli.Files
import IrView.Cli.Request
import IrView.Dump

/-!
# The whole program

A run reads the configuration, makes a request of the command line and the configuration, reads
the dump, and shows or writes the answer. The first fault ends it.
-/

namespace IrView

namespace Cli

/-- What a run leaves behind. -/
structure Outcome where
  exit : UInt32
  stdout : String := ""
  stderr : String := ""
  deriving DecidableEq, Repr

/-! ### Requests -/

/-- The request of a command line and a configuration. -/
def requestOf (a : Arguments) (c : Config) : Except Fault Request := do
  let view ← ViewKind.read ((a.view.or c.view).getD "cfg")
  let format ← OutputFormat.read ((a.format.or c.format).getD "dot")
  return {
    view, format
    pass := a.pass
    cfg := a.toggles.cfg.apply c.cfgOptions
    detail := a.toggles.detail.apply c.detailOptions a.toggles.cfg.backedges
    dependency := a.toggles.dependency.apply c.dependencyOptions a.toggles.cfg.levels
    legend := a.legend
    search := a.search
    focus := a.focus
    listPasses := a.listPasses
    ignorePrinters := a.ignorePrinters || c.ignorePrinters.getD false
    cluster := !a.noClusters }

/-- The answer to a request. -/
def answer (m : Method) (r : Request) : Except Fault String :=
  if r.listPasses then .ok (passTable m r.ignorePrinters) else renderView m r

/-! ### Files -/

variable {m : Type → Type} [Monad m]

/-- Reads the configuration at a path. -/
def readConfig (files : Files m) (path : String) : ExceptT Fault m Config := do
  match ← files.readText path with
  | .error e => throw (e.fault.addContext "path" path)
  | .ok text =>
    match Config.ofText text with
    | .ok c => return c
    | .error e => throw (e.addContext "path" path)

/-- The configuration: the one that is named, or else the one in the folder, if there is one. -/
def loadConfig (files : Files m) (folder : String) (path : Option String) :
    ExceptT Fault m Config := do
  match path with
  | some path =>
    if ← files.isFile path then readConfig files path
    else throw ((Fault.fileNotFound path).inOperation "config::load")
  | none =>
    let path := folder ++ "irscope.toml"
    if ← files.isFile path then readConfig files path else return {}

/-- The dump at a path. -/
def loadDump (files : Files m) (path : String) : ExceptT Fault m Method := do
  if !(← files.isPresent path) then
    throw ((Fault.fileNotFound path).inOperation "load::from_path")
  match ← files.readText path with
  | .error e => throw ((e.fault.inOperation "load::from_path").addContext "path" path)
  | .ok text =>
    match Dump.ofText text with
    | .ok dump => return dump
    | .error e => throw ((e.inOperation "load::from_path").addContext "path" path)

/-- Writes the answer to a file. -/
def writeAnswer (files : Files m) (path text : String) : ExceptT Fault m Unit := do
  match ← files.writeDeep path text with
  | .error e => throw ((e.fault.inOperation "output::write").addContext "path" path)
  | .ok () => return ()

/-! ### Runs -/

/-- Does what the arguments ask for, and gives the text to show. -/
def perform (files : Files m) (folder : String) (a : Arguments) : ExceptT Fault m String := do
  let config ← loadConfig files folder a.config
  let request ← ExceptT.mk (pure (requestOf a config))
  let dump ← loadDump files a.file
  let text ← ExceptT.mk (pure (answer dump request))
  match a.output with
  | some path =>
    writeAnswer files path text
    return ""
  | none => return text

/-- The outcome of a fault. A fault of the user is told apart from other faults. -/
def outcomeOf (f : Fault) : Outcome :=
  { exit := if f.kind.isUsers then 2 else 1, stderr := "Error: " ++ f.describe ++ "\n" }

/-- How the program is called. -/
def usageText : String :=
  "Usage: irscope [OPTIONS] --file <FILE>\n"

/-- Runs the program in a folder, whose path ends in a slash unless it is empty. -/
def run (files : Files m) (folder : String) (arguments : List String) : m Outcome := do
  match Arguments.read arguments with
  | .version => return { exit := 0, stdout := "irscope 0.1.0\n" }
  | .help => return { exit := 0, stdout := usageText }
  | .usage =>
    return { exit := 2, stderr := "error: the arguments do not fit\n\n" ++ usageText }
  | .run a =>
    match ← (perform files folder a).run with
    | .ok text => return { exit := 0, stdout := text }
    | .error f => return outcomeOf f

end Cli

end IrView
