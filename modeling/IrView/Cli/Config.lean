import IrView.Cli.Toggles
import IrView.Toml.Reader

/-!
# Configuration files

A configuration names a default view and a default format, and sets toggles in a section for each
view. A key that is not known, and a value of the wrong kind, make the whole configuration invalid.
-/

namespace IrView

namespace Cli

open Toml (Entries)

/-- A configuration. -/
structure Config where
  view : Option String := none
  format : Option String := none
  ignorePrinters : Option Bool := none
  toggles : Toggles := {}
  deriving DecidableEq, Repr

namespace Config

/-! ### Sections -/

/-- A truth value. -/
def bool? : Toml.Value → Option Bool
  | .bool b => some b
  | _ => none

/-- A text. -/
def text? : Toml.Value → Option String
  | .text s => some s
  | _ => none

/-- The entries of a section that knows the given keys. A list gives its items to the keys in
order; more items than keys are passed over. -/
def sectionEntries? (keys : List String) : Toml.Value → Option Entries
  | .table _ entries => if entries.all fun (key, _) => keys.contains key then some entries else none
  | .list items => some (keys.zip items)
  | _ => none

/-- An entry that may be missing. -/
def entry {α : Type} (entries : Entries) (key : String) (read : Toml.Value → Option α) :
    Option (Option α) :=
  match entries.lookup key with
  | some v => (read v).map some
  | none => some none

/-- The section of the control flow view. -/
def cfgToggles? (v : Toml.Value) : Option CfgToggles := do
  let entries ← sectionEntries? ["collapse_blocks", "branch_labels", "backedges", "levels"] v
  return {
    collapseBlocks := ← entry entries "collapse_blocks" bool?
    branchLabels := ← entry entries "branch_labels" bool?
    backedges := ← entry entries "backedges" bool?
    levels := ← entry entries "levels" bool? }

/-- The section of the detail view. -/
def detailToggles? (v : Toml.Value) : Option DetailToggles := do
  let entries ← sectionEntries? ["hide_source_states", "hide_floating", "backedges"] v
  return {
    hideSourceStates := ← entry entries "hide_source_states" bool?
    hideFloating := ← entry entries "hide_floating" bool?
    backedges := ← entry entries "backedges" bool? }

/-- The section of the dependency view. -/
def dependencyToggles? (v : Toml.Value) : Option DependencyToggles := do
  let entries ← sectionEntries?
    ["group_edges", "only_enabled", "hide_requires", "hide_provides", "hide_modifies",
      "hide_schedule", "canonical_schedule", "levels"] v
  return {
    groupEdges := ← entry entries "group_edges" bool?
    onlyEnabled := ← entry entries "only_enabled" bool?
    hideRequires := ← entry entries "hide_requires" bool?
    hideProvides := ← entry entries "hide_provides" bool?
    hideModifies := ← entry entries "hide_modifies" bool?
    hideSchedule := ← entry entries "hide_schedule" bool?
    canonicalSchedule := ← entry entries "canonical_schedule" bool?
    levels := ← entry entries "levels" bool? }

/-! ### The whole file -/

/-- The configuration with the given entries. -/
def ofEntries? (entries : Entries) : Option Config := do
  let entries ← sectionEntries? ["view", "format", "ignore_printers", "cfg", "detail", "dependency"]
    (.table false entries)
  return {
    view := ← entry entries "view" text?
    format := ← entry entries "format" text?
    ignorePrinters := ← entry entries "ignore_printers" bool?
    toggles :=
      { cfg := (← entry entries "cfg" cfgToggles?).getD {}
        detail := (← entry entries "detail" detailToggles?).getD {}
        dependency := (← entry entries "dependency" dependencyToggles?).getD {} } }

/-- Reads a configuration from its text. -/
def ofText (text : String) : Except Fault Config :=
  match (Toml.parse text).bind ofEntries? with
  | some config => .ok config
  | none => .error
      { kind := .configInvalid
        message := "not a configuration"
        operation := "config::parse" }

/-- What the control flow view shows. -/
def cfgOptions (c : Config) : View.CfgOptions :=
  c.toggles.cfg.apply {}

/-- What the detail view shows. -/
def detailOptions (c : Config) : View.DetailOptions :=
  c.toggles.detail.apply {} none

/-- What the dependency view shows. -/
def dependencyOptions (c : Config) : View.DependencyOptions :=
  c.toggles.dependency.apply {} none

end Config

end Cli

end IrView
