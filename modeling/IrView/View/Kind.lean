import IrView.Fault

/-!
# The views of a dump

A dump can be shown in four ways: the control flow of a pass, all instructions of a pass, the
machine blocks of a pass, and the dependencies between all passes.
-/

namespace IrView

/-- A way to show a dump. -/
inductive ViewKind where
  | cfg
  | detail
  | lir
  | dependency
  deriving DecidableEq, Repr

namespace ViewKind

/-- The name of a view, as it is shown. -/
def name : ViewKind → String
  | cfg => "cfg"
  | detail => "detail"
  | lir => "lir"
  | dependency => "deps"

/-- Whether the view shows a single pass. -/
def needsPass : ViewKind → Bool
  | dependency => false
  | _ => true

/-- The view with the given name. -/
def ofName? : String → Option ViewKind
  | "cfg" => some cfg
  | "detail" => some detail
  | "lir" => some lir
  | "deps" => some dependency
  | "dependency" => some dependency
  | _ => none

/-- The view that a user names. -/
def read (name : String) : Except Fault ViewKind :=
  match ofName? name with
  | some view => .ok view
  | none => .error
      { kind := .invalidArgument
        message := s!"unknown view '{name}', use 'cfg', 'detail', 'lir' or 'deps'"
        operation := "cli::parse_view" }

end ViewKind

end IrView
