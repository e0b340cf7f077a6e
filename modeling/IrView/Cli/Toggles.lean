import IrView.View.Dependency
import IrView.View.Detail

/-!
# Toggles

A toggle switches a part of a view on or off. One that is not given leaves the setting below it as
it is: the command line goes before the configuration, and the configuration before the defaults.
Two toggles of the control flow view also hold for another view that is not told otherwise.
-/

namespace IrView

namespace Cli

/-- Toggles of the control flow view. -/
structure CfgToggles where
  collapseBlocks : Option Bool := none
  branchLabels : Option Bool := none
  backedges : Option Bool := none
  levels : Option Bool := none
  deriving DecidableEq, Repr

/-- Toggles of the detail view. -/
structure DetailToggles where
  hideSourceStates : Option Bool := none
  hideFloating : Option Bool := none
  backedges : Option Bool := none
  deriving DecidableEq, Repr

/-- Toggles of the dependency view. -/
structure DependencyToggles where
  groupEdges : Option Bool := none
  onlyEnabled : Option Bool := none
  hideRequires : Option Bool := none
  hideProvides : Option Bool := none
  hideModifies : Option Bool := none
  hideSchedule : Option Bool := none
  canonicalSchedule : Option Bool := none
  levels : Option Bool := none
  deriving DecidableEq, Repr

/-- The options with the toggles applied. -/
def CfgToggles.apply (t : CfgToggles) (base : View.CfgOptions) : View.CfgOptions where
  collapseBlocks := t.collapseBlocks.getD base.collapseBlocks
  branchLabels := t.branchLabels.getD base.branchLabels
  markBackedges := t.backedges.getD base.markBackedges
  assignLevels := t.levels.getD base.assignLevels

/-- The options with the toggles applied; `shared` is the toggle for backedges of the control flow
view. -/
def DetailToggles.apply (t : DetailToggles) (base : View.DetailOptions) (shared : Option Bool) :
    View.DetailOptions where
  hideSourceStates := t.hideSourceStates.getD base.hideSourceStates
  hideFloating := t.hideFloating.getD base.hideFloating
  markBackedges := (t.backedges.or shared).getD base.markBackedges

/-- The options with the toggles applied; `shared` is the toggle for levels of the control flow
view. -/
def DependencyToggles.apply (t : DependencyToggles) (base : View.DependencyOptions)
    (shared : Option Bool) : View.DependencyOptions where
  groupEdges := t.groupEdges.getD base.groupEdges
  onlyEnabled := t.onlyEnabled.getD base.onlyEnabled
  hideRequires := t.hideRequires.getD base.hideRequires
  hideProvides := t.hideProvides.getD base.hideProvides
  hideModifies := t.hideModifies.getD base.hideModifies
  hideSchedule := t.hideSchedule.getD base.hideSchedule
  canonicalSchedule := t.canonicalSchedule.getD base.canonicalSchedule
  assignLevels := (t.levels.or shared).getD base.assignLevels

/-- The toggles of all views. -/
structure Toggles where
  cfg : CfgToggles := {}
  detail : DetailToggles := {}
  dependency : DependencyToggles := {}
  deriving DecidableEq, Repr

end Cli

end IrView
