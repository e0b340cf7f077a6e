import IrView.Proofs.Display.Balance
import IrView.View.Dependency
import IrView.View.Detail
import IrView.View.Lir

/-!
# Every view accounts for its records

A view selects records and builds a graph from them. So whatever the records are, its edges lead
from node to node, and an edge that is not shown was counted or is a link inside a collapsed block.
-/

namespace IrView

namespace View

theorem isSome_summarize_cfgStrategy (options : CfgOptions) :
    (cfgStrategy options).summarize.isSome = options.collapseBlocks := by
  rw [cfgStrategy]
  cases options.collapseBlocks <;> rfl

theorem cfg_accounts (options : CfgOptions) (hir : Hir.Graph) :
    (cfg options hir).Accounts options.collapseBlocks
      ((hir.nodes.filter fun n => n.kind.isControl).map (cfgStrategy options).node)
      ((hir.edges.filter fun e => e.kind.isControlFlow).map (cfgStrategy options).edge) := by
  rw [← isSome_summarize_cfgStrategy]
  exact Display.build_accounts _ _ _

/-- **Built graphs are closed, and every edge is accounted for.** This holds of all strategies and
records, and so of the graphs of all views. -/
theorem built_graphs_account_for_edges :
    (∀ {N E : Type} [NodeRecord N] [EdgeRecord E] (s : Display.Strategy N E) (nodes : List N)
      (edges : List E), (Display.build s nodes edges).Accounts s.summarize.isSome
        (nodes.map s.node) (edges.map s.edge)) ∧
    (∀ (options : CfgOptions) (hir : Hir.Graph),
      (cfg options hir).Accounts options.collapseBlocks
        ((hir.nodes.filter fun n => n.kind.isControl).map (cfgStrategy options).node)
        ((hir.edges.filter fun e => e.kind.isControlFlow).map (cfgStrategy options).edge)) ∧
    (∀ (options : DetailOptions) (hir : Hir.Graph),
      let removed := removedIds options.hides hir.nodes
      (detail options hir).Accounts false ((keepNodes removed hir.nodes).map detailNode)
        ((keepEdges removed hir.edges).map detailEdge)) ∧
    (∀ (root : Option String) (options : DependencyOptions) (graph : Dependency.Graph),
      let removed :=
        removedIds (fun n : Dependency.Node => options.onlyEnabled && !n.enabled) graph.nodes
      let edges := keepEdges removed (options.admitted graph.edges)
      (dependencyBelow root options graph).Accounts false
        ((keepNodes removed graph.nodes).map dependencyNode)
        ((if options.groupEdges then Dependency.group edges else edges).map dependencyEdge)) ∧
    ∀ listing : Lir.Listing,
      let s := lirStrategy (idWidth listing.instructions)
      let blocks := machineBlocks listing.instructions
      (lir listing).graph.Accounts false (blocks.map s.node) ((machineEdges blocks).map s.edge) := by
  refine ⟨Display.build_accounts, cfg_accounts, fun options hir => ?_, fun root options graph => ?_,
    fun listing => ?_⟩
  · exact Display.build_accounts (detailStrategy options) _ _
  · exact Display.build_accounts (dependencyStrategy options root) _ _
  · exact Display.build_accounts (lirStrategy _) _ _

end View

end IrView
