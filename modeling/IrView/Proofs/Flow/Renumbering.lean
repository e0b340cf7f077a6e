import IrView.Proofs.Flow.Recursion
import IrView.Proofs.Flow.Subdivision

/-!
# Other numbers for the edges

A search goes by the ends of the edges and only reports their numbers. So if the edges of a graph
get other numbers (`Renumbering`), the recursion takes the same course and reports the other numbers
(`Renumbering.visit`), and the walk finds them (`Renumbering.mem_backedges_iff`). In particular
edges may be numbered by where they stand in a longer list.
-/

namespace IrView

namespace Flow

/-- The second graph is the first one with other numbers for the edges. -/
structure Renumbering (number : Nat → Nat) (g g' : Adjacency) : Prop where
  order : ∀ id, id ∈ g'.order ↔ id ∈ g.order
  arcs : ∀ id, g'.arcs id = (g.arcs id).map (Arc.renumber number)

/-- The search with other numbers for the edges that were reported. -/
def Search.renumber (number : Nat → Nat) (s : Search) : Search :=
  { s with reported := s.reported.map number }

theorem Search.renumber_report (number : Nat → Nat) (s : Search) (index : Nat) :
    (s.report index).renumber number = (s.renumber number).report (number index) := by
  rw [renumber, report, List.map_append, List.map_singleton]
  rfl

namespace Renumbering

variable {number : Nat → Nat} {g g' : Adjacency} {root : NodeId}

/-- Following renumbered edges does the same and reports the other numbers. -/
theorem follow (h : Renumbering number g g') (s : Search) (arcs : List Arc) :
    (Search.follow g' (s.renumber number) (arcs.map (Arc.renumber number))).1 =
      (Search.follow g s arcs).1.renumber number := by
  induction s, arcs using Search.follow.induct g with
  | case1 s => rw [List.map_nil, Search.follow_nil, Search.follow_nil]
  | case2 s arc arcs ha ih =>
    have hexamine : (s.renumber number).examine g' (arc.renumber number) =
        (s.report arc.index).renumber number :=
      (if_pos ha).trans (Search.renumber_report number s arc.index).symm
    rw [List.map_cons, Search.follow_cons, Search.follow_cons, hexamine, ih, Search.examine,
      if_pos ha]
  | case3 s arc arcs ha hf seen _ ihvisit ih =>
    have hvisit : (s.renumber number).visit g' arc.target =
        (s.visit g arc.target).renumber number := by
      rw [Search.visit, h.arcs]
      exact congrArg (Search.leave · arc.target) ihvisit
    have hexamine : (s.renumber number).examine g' (arc.renumber number) =
        (s.visit g arc.target).renumber number :=
      (if_neg ha).trans ((if_pos ⟨(h.order _).2 hf.1, hf.2⟩).trans hvisit)
    rw [List.map_cons, Search.follow_cons, Search.follow_cons, hexamine, Search.examine, if_neg ha,
      if_pos hf]
    exact ih
  | case4 s arc arcs ha hf ih =>
    have hexamine : (s.renumber number).examine g' (arc.renumber number) = s.renumber number :=
      (if_neg ha).trans (if_neg fun hf' => hf ⟨(h.order _).1 hf'.1, hf'.2⟩)
    rw [List.map_cons, Search.follow_cons, Search.follow_cons, hexamine, ih, Search.examine,
      if_neg ha, if_neg hf]

theorem visit (h : Renumbering number g g') (s : Search) (node : NodeId) :
    (s.renumber number).visit g' node = (s.visit g node).renumber number := by
  rw [Search.visit, h.arcs]
  exact congrArg (Search.leave · node) (h.follow (s.enter node) (g.arcs node))

/-- A walk finds the same edges, by their other numbers. -/
theorem mem_backedges_iff (h : Renumbering number g g') {i : Nat} :
    i ∈ backedges g' root ↔ ∃ j ∈ backedges g root, number j = i := by
  have hreported : (Search.start.visit g' root).reported =
      (Search.start.visit g root).reported.map number :=
    congrArg Search.reported (h.visit Search.start root)
  rw [mem_backedges, (Walk.agrees_run g' root).found, hreported, List.mem_map, h.order]
  simp only [mem_backedges, (Walk.agrees_run g root).found]
  tauto

end Renumbering

end Flow

end IrView
