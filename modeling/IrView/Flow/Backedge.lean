import Std.Data.TreeSet
import IrView.Flow.Adjacency
import IrView.Number.Basic

/-!
# Backedges

A walk goes depth first from a root and follows the edges of each node in their order. An edge
that leads to a node on the current path closes a cycle: it is a backedge. All edges that do are
found, also several to the same node.

The walk keeps the path on a stack. A step either moves past one edge of the innermost node or
leaves a node for good, so the number of nodes not yet entered and the number of edges still to
pass on the path bound the walk.
-/

namespace IrView

namespace Flow

/-- A node on the path, with the edges that are still to be followed. -/
structure Frame where
  node : NodeId
  pending : List Arc

/-- A depth-first walk. -/
structure Walk where
  /-- The path, innermost node first. -/
  path : List Frame
  /-- The nodes on the path. -/
  active : Std.HashSet NodeId
  /-- The nodes that were left for good. -/
  finished : Std.HashSet NodeId
  /-- The numbers of the backedges found so far. -/
  found : Std.TreeSet Nat

namespace Walk

/-- The walk that stands at the root. -/
def start (g : Adjacency) (root : NodeId) : Walk :=
  { path := [⟨root, g.arcs root⟩], active := Std.HashSet.ofList [root], finished := ∅, found := ∅ }

/-- Leaves the innermost node. -/
def leave (w : Walk) (node : NodeId) (path : List Frame) : Walk :=
  { w with path, active := w.active.erase node, finished := w.finished.insert node }

/-- Enters a node. -/
def enter (g : Adjacency) (w : Walk) (node : NodeId) (path : List Frame) : Walk :=
  { w with path := ⟨node, g.arcs node⟩ :: path, active := w.active.insert node }

/-- Whether a node is still to be entered. -/
def isFresh (w : Walk) (id : NodeId) : Bool :=
  !w.active.contains id && !w.finished.contains id

/-- The walk after one more step, until the path is empty. -/
def step? (g : Adjacency) (w : Walk) : Option Walk :=
  match w.path with
  | [] => none
  | ⟨node, []⟩ :: path => some (w.leave node path)
  | ⟨node, arc :: pending⟩ :: path =>
    let path := ⟨node, pending⟩ :: path
    if w.active.contains arc.target then some { w with path, found := w.found.insert arc.index }
    else if w.isFresh arc.target && g.contains arc.target then some (w.enter g arc.target path)
    else some { w with path }

/-- The number of nodes still to be entered. -/
def fresh (g : Adjacency) (w : Walk) : Nat :=
  g.order.countP w.isFresh

/-- The number of steps that the path allows without entering a node. -/
def pending (w : Walk) : Nat :=
  Number.total (fun frame => frame.pending.length + 1) w.path

theorem fresh_enter_lt {g : Adjacency} {w : Walk} {node : NodeId} (hk : node ∈ g.order)
    (hf : w.isFresh node = true) (path : List Frame) : (w.enter g node path).fresh g < w.fresh g := by
  refine Number.countP_lt hk ?_ hf fun x hx => ?_
  · simp [isFresh, enter]
  · simp only [isFresh, enter, Std.HashSet.contains_insert, Bool.and_eq_true, Bool.not_eq_true',
      Bool.or_eq_false_iff] at hx ⊢
    exact ⟨hx.1.2, hx.2⟩

theorem step?_decreases {g : Adjacency} {w w' : Walk} (h : w.step? g = some w') :
    w'.fresh g < w.fresh g ∨ w'.fresh g ≤ w.fresh g ∧ w'.pending < w.pending := by
  unfold step? at h
  split at h
  · simp at h
  · next node path hp =>
    obtain rfl := Option.some.inj h
    refine Or.inr ⟨List.countP_mono_left fun x _ hx => ?_, ?_⟩
    · simp only [isFresh, leave, Std.HashSet.contains_erase, Std.HashSet.contains_insert,
        Bool.and_eq_true, Bool.not_eq_true', Bool.and_eq_false_iff, Bool.not_eq_false',
        Bool.or_eq_false_iff] at hx ⊢
      obtain ⟨ha, hne, hf⟩ := hx
      refine ⟨?_, hf⟩
      rcases ha with ha | ha
      · simp_all
      · exact ha
    · simp [pending, leave, hp]
  · next node arc rest path hp =>
    dsimp only at h
    split at h
    · obtain rfl := Option.some.inj h
      exact Or.inr ⟨Nat.le_refl _, by simp [pending, hp]⟩
    · split at h
      · next hfresh =>
        obtain rfl := Option.some.inj h
        simp only [Bool.and_eq_true] at hfresh
        exact Or.inl (fresh_enter_lt (Adjacency.contains_iff.1 hfresh.2) hfresh.1 _)
      · obtain rfl := Option.some.inj h
        exact Or.inr ⟨Nat.le_refl _, by simp [pending, hp]⟩

/-- The walk at its end. -/
def run (g : Adjacency) (w : Walk) : Walk :=
  match _h : w.step? g with
  | some w' => run g w'
  | none => w
  termination_by (w.fresh g, w.pending)
  decreasing_by
    rcases step?_decreases _h with h | ⟨h₁, h₂⟩
    · exact Prod.Lex.left _ _ h
    · rcases Nat.lt_or_eq_of_le h₁ with h | h
      · exact Prod.Lex.left _ _ h
      · rw [h]
        exact Prod.Lex.right _ h₂

end Walk

/-- The numbers of the backedges that a walk from the root finds; none if the root is no node. -/
def backedges (g : Adjacency) (root : NodeId) : Std.TreeSet Nat :=
  if g.contains root then ((Walk.start g root).run g).found else ∅

end Flow

end IrView
