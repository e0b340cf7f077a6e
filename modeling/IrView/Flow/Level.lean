import IrView.Flow.Adjacency
import IrView.Number.Basic

/-!
# Levels

The level of a node that the root reaches is the least number of edges from the root. It is found
by walking from the root and walking on from a node again whenever a shorter way to it turns up.
A node that the root does not reach is placed one level above its highest successor, once one of
its successors has a level; nodes that never get a level this way go to the lowest level of all.
-/

namespace IrView

namespace Flow

/-! ### Distances from the root -/

/-- A search for distances: the ids still to be visited, each at a depth, and the least depth at
which each node was visited so far. -/
structure Relaxation where
  stack : List (NodeId × Nat)
  depths : Std.HashMap NodeId Nat

namespace Relaxation

/-- The search before the root is visited. -/
def start (root : NodeId) : Relaxation :=
  ⟨[(root, 0)], ∅⟩

/-- Whether a visit at this depth is the first one or shortens the way. No way without a detour is
longer than the number of nodes, so deeper visits are given up, as are visits to ids that are no
nodes. -/
def improves (g : Adjacency) (r : Relaxation) (id : NodeId) (depth : Nat) : Bool :=
  g.contains id && depth ≤ g.size &&
    match r.depths[id]? with
    | some d => depth < d
    | none => true

/-- The search after one more visit, until none is left. -/
def step? (g : Adjacency) (r : Relaxation) : Option Relaxation :=
  match r.stack with
  | [] => none
  | (id, depth) :: stack =>
    if r.improves g id depth then
      some
        { stack := (g.arcs id).map (fun arc => (arc.target, depth + 1)) ++ stack
          depths := r.depths.insert id depth }
    else some { r with stack }

/-- How far the depth of a node can still go down. -/
def slack (g : Adjacency) (r : Relaxation) (id : NodeId) : Nat :=
  r.depths[id]?.getD (g.size + 1)

/-- How far the depths of all nodes together can still go down. -/
def totalSlack (g : Adjacency) (r : Relaxation) : Nat :=
  Number.total (r.slack g) g.order

theorem step?_decreases {g : Adjacency} {r r' : Relaxation} (h : r.step? g = some r') :
    r'.totalSlack g < r.totalSlack g ∨
      r'.totalSlack g = r.totalSlack g ∧ r'.stack.length < r.stack.length := by
  unfold step? at h
  split at h
  · simp at h
  · next id depth stack hs =>
    split at h
    · next him =>
      obtain rfl := Option.some.inj h
      simp only [improves, Bool.and_eq_true, decide_eq_true_eq] at him
      obtain ⟨⟨hid, hdepth⟩, hless⟩ := him
      have hslack : depth < r.slack g id := by
        unfold slack
        split at hless
        · next d hd => simpa [hd] using hless
        · next hd => simpa [hd] using Nat.lt_succ_of_le hdepth
      refine Or.inl (Number.total_lt (Adjacency.contains_iff.1 hid) ?_ fun x => ?_)
      · simpa [slack] using hslack
      · simp only [slack, Std.HashMap.getElem?_insert] at hslack ⊢
        by_cases hx : id = x
        · subst hx
          simpa using Nat.le_of_lt hslack
        · simp [hx]
    · obtain rfl := Option.some.inj h
      exact Or.inr ⟨rfl, by simp [hs]⟩

/-- The search at its end. -/
def run (g : Adjacency) (r : Relaxation) : Relaxation :=
  match _h : r.step? g with
  | some r' => run g r'
  | none => r
  termination_by (r.totalSlack g, r.stack.length)
  decreasing_by
    rcases step?_decreases _h with h | ⟨h₁, h₂⟩
    · exact Prod.Lex.left _ _ h
    · rw [h₁]
      exact Prod.Lex.right _ h₂

end Relaxation

/-- The distance of every node that the root reaches. -/
def distances (g : Adjacency) (root : NodeId) : Std.HashMap NodeId Nat :=
  ((Relaxation.start root).run g).depths

/-! ### Nodes that the root does not reach -/

/-- The level of each node. Negative levels lie above the root. -/
abbrev Levels := Std.HashMap NodeId Int

/-- The nodes without a level. -/
def unplaced (g : Adjacency) (levels : Levels) : Nat :=
  g.order.countP fun id => !levels.contains id

/-- The levels of the successors that have one. -/
def successorLevels (g : Adjacency) (levels : Levels) (id : NodeId) : List Int :=
  (g.arcs id).filterMap fun arc => levels[arc.target]?

/-- The levels with a node placed above its successors. None if it is placed already, or if none of
its successors has a level. -/
def place? (g : Adjacency) (levels : Levels) (id : NodeId) : Option Levels :=
  if levels.contains id then none
  else (successorLevels g levels id).min?.map fun level => levels.insert id (level - 1)

/-- A round of placing nodes: the levels so far, and whether the round has placed a node. -/
structure Round where
  levels : Levels
  progress : Bool

/-- The turn of a node in a round. -/
def Round.turn (g : Adjacency) (r : Round) (id : NodeId) : Round :=
  match place? g r.levels id with
  | some levels => ⟨levels, true⟩
  | none => r

/-- A round, in which each node has one turn, in order. -/
def round (g : Adjacency) (levels : Levels) : Round :=
  g.order.foldl (Round.turn g) ⟨levels, false⟩

/-- The levels after a round. -/
def placeAll (g : Adjacency) (levels : Levels) : Levels :=
  (round g levels).levels

theorem unplaced_lt_of_place? {g : Adjacency} {levels levels' : Levels} {id : NodeId}
    (hk : id ∈ g.order) (h : place? g levels id = some levels') :
    unplaced g levels' < unplaced g levels := by
  unfold place? at h
  split at h
  · cases h
  · next hid =>
    obtain ⟨level, -, rfl⟩ := Option.map_eq_some_iff.1 h
    refine Number.countP_lt hk (by simp) (by simpa using hid) fun x hx => ?_
    simp only [Std.HashMap.contains_insert, Bool.not_eq_true', Bool.or_eq_false_iff] at hx ⊢
    exact hx.2

/-- A turn changes nothing, or it places a node and says so. -/
theorem Round.turn_cases {g : Adjacency} {id : NodeId} (hk : id ∈ g.order) (r : Round) :
    r.turn g id = r ∨
      (r.turn g id).progress = true ∧ unplaced g (r.turn g id).levels < unplaced g r.levels := by
  unfold turn
  split
  · next levels hplace => exact Or.inr ⟨rfl, unplaced_lt_of_place? hk hplace⟩
  · exact Or.inl rfl

theorem Round.foldl_turn_cases {g : Adjacency} {order : List NodeId}
    (horder : ∀ id ∈ order, id ∈ g.order) (r : Round) : order.foldl (turn g) r = r ∨
      (order.foldl (turn g) r).progress = true ∧
        unplaced g (order.foldl (turn g) r).levels < unplaced g r.levels := by
  induction order generalizing r with
  | nil => exact Or.inl rfl
  | cons id order ih =>
    have hturn := r.turn_cases (horder id List.mem_cons_self)
    have hrest := ih (fun id hid => horder id (List.mem_cons_of_mem _ hid)) (r.turn g id)
    rw [List.foldl_cons]
    rcases hrest with hrest | ⟨hprogress, hlt⟩
    · rwa [hrest]
    · have hle : unplaced g (r.turn g id).levels ≤ unplaced g r.levels := by
        rcases hturn with hturn | ⟨-, hturn⟩
        · exact Nat.le_of_eq (congrArg (fun r => unplaced g (Round.levels r)) hturn)
        · exact Nat.le_of_lt hturn
      exact Or.inr ⟨hprogress, Nat.lt_of_lt_of_le hlt hle⟩

/-- A round changes nothing, or it places a node and says so. -/
theorem round_cases (g : Adjacency) (levels : Levels) : round g levels = ⟨levels, false⟩ ∨
    (round g levels).progress = true ∧ unplaced g (placeAll g levels) < unplaced g levels :=
  Round.foldl_turn_cases (fun _ hid => hid) _

theorem unplaced_placeAll_lt {g : Adjacency} {levels : Levels}
    (h : (round g levels).progress = true) :
    unplaced g (placeAll g levels) < unplaced g levels := by
  rcases round_cases g levels with hround | ⟨-, hlt⟩
  · rw [hround] at h
    cases h
  · exact hlt

/-- Places nodes in rounds, as long as a round places one. -/
def settle (g : Adjacency) (levels : Levels) : Levels :=
  let next := round g levels
  if next.progress then settle g next.levels else next.levels
  termination_by unplaced g levels
  decreasing_by exact unplaced_placeAll_lt ‹_›

/-- Puts all nodes without a level on the lowest level there is. -/
def sink (g : Adjacency) (levels : Levels) : Levels :=
  match (g.order.filterMap fun id => levels[id]?).max? with
  | some lowest => g.order.foldl (fun levels id => levels.insertIfNew id lowest) levels
  | none => levels

/-! ### All levels -/

/-- The levels of all nodes, and how many of them the root does not reach. -/
structure Leveling where
  levels : Levels
  unreached : Nat

/-- The levels below a root. If the root is no node, no node has a level. -/
def level (g : Adjacency) (root : NodeId) : Leveling :=
  if g.contains root then
    let reached : Levels := (distances g root).map fun _ depth => Int.ofNat depth
    { levels := sink g (settle g reached), unreached := unplaced g reached }
  else { levels := ∅, unreached := 0 }

end Flow

end IrView
