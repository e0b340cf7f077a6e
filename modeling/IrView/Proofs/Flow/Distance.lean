import Mathlib.Data.Set.Card
import IrView.Proofs.Flow.Dominance
import IrView.Proofs.Flow.Placement

/-!
# Levels are distances

A search for distances visits an id again whenever a shorter way to it turns up, and gives up at
depths beyond the number of nodes. It keeps that all depths are numbers of edges of a way from the
root, and that behind a node of some depth each further node has a depth greater by one at most, or
is on the stack at such a depth (`Relaxation.Inv`). A way without detours has fewer edges than there
are nodes, so nothing is lost by giving up, and at the end the depths are the distances
(`distances_eq_some_iff`).

Placing the nodes that the root does not reach leaves these depths alone. So the levels of the nodes
that it reaches are their distances (`level_distance`).
-/

namespace IrView

namespace Flow

open Relation

/-- The least number of edges of a way from the root to `v` is `n`. -/
def Adjacency.Distance (g : Adjacency) (root v : NodeId) (n : Nat) : Prop :=
  (∃ p, Trail g.Leads root (v :: p) ∧ p.length = n) ∧
    ∀ p, Trail g.Leads root (v :: p) → n ≤ p.length

namespace Relaxation

/-! ### Steps -/

/-- One visit. -/
inductive Move (g : Adjacency) (r : Relaxation) : Relaxation → Prop
  /-- A shorter way to a node was found, and is followed. -/
  | improve {id : NodeId} {depth : Nat} {stack : List (NodeId × Nat)}
      (hs : r.stack = (id, depth) :: stack) (hk : id ∈ g.order) (hd : depth ≤ g.size)
      (hless : ∀ d, r.depths[id]? = some d → depth < d) :
      Move g r
        { stack := (g.arcs id).map (fun arc => (arc.target, depth + 1)) ++ stack
          depths := r.depths.insert id depth }
  /-- The way is no shorter than a known one, longer than any without detours, or leads to no
  node. -/
  | drop {id : NodeId} {depth : Nat} {stack : List (NodeId × Nat)}
      (hs : r.stack = (id, depth) :: stack)
      (hle : id ∈ g.order → depth ≤ g.size → ∃ d ≤ depth, r.depths[id]? = some d) :
      Move g r { r with stack }

variable {g : Adjacency} {root : NodeId} {r r' : Relaxation}

theorem improves_iff {id : NodeId} {depth : Nat} : r.improves g id depth = true ↔
    id ∈ g.order ∧ depth ≤ g.size ∧ ∀ d, r.depths[id]? = some d → depth < d := by
  rw [improves, Bool.and_eq_true, Bool.and_eq_true, Adjacency.contains_iff, decide_eq_true_iff,
    and_assoc]
  cases r.depths[id]? with
  | none => simp
  | some d => simp

/-- A visit that shortens no way is dropped. -/
theorem not_improves {id : NodeId} {depth : Nat}
    (hle : id ∈ g.order → depth ≤ g.size → ∃ d ≤ depth, r.depths[id]? = some d) :
    ¬ r.improves g id depth = true := by
  rw [improves_iff]
  rintro ⟨hk, hd, hless⟩
  obtain ⟨d, hle, hd⟩ := hle hk hd
  exact Nat.not_lt_of_le hle (hless d hd)

theorem move_of_step? (h : r.step? g = some r') : Move g r r' := by
  unfold step? at h
  split at h
  · cases h
  · next id depth stack hs =>
    split_ifs at h with him
    · cases h
      obtain ⟨hk, hd, hless⟩ := improves_iff.1 him
      exact .improve hs hk hd hless
    · cases h
      refine .drop hs fun hk hd => ?_
      by_contra hno
      refine him (improves_iff.2 ⟨hk, hd, fun d hd' => ?_⟩)
      by_contra hle
      exact hno ⟨d, Nat.le_of_not_lt hle, hd'⟩

theorem step?_of_move (h : Move g r r') : r.step? g = some r' := by
  cases h with
  | improve hs hk hd hless => simp [step?, hs, improves_iff.2 ⟨hk, hd, hless⟩]
  | drop hs hle => simp [step?, hs, not_improves hle]

theorem step?_eq_none_iff : r.step? g = none ↔ r.stack = [] := by
  unfold step?
  split <;> simp_all
  split_ifs <;> simp

/-- What every visit keeps holds at the end of the search, and then the stack is empty. -/
theorem run_induction {P : Relaxation → Prop} (hstep : ∀ r r', P r → Move g r r' → P r')
    (h : P r) : P (r.run g) ∧ (r.run g).stack = [] := by
  induction r using run.induct g with
  | case1 r r' hs ih =>
    rw [run]
    split
    · next h' =>
      rw [hs] at h'
      cases h'
      exact ih (hstep r r' h (move_of_step? hs))
    · next h' => simp [hs] at h'
  | case2 r hs =>
    rw [run]
    split
    · next h' => simp [hs] at h'
    · exact ⟨h, step?_eq_none_iff.1 hs⟩

/-! ### The invariant -/

/-- The node has at most the given depth, or is still to be visited at such a depth. -/
def Covers (r : Relaxation) (id : NodeId) (n : Nat) : Prop :=
  ∃ d ≤ n, r.depths[id]? = some d ∨ (id, d) ∈ r.stack

/-- What holds of a search from the root after each visit. -/
structure Inv (g : Adjacency) (root : NodeId) (r : Relaxation) : Prop where
  stack : ∀ id d, (id, d) ∈ r.stack → id ∈ g.order →
    ∃ p, Trail g.Leads root (id :: p) ∧ p.length = d
  depths : ∀ id d, r.depths[id]? = some d →
    id ∈ g.order ∧ ∃ p, Trail g.Leads root (id :: p) ∧ p.length = d
  covers_root : r.Covers root 0
  /-- Each edge from a node with a depth is behind the search or pending. -/
  covers : ∀ u d v, r.depths[u]? = some d → d < g.size → g.Leads u v → r.Covers v (d + 1)

theorem inv_start : Inv g root (start root) where
  stack id d h hk := by
    obtain ⟨rfl, rfl⟩ : id = root ∧ d = 0 := by simpa [start] using h
    exact ⟨[], .start, rfl⟩
  depths id d h := by simp [start] at h
  covers_root := ⟨0, Nat.le_refl 0, Or.inr (by simp [start])⟩
  covers u d v h := by simp [start] at h

/-- A visit gives up no depth that a way without detours can have. -/
theorem Covers.move {id : NodeId} {n : Nat} (h : r.Covers id n) (hk : id ∈ g.order)
    (hn : n ≤ g.size) (hm : Move g r r') : r'.Covers id n := by
  obtain ⟨d, hd, h⟩ := h
  cases hm with
  | @improve id' depth stack hs _ _ hless =>
    rcases h with h | h
    · by_cases he : id' = id
      · subst he
        exact ⟨depth, Nat.le_trans (Nat.le_of_lt (hless d h)) hd, Or.inl (by simp)⟩
      · exact ⟨d, hd, Or.inl (by simpa [Std.HashMap.getElem?_insert, he] using h)⟩
    · rw [hs] at h
      rcases List.mem_cons.1 h with he | h
      · cases he
        exact ⟨d, hd, Or.inl (by simp)⟩
      · exact ⟨d, hd, Or.inr (List.mem_append_right _ h)⟩
  | drop hs hle =>
    rcases h with h | h
    · exact ⟨d, hd, Or.inl h⟩
    · rw [hs] at h
      rcases List.mem_cons.1 h with he | h
      · cases he
        obtain ⟨d', hd', h'⟩ := hle hk (Nat.le_trans hd hn)
        exact ⟨d', Nat.le_trans hd' hd, Or.inl h'⟩
      · exact ⟨d, hd, Or.inr h⟩

theorem Inv.step (hroot : root ∈ g.order) (h : Inv g root r) (hm : Move g r r') :
    Inv g root r' := by
  have hcovers : ∀ v n, r.Covers v n → v ∈ g.order → n ≤ g.size → r'.Covers v n :=
    fun v n hc hk hn => hc.move hk hn hm
  -- what was covered stays covered; only the visited node has new edges to look at
  have hcovers_root := hcovers root 0 h.covers_root hroot (Nat.zero_le _)
  cases hm with
  | @improve id depth stack hs hk hdepth hless =>
    obtain ⟨p, hp, hlen⟩ := h.stack id depth (by simp [hs]) hk
    refine ⟨fun v d hv hkv => ?_, fun v d hv => ?_, hcovers_root, fun u d v hu hd huv => ?_⟩
    · rcases List.mem_append.1 hv with hv | hv
      · obtain ⟨arc, harc, he⟩ := List.mem_map.1 hv
        cases he
        exact ⟨id :: p, hp.extend ⟨hk, hkv, arc, harc, rfl⟩, by rw [List.length_cons, hlen]⟩
      · exact h.stack v d (by simp [hs, hv]) hkv
    · by_cases he : id = v
      · subst he
        obtain rfl : depth = d := by simpa using hv
        exact ⟨hk, p, hp, hlen⟩
      · exact h.depths v d (by simpa [Std.HashMap.getElem?_insert, he] using hv)
    · by_cases he : id = u
      · -- the edges of the node that was visited are pending now
        subst he
        obtain rfl : depth = d := by simpa using hu
        obtain ⟨-, -, arc, harc, rfl⟩ := huv
        exact ⟨depth + 1, Nat.le_refl _,
          Or.inr (List.mem_append_left _ (List.mem_map.2 ⟨arc, harc, rfl⟩))⟩
      · have hu' : r.depths[u]? = some d := by
          simpa [Std.HashMap.getElem?_insert, he] using hu
        exact hcovers v (d + 1) (h.covers u d v hu' hd huv) huv.2.1 hd
  | @drop id depth stack hs hle =>
    refine ⟨fun v d hv hkv => h.stack v d (by simp [hs, hv]) hkv, h.depths, hcovers_root,
      fun u d v hu hd huv => hcovers v (d + 1) (h.covers u d v hu hd huv) huv.2.1 hd⟩

/-- The search at its end. -/
theorem inv_run (hroot : root ∈ g.order) :
    Inv g root ((start root).run g) ∧ ((start root).run g).stack = [] :=
  run_induction (fun _ _ h hm => h.step hroot hm) inv_start

/-- At the end no node of a short way has a greater depth than the way gives it. -/
theorem Inv.exists_depth_le (h : Inv g root r) (hend : r.stack = []) {l : List NodeId}
    (hl : Trail g.Leads root l) : ∀ v p, l = v :: p → p.length ≤ g.size →
      ∃ d ≤ p.length, r.depths[v]? = some d := by
  have hcovered : ∀ v n, r.Covers v n → ∃ d ≤ n, r.depths[v]? = some d := by
    rintro v n ⟨d, hd, h | h⟩
    · exact ⟨d, hd, h⟩
    · simp [hend] at h
  induction hl with
  | start =>
    rintro v p he -
    cases he
    exact hcovered root 0 h.covers_root
  | @extend u v p _ huv ih =>
    rintro _ _ he hlen
    cases he
    rw [List.length_cons] at hlen
    obtain ⟨d, hd, hu⟩ := ih u p rfl (by omega)
    obtain ⟨d', hd', hv⟩ := hcovered v (d + 1) (h.covers u d v hu (by omega) huv)
    exact ⟨d', by rw [List.length_cons]; omega, hv⟩

end Relaxation

variable {g : Adjacency} {root v : NodeId}

/-- The depths found are the distances. -/
theorem distances_eq_some_iff (hroot : root ∈ g.order) {d : Nat} :
    (distances g root)[v]? = some d ↔ g.Distance root v d := by
  obtain ⟨hinv, hend⟩ := Relaxation.inv_run hroot
  -- each way can be shortened until it is short enough for the search
  have hle : ∀ p, Trail g.Leads root (v :: p) →
      ∃ d ≤ p.length, (distances g root)[v]? = some d := by
    intro p hp
    obtain ⟨q, hq, hnd, hlt⟩ := hp.exists_nodup v rfl
    have hlen := Adjacency.length_le_of_trail hroot hq hnd
    rw [List.length_cons] at hlen hlt
    obtain ⟨d, hd, hv⟩ := hinv.exists_depth_le hend hq v q rfl (by omega)
    exact ⟨d, by omega, hv⟩
  -- a depth is the length of some way, and no way is shorter
  constructor
  · intro hd
    refine ⟨(hinv.depths v d hd).2, fun p hp => ?_⟩
    obtain ⟨d', hd', hv⟩ := hle p hp
    obtain rfl : d = d' := by simpa [hd] using hv
    exact hd'
  · rintro ⟨⟨p, hp, rfl⟩, hmin⟩
    obtain ⟨d, hd, hv⟩ := hle p hp
    obtain ⟨q, hq, rfl⟩ := (hinv.depths v d hv).2
    rw [hv, Nat.le_antisymm hd (hmin q hq)]

theorem mem_distances_iff (hroot : root ∈ g.order) :
    v ∈ distances g root ↔ ∃ p, Trail g.Leads root (v :: p) := by
  obtain ⟨hinv, hend⟩ := Relaxation.inv_run hroot
  rw [Std.HashMap.mem_iff_isSome_getElem?, Option.isSome_iff_exists]
  constructor
  · rintro ⟨d, hd⟩
    obtain ⟨p, hp, -⟩ := ((distances_eq_some_iff hroot).1 hd).1
    exact ⟨p, hp⟩
  · rintro ⟨p, hp⟩
    obtain ⟨q, hq, hnd, -⟩ := hp.exists_nodup v rfl
    have hlen := Adjacency.length_le_of_trail hroot hq hnd
    rw [List.length_cons] at hlen
    obtain ⟨d, -, hv⟩ := hinv.exists_depth_le hend hq v q rfl (by omega)
    exact ⟨d, hv⟩

/-! ### Levels of the nodes that the root reaches -/

/-- The levels before the other nodes are placed. -/
def reachedLevels (g : Adjacency) (root : NodeId) : Levels :=
  (distances g root).map fun _ depth => Int.ofNat depth

theorem getElem?_reachedLevels (hroot : root ∈ g.order) {d : Nat} (h : g.Distance root v d) :
    (reachedLevels g root)[v]? = some (d : Int) := by
  simp [reachedLevels, (distances_eq_some_iff hroot).2 h]

theorem mem_reachedLevels_iff (hroot : root ∈ g.order) :
    v ∈ reachedLevels g root ↔ ∃ p, Trail g.Leads root (v :: p) := by
  rw [reachedLevels, Std.HashMap.mem_map, mem_distances_iff hroot]

theorem level_of_mem (hroot : root ∈ g.order) : level g root =
    { levels := sink g (settle g (reachedLevels g root))
      unreached := unplaced g (reachedLevels g root) } := by
  rw [level, if_pos (Adjacency.contains_iff.2 hroot), reachedLevels]

theorem level_of_not_mem (hroot : root ∉ g.order) :
    level g root = { levels := ∅, unreached := 0 } := by
  rw [level, if_neg (mt Adjacency.contains_iff.1 hroot)]

theorem getElem?_level (hroot : root ∈ g.order) {d : Nat} (h : g.Distance root v d) :
    (level g root).levels[v]? = some (d : Int) := by
  have hmem := (mem_reachedLevels_iff hroot).2 (h.1.imp fun _ => And.left)
  rw [level_of_mem hroot, getElem?_sink, getElem?_settle (Or.inl hmem),
    getElem?_reachedLevels hroot h, Option.some_or]

theorem distance_root : g.Distance root root 0 :=
  ⟨⟨[], .start, rfl⟩, fun _ _ => Nat.zero_le _⟩

/-- Every node has a level: the root has one, so there is a lowest level for the nodes that get
none before. -/
theorem exists_level (hroot : root ∈ g.order) (hv : v ∈ g.order) :
    ∃ n, (level g root).levels[v]? = some n := by
  have hzero : (settle g (reachedLevels g root))[root]? = some 0 := by
    rw [getElem?_settle (Or.inl ((mem_reachedLevels_iff hroot).2 ⟨[], .start⟩))]
    exact getElem?_reachedLevels hroot distance_root
  have hmem : (0 : Int) ∈ g.order.filterMap fun id => (settle g (reachedLevels g root))[id]? :=
    List.mem_filterMap.2 ⟨root, hroot, hzero⟩
  obtain ⟨lowest, hlowest⟩ := List.isSome_max?_of_mem hmem |> Option.isSome_iff_exists.1
  rw [level_of_mem hroot, getElem?_sink, if_pos hv, hlowest]
  cases (settle g (reachedLevels g root))[v]? with
  | none => exact ⟨lowest, rfl⟩
  | some n => exact ⟨n, rfl⟩

/-- If the root reaches all other nodes, a node that no edge touches goes on the greatest of their
distances. -/
theorem getElem?_level_of_untouched (dist : NodeId → Nat) (hroot : root ∈ g.order)
    (hv : v ∈ g.order) (hne : v ≠ root) (harcs : g.arcs v = [])
    (hno : ∀ u, ∀ arc ∈ g.arcs u, arc.target ≠ v)
    (hdist : ∀ id ∈ g.order, id ≠ v → g.Distance root id (dist id)) :
    (level g root).levels[v]? =
      ((g.order.filter (· != v)).map fun id => (dist id : Int)).max? := by
  have hunreached : ¬ ∃ p, Trail g.Leads root (v :: p) := by
    rintro ⟨p, hp⟩
    cases hp with
    | start => exact hne rfl
    | extend _ huv =>
      obtain ⟨-, -, arc, harc, ht⟩ := huv
      exact hno _ arc harc ht
  have hnone : (reachedLevels g root)[v]? = none :=
    Std.HashMap.getElem?_eq_none (mt (mem_reachedLevels_iff hroot).1 hunreached)
  have hsettle : ∀ id ∈ g.order, (settle g (reachedLevels g root))[id]? =
      if id != v then some (dist id : Int) else none := by
    intro id hid
    by_cases he : id = v
    · subst he
      rw [getElem?_settle (Or.inr harcs), hnone]
      simp
    · have hd := hdist id hid he
      have hmem := (mem_reachedLevels_iff hroot).2 (hd.1.imp fun _ => And.left)
      rw [getElem?_settle (Or.inl hmem), getElem?_reachedLevels hroot hd]
      simp [he]
  rw [level_of_mem hroot, getElem?_sink, hsettle v hv, if_neg (by simp), Option.none_or, if_pos hv,
    List.filterMap_congr hsettle, ← List.filterMap_eq_map', List.filterMap_filter]

/-- A node that the root reaches has a distance. -/
theorem exists_distance (hroot : root ∈ g.order) {p : List NodeId}
    (hp : Trail g.Leads root (v :: p)) : ∃ d, g.Distance root v d := by
  have hmem := (mem_distances_iff hroot).2 ⟨p, hp⟩
  rw [Std.HashMap.mem_iff_isSome_getElem?, Option.isSome_iff_exists] at hmem
  obtain ⟨d, hd⟩ := hmem
  exact ⟨d, (distances_eq_some_iff hroot).1 hd⟩

theorem unreached_eq_ncard (hroot : root ∈ g.order) : (level g root).unreached =
    {v | v ∈ g.order ∧ ¬ ∃ p, Trail g.Leads root (v :: p)}.ncard := by
  have hset : {v | v ∈ g.order ∧ ¬ ∃ p, Trail g.Leads root (v :: p)} =
      ((g.order.filter fun id => !(reachedLevels g root).contains id).toFinset : Set NodeId) := by
    ext v
    simp [reachedLevels, mem_distances_iff hroot]
  rw [hset, Set.ncard_coe_finset, List.toFinset_card_of_nodup (g.nodup_order.filter _),
    ← List.countP_eq_length_filter, level_of_mem hroot, unplaced]

/-- **Levels are shortest distances.** A node that the root reaches is on the level that its
distance from the root says, whatever the order of the nodes and of the edges, and the other nodes
are counted. A root that is no node gives no levels. -/
theorem level_distance (nodes : List NodeId) (edges : List Edge) (root : NodeId) :
    let g := Adjacency.ofLists nodes edges
    (root ∈ nodes →
      (∀ v, (∃ p, Trail g.Leads root (v :: p)) →
        ∃ d : Nat, g.Distance root v d ∧ (level g root).levels[v]? = some (d : Int)) ∧
      (level g root).levels[root]? = some 0 ∧
      (level g root).unreached =
        {v | v ∈ nodes ∧ ¬ ∃ p, Trail g.Leads root (v :: p)}.ncard ∧
      ∀ nodes' edges', nodes'.Perm nodes → edges'.Perm edges →
        (level (Adjacency.ofLists nodes' edges') root).unreached = (level g root).unreached ∧
        ∀ v, (∃ p, Trail g.Leads root (v :: p)) →
          (level (Adjacency.ofLists nodes' edges') root).levels[v]? =
            (level g root).levels[v]?) ∧
    (root ∉ nodes → (level g root).levels = ∅ ∧ (level g root).unreached = 0) := by
  intro g
  have hmem : ∀ {id}, id ∈ g.order ↔ id ∈ nodes := Adjacency.mem_order_ofLists
  refine ⟨fun hroot => ⟨fun v ⟨p, hp⟩ => ?_, ?_, ?_, fun nodes' edges' hn he => ⟨?_, ?_⟩⟩,
    fun hroot => ?_⟩
  · obtain ⟨d, hd⟩ := exists_distance (hmem.2 hroot) hp
    exact ⟨d, hd, getElem?_level (hmem.2 hroot) hd⟩
  · exact getElem?_level (hmem.2 hroot) ⟨⟨[], .start, rfl⟩, fun _ _ => Nat.zero_le _⟩
  · rw [unreached_eq_ncard (hmem.2 hroot)]
    simp only [hmem]
  · rw [unreached_eq_ncard (hmem.2 hroot),
      unreached_eq_ncard (Adjacency.mem_order_ofLists.2 (hn.mem_iff.2 hroot)),
      Adjacency.leads_ofLists_perm hn he]
    simp only [hmem, Adjacency.mem_order_ofLists, hn.mem_iff]
    rfl
  · rintro v ⟨p, hp⟩
    obtain ⟨d, hd⟩ := exists_distance (hmem.2 hroot) hp
    have hd' : (Adjacency.ofLists nodes' edges').Distance root v d := by
      rw [Adjacency.Distance, Adjacency.leads_ofLists_perm hn he]
      exact hd
    rw [getElem?_level (hmem.2 hroot) hd,
      getElem?_level (Adjacency.mem_order_ofLists.2 (hn.mem_iff.2 hroot)) hd']
  · rw [level_of_not_mem (mt hmem.1 hroot)]
    exact ⟨rfl, rfl⟩

end Flow

end IrView
