import IrView.Flow.Backedge
import IrView.Proofs.Flow.Trail

/-!
# What a depth-first walk keeps

The path of a walk is a trail without detours. A node is left when all its edges are behind the
walk, and then each of them leads to a node that was visited: the edges into the path were found,
and the others lead to nodes that were left before. So the nodes that were left carry no cycle of
edges that were not found (`Walk.Inv.settled`), and each edge that was found leads from the end of
some trail back into it (`Walk.Inv.found`).

`Walk.Inv` holds of the walk that stands at the root and is kept by each of the four kinds of steps,
so it holds of the walk at its end.
-/

namespace IrView

namespace Flow

open Relation

/-- An edge that is not among the given ones leads from one node to another. -/
def Adjacency.LeadsWithout (g : Adjacency) (found : Std.TreeSet Nat) (u v : NodeId) : Prop :=
  u ∈ g.order ∧ v ∈ g.order ∧ ∃ arc ∈ g.arcs u, arc.target = v ∧ arc.index ∉ found

theorem Adjacency.LeadsWithout.mono {g : Adjacency} {found found' : Std.TreeSet Nat}
    (hf : ∀ i ∈ found, i ∈ found') {u v : NodeId} (h : g.LeadsWithout found' u v) :
    g.LeadsWithout found u v := by
  obtain ⟨hu, hv, arc, harc, ht, hi⟩ := h
  exact ⟨hu, hv, arc, harc, ht, fun hi' => hi (hf _ hi')⟩

namespace Walk

/-! ### Steps -/

/-- The nodes on the path, innermost first. -/
def nodes (w : Walk) : List NodeId :=
  w.path.map Frame.node

/-- The node is on the path or was left. -/
def Visited (w : Walk) (id : NodeId) : Prop :=
  id ∈ w.active ∨ id ∈ w.finished

/-- One step of a walk. -/
inductive Move (g : Adjacency) (w : Walk) : Walk → Prop
  /-- All edges of the innermost node are behind the walk. -/
  | leave {node : NodeId} {path : List Frame} (hp : w.path = ⟨node, []⟩ :: path) :
      Move g w (w.leave node path)
  /-- An edge leads back into the path. -/
  | close {node : NodeId} {arc : Arc} {pending : List Arc} {path : List Frame}
      (hp : w.path = ⟨node, arc :: pending⟩ :: path) (ha : arc.target ∈ w.active) :
      Move g w { w with path := ⟨node, pending⟩ :: path, found := w.found.insert arc.index }
  /-- An edge leads to a node that was not visited. -/
  | enter {node : NodeId} {arc : Arc} {pending : List Arc} {path : List Frame}
      (hp : w.path = ⟨node, arc :: pending⟩ :: path) (hk : arc.target ∈ g.order)
      (hf : ¬ w.Visited arc.target) :
      Move g w (w.enter g arc.target (⟨node, pending⟩ :: path))
  /-- An edge leads to a node that was left, or to none. -/
  | pass {node : NodeId} {arc : Arc} {pending : List Arc} {path : List Frame}
      (hp : w.path = ⟨node, arc :: pending⟩ :: path) (ha : arc.target ∉ w.active)
      (hf : arc.target ∈ g.order → arc.target ∈ w.finished) :
      Move g w { w with path := ⟨node, pending⟩ :: path }

variable {g : Adjacency} {root : NodeId} {w w' : Walk}

theorem isFresh_iff {id : NodeId} : w.isFresh id = true ↔ ¬ w.Visited id := by
  simp [isFresh, Visited, Std.HashSet.contains_eq_false_iff_not_mem]

theorem move_of_step? (h : w.step? g = some w') : Move g w w' := by
  unfold step? at h
  split at h
  · cases h
  · next node path hp =>
    cases h
    exact .leave hp
  · next node arc pending path hp =>
    dsimp only at h
    split_ifs at h with ha hf
    · cases h
      exact .close hp (Std.HashSet.mem_iff_contains.2 ha)
    · cases h
      rw [Bool.and_eq_true, isFresh_iff, Adjacency.contains_iff] at hf
      exact .enter hp hf.2 hf.1
    · cases h
      rw [Bool.and_eq_true, isFresh_iff, Adjacency.contains_iff, not_and_or, not_not] at hf
      have ha' : arc.target ∉ w.active := fun h => ha (Std.HashSet.mem_iff_contains.1 h)
      refine .pass hp ha' fun hk => ?_
      rcases hf with (h | h) | h
      · exact absurd h ha'
      · exact h
      · exact absurd hk h

theorem step?_of_move (h : Move g w w') : w.step? g = some w' := by
  cases h with
  | leave hp => simp [step?, hp]
  | close hp ha => simp [step?, hp, ha]
  | enter hp hk hf =>
    have ha : _ ∉ w.active := fun h => hf (Or.inl h)
    simp [step?, hp, ha, isFresh_iff.2 hf, Adjacency.contains_iff.2 hk]
  | @pass node arc pending path hp ha hf =>
    have hfk : ¬ (w.isFresh arc.target && g.contains arc.target) = true := by
      rw [Bool.and_eq_true, isFresh_iff, Adjacency.contains_iff]
      exact fun h => h.1 (Or.inr (hf h.2))
    simp [step?, hp, ha, hfk]

theorem step?_eq_none_iff : w.step? g = none ↔ w.path = [] := by
  unfold step?
  split <;> simp_all
  split_ifs <;> simp

/-! ### Runs -/

theorem run_of_move (h : Move g w w') : w.run g = w'.run g := by
  rw [run]
  split
  · next h' =>
    rw [step?_of_move h] at h'
    cases h'
    rfl
  · next h' =>
    rw [step?_of_move h] at h'
    cases h'

theorem run_of_nil (h : w.path = []) : w.run g = w := by
  rw [run]
  split
  · next h' => simp [step?_eq_none_iff.2 h] at h'
  · rfl

/-- What every step keeps holds at the end of the walk, and then the path is empty. -/
theorem run_induction {P : Walk → Prop} (hstep : ∀ w w', P w → Move g w w' → P w') (h : P w) :
    P (w.run g) ∧ (w.run g).path = [] := by
  induction w using run.induct g with
  | case1 w w' hs ih =>
    have hm := move_of_step? hs
    rw [run_of_move hm]
    exact ih (hstep w w' h hm)
  | case2 w hs =>
    have hp := step?_eq_none_iff.1 hs
    rw [run_of_nil hp]
    exact ⟨h, hp⟩

/-! ### The invariant -/

/-- The edges lead to nodes that were visited, and those that lead into the trail were found. -/
def Passed (g : Adjacency) (w : Walk) (trail : List NodeId) (arcs : List Arc) : Prop :=
  ∀ arc ∈ arcs, arc.target ∈ g.order →
    w.Visited arc.target ∧ (arc.target ∈ trail → arc.index ∈ w.found)

/-- What holds of a walk from the root after each step. -/
structure Inv (g : Adjacency) (root : NodeId) (w : Walk) : Prop where
  active : ∀ id, id ∈ w.active ↔ id ∈ w.nodes
  trail : w.path ≠ [] → Trail g.Leads root w.nodes
  nodup : w.nodes.Nodup
  visited_root : w.Visited root
  /-- The edges of a node on the path are passed, as far as they are not pending. -/
  frames : ∀ f outer, f :: outer <:+ w.path → ∃ passed,
    g.arcs f.node = passed ++ f.pending ∧ w.Passed g (f.node :: outer.map Frame.node) passed
  /-- A node was left at the end of a trail, when all its edges were passed. -/
  left : ∀ u ∈ w.finished, ∃ p,
    Trail g.Leads root (u :: p) ∧ (u :: p).Nodup ∧ w.Passed g (u :: p) (g.arcs u)
  /-- An edge that was found leads from the end of a trail back into it. -/
  found : ∀ i ∈ w.found, ∃ u p, Trail g.Leads root (u :: p) ∧ (u :: p).Nodup ∧
    ∃ arc ∈ g.arcs u, arc.index = i ∧ arc.target ∈ u :: p
  /-- Edges that were not found do not lead on forever from a node that was left. -/
  settled : ∀ u ∈ w.finished, Acc (fun v u => g.LeadsWithout w.found u v) u

section

variable {node id : NodeId} {arc : Arc} {pending : List Arc} {path : List Frame}

theorem visited_leave : (w.leave node path).Visited id ↔ w.Visited id ∨ id = node := by
  simp only [Visited, leave, Std.HashSet.mem_erase, Std.HashSet.mem_insert, beq_iff_eq,
    beq_eq_false_iff_ne]
  by_cases h : node = id
  · simp [h]
  · simp [h, Ne.symm h]

theorem visited_enter : (w.enter g node path).Visited id ↔ w.Visited id ∨ id = node := by
  simp only [Visited, enter, Std.HashSet.mem_insert, beq_iff_eq]
  tauto

theorem Passed.mono {trail : List NodeId} {arcs : List Arc} (h : w.Passed g trail arcs)
    (hv : ∀ id, w.Visited id → w'.Visited id) (hf : ∀ i ∈ w.found, i ∈ w'.found) :
    w'.Passed g trail arcs := by
  intro arc harc hk
  obtain ⟨hvis, hfound⟩ := h arc harc hk
  exact ⟨hv _ hvis, fun ht => hf _ (hfound ht)⟩

theorem inv_start : Inv g root (start g root) where
  active id := by
    rw [start, nodes, Std.HashSet.mem_ofList]
    simp
  trail _ := .start
  nodup := by simp [start, nodes]
  visited_root := by simp [start, Visited]
  frames f outer hs := by
    obtain ⟨rfl, rfl⟩ : f = ⟨root, g.arcs root⟩ ∧ outer = [] := by
      simpa [start, List.suffix_cons_iff] using hs
    exact ⟨[], rfl, by simp [Passed]⟩
  left := by simp [start]
  found := by simp [start]
  settled := by simp [start]

namespace Inv

theorem nodes_cons (hp : w.path = ⟨node, pending⟩ :: path) :
    w.nodes = node :: path.map Frame.node := by
  simp [nodes, hp]

/-- The edges of the innermost node are passed, as far as they are not pending. -/
theorem innermost (h : Inv g root w) (hp : w.path = ⟨node, pending⟩ :: path) :
    ∃ passed, g.arcs node = passed ++ pending ∧ w.Passed g w.nodes passed := by
  rw [nodes_cons hp]
  exact h.frames ⟨node, pending⟩ path (hp ▸ List.suffix_refl _)

/-- The frames after one more edge of the innermost node was passed. -/
theorem frames_past (h : Inv g root w) (hp : w.path = ⟨node, arc :: pending⟩ :: path)
    (hv : ∀ id, w.Visited id → w'.Visited id) (hf : ∀ i ∈ w.found, i ∈ w'.found)
    (harc : w'.Passed g w.nodes [arc]) :
    ∀ f outer, f :: outer <:+ ⟨node, pending⟩ :: path → ∃ passed,
      g.arcs f.node = passed ++ f.pending ∧
        w'.Passed g (f.node :: outer.map Frame.node) passed := by
  intro f outer hs
  -- only the innermost frame has one more edge behind it
  rcases List.suffix_cons_iff.1 hs with he | hs
  · cases he
    obtain ⟨passed, harcs, hpassed⟩ := h.innermost hp
    rw [nodes_cons hp] at harc hpassed
    refine ⟨passed ++ [arc], by simpa using harcs, fun a ha => ?_⟩
    rcases List.mem_append.1 ha with ha | ha
    · exact hpassed.mono hv hf a ha
    · exact harc a ha
  · obtain ⟨passed, harcs, hpassed⟩ :=
      h.frames f outer (hp ▸ hs.trans (List.suffix_cons _ _))
    exact ⟨passed, harcs, hpassed.mono hv hf⟩

theorem leave (h : Inv g root w) (hp : w.path = ⟨node, []⟩ :: path) :
    Inv g root (w.leave node path) := by
  have hn := nodes_cons hp
  have htrail : Trail g.Leads root (node :: path.map Frame.node) := hn ▸ h.trail (by simp [hp])
  have hnodup : (node :: path.map Frame.node).Nodup := hn ▸ h.nodup
  have hnd := List.nodup_cons.1 hnodup
  have hv : ∀ id, w.Visited id → (w.leave node path).Visited id :=
    fun id hid => visited_leave.2 (Or.inl hid)
  obtain ⟨passed, harcs, hpassed⟩ := h.innermost hp
  rw [List.append_nil] at harcs
  rw [hn, ← harcs] at hpassed
  refine ⟨fun id => ?_, fun hne => ?_, hnd.2, hv _ h.visited_root, fun f outer hs => ?_,
    fun u hu => ?_, h.found, fun u hu => ?_⟩
  · have := h.active id
    rw [hn, List.mem_cons] at this
    show id ∈ w.active.erase node ↔ id ∈ path.map Frame.node
    rw [Std.HashSet.mem_erase, this]
    constructor
    · rintro ⟨hne, rfl | hid⟩
      · simp at hne
      · exact hid
    · intro hid
      exact ⟨by simpa using fun he : node = id => hnd.1 (he ▸ hid), Or.inr hid⟩
  · change path ≠ [] at hne
    obtain ⟨f, outer, rfl⟩ := List.exists_cons_of_ne_nil hne
    exact htrail.of_suffix (List.suffix_cons _ _)
  · obtain ⟨passed', harcs', hpassed'⟩ :=
      h.frames f outer (hp ▸ hs.trans (List.suffix_cons _ _))
    exact ⟨passed', harcs', hpassed'.mono hv fun _ hi => hi⟩
  · change u ∈ w.finished.insert node at hu
    rcases Std.HashSet.mem_insert.1 hu with he | hu
    · obtain rfl : node = u := by simpa using he
      exact ⟨_, htrail, hnodup, hpassed.mono hv fun _ hi => hi⟩
    · obtain ⟨p, hp', hnd', hpassed'⟩ := h.left u hu
      exact ⟨p, hp', hnd', hpassed'.mono hv fun _ hi => hi⟩
  · change u ∈ w.finished.insert node at hu
    rcases Std.HashSet.mem_insert.1 hu with he | hu
    · obtain rfl : node = u := by simpa using he
      -- what an edge of the node leads to was left before, unless the edge was found
      refine ⟨_, fun v hv => ?_⟩
      obtain ⟨-, hk, arc, harc, rfl, hi⟩ := hv
      obtain ⟨hvis, hin⟩ := hpassed arc harc hk
      rcases hvis with ha | hfin
      · rw [h.active, hn] at ha
        exact absurd (hin ha) hi
      · exact h.settled _ hfin
    · exact h.settled u hu

/-- The walk after an edge of the innermost node was passed without entering a node. -/
theorem past (h : Inv g root w) (hp : w.path = ⟨node, arc :: pending⟩ :: path)
    {found : Std.TreeSet Nat} (hf : ∀ i ∈ w.found, i ∈ found)
    (hnew : ∀ i ∈ found, i ∈ w.found ∨ i = arc.index ∧ arc.target ∈ w.nodes)
    (hvis : arc.target ∈ g.order → w.Visited arc.target)
    (hin : arc.target ∈ w.nodes → arc.index ∈ found) :
    Inv g root { w with path := ⟨node, pending⟩ :: path, found } := by
  have hn := nodes_cons hp
  have htrail : Trail g.Leads root (node :: path.map Frame.node) := hn ▸ h.trail (by simp [hp])
  have hnodup : (node :: path.map Frame.node).Nodup := hn ▸ h.nodup
  refine ⟨fun id => ?_, fun _ => htrail, hnodup, h.visited_root, ?_, fun u hu => ?_,
    fun i hi => ?_, fun u hu => ?_⟩
  · exact (h.active id).trans (by rw [hn]; rfl)
  · refine h.frames_past hp (fun _ hid => hid) hf fun a ha hk => ?_
    obtain rfl := List.mem_singleton.1 ha
    exact ⟨hvis hk, hin⟩
  · obtain ⟨p, hp', hnd', hpassed'⟩ := h.left u hu
    exact ⟨p, hp', hnd', hpassed'.mono (fun _ hid => hid) hf⟩
  · rcases hnew i hi with hi | ⟨rfl, ht⟩
    · exact h.found i hi
    · obtain ⟨passed, harcs, -⟩ := h.innermost hp
      exact ⟨node, _, htrail, hnodup, arc, by simp [harcs], rfl, hn ▸ ht⟩
  · exact Subrelation.accessible (fun {v u} hvu => hvu.mono hf) (h.settled u hu)

theorem enter (hroot : root ∈ g.order) (h : Inv g root w)
    (hp : w.path = ⟨node, arc :: pending⟩ :: path) (hk : arc.target ∈ g.order)
    (hfresh : ¬ w.Visited arc.target) :
    Inv g root (w.enter g arc.target (⟨node, pending⟩ :: path)) := by
  have hn := nodes_cons hp
  have htrail : Trail g.Leads root (node :: path.map Frame.node) := hn ▸ h.trail (by simp [hp])
  have hnodup : (node :: path.map Frame.node).Nodup := hn ▸ h.nodup
  have hnot : arc.target ∉ w.nodes := fun hm => hfresh (Or.inl ((h.active _).2 hm))
  have hv : ∀ id, w.Visited id → (w.enter g arc.target (⟨node, pending⟩ :: path)).Visited id :=
    fun id hid => visited_enter.2 (Or.inl hid)
  obtain ⟨passed, harcs, -⟩ := h.innermost hp
  have hleads : g.Leads node arc.target :=
    ⟨Adjacency.mem_order_of_trail hroot htrail node (by simp), hk, arc, by simp [harcs], rfl⟩
  refine ⟨fun id => ?_, fun _ => ?_, ?_, hv _ h.visited_root, fun f outer hs => ?_, fun u hu => ?_,
    h.found, h.settled⟩
  · show id ∈ w.active.insert arc.target ↔ id ∈ arc.target :: node :: path.map Frame.node
    rw [Std.HashSet.mem_insert, h.active, hn, beq_iff_eq, eq_comm, ← List.mem_cons]
  · exact htrail.extend hleads
  · rw [hn] at hnot
    exact List.nodup_cons.2 ⟨hnot, hnodup⟩
  · -- nothing of the new node is passed; the edge to it leads to a visited node now
    rcases List.suffix_cons_iff.1 hs with he | hs
    · cases he
      exact ⟨[], rfl, by simp [Passed]⟩
    · refine h.frames_past hp hv (fun _ hi => hi) (fun a ha _ => ?_) f outer hs
      obtain rfl := List.mem_singleton.1 ha
      exact ⟨visited_enter.2 (Or.inr rfl), fun hm => absurd hm hnot⟩
  · obtain ⟨p, hp', hnd', hpassed'⟩ := h.left u hu
    exact ⟨p, hp', hnd', hpassed'.mono hv fun _ hi => hi⟩

theorem step (hroot : root ∈ g.order) (h : Inv g root w) (hm : Move g w w') : Inv g root w' := by
  cases hm with
  | leave hp => exact h.leave hp
  | close hp ha =>
    refine h.past hp (fun i hi => ?_) (fun i hi => ?_) (fun _ => Or.inl ha) fun _ => ?_
    · simp [hi]
    · rcases Std.TreeSet.mem_insert.1 hi with he | hi
      · exact Or.inr ⟨(Nat.compare_eq_eq.1 he).symm, (h.active _).1 ha⟩
      · exact Or.inl hi
    · simp
  | enter hp hk hf => exact h.enter hroot hp hk hf
  | pass hp ha hf =>
    exact h.past hp (fun _ hi => hi) (fun _ hi => Or.inl hi) (fun hk => Or.inr (hf hk))
      fun hm => absurd ((h.active _).2 hm) ha

end Inv

end

/-- The walk at its end. -/
theorem inv_run (hroot : root ∈ g.order) :
    Inv g root ((start g root).run g) ∧ ((start g root).run g).path = [] :=
  run_induction (fun _ _ h hm => h.step hroot hm) inv_start

end Walk

/-! ### What a walk finds -/

variable {g : Adjacency} {root u : NodeId} {i : Nat}

theorem mem_backedges : i ∈ backedges g root ↔
    root ∈ g.order ∧ i ∈ ((Walk.start g root).run g).found := by
  unfold backedges
  split_ifs with h
  · simp [Adjacency.contains_iff.1 h]
  · simp [mt Adjacency.contains_iff.2 h]

/-- A backedge leads from the end of a trail back into it. -/
theorem exists_trail_of_mem_backedges (h : i ∈ backedges g root) :
    ∃ u p, Trail g.Leads root (u :: p) ∧ (u :: p).Nodup ∧
      ∃ arc ∈ g.arcs u, arc.index = i ∧ arc.target ∈ u :: p := by
  obtain ⟨hroot, hi⟩ := mem_backedges.1 h
  exact (Walk.inv_run hroot).1.found i hi

/-- Nothing that the root reaches is on the path or unvisited at the end. -/
theorem mem_finished_of_reaches (hroot : root ∈ g.order) (h : ReflTransGen g.Leads root u) :
    u ∈ ((Walk.start g root).run g).finished := by
  obtain ⟨hinv, hend⟩ := Walk.inv_run hroot
  have hleft : ∀ id, ((Walk.start g root).run g).Visited id →
      id ∈ ((Walk.start g root).run g).finished := by
    rintro id (ha | hf)
    · rw [hinv.active, Walk.nodes, hend] at ha
      cases ha
    · exact hf
  induction h with
  | refl => exact hleft _ hinv.visited_root
  | tail _ huv ih =>
    obtain ⟨-, hk, arc, harc, rfl⟩ := huv
    obtain ⟨p, -, -, hpassed⟩ := hinv.left _ ih
    exact hleft _ (hpassed arc harc hk).1

/-- Each node that the root reaches ends a trail of which all edges back into it were found. -/
theorem exists_trail_of_reaches (hroot : root ∈ g.order) (h : ReflTransGen g.Leads root u) :
    ∃ p, Trail g.Leads root (u :: p) ∧ (u :: p).Nodup ∧
      ∀ arc ∈ g.arcs u, arc.target ∈ u :: p → arc.index ∈ backedges g root := by
  obtain ⟨p, hp, hnd, hpassed⟩ :=
    (Walk.inv_run hroot).1.left u (mem_finished_of_reaches hroot h)
  refine ⟨p, hp, hnd, fun arc harc ht => mem_backedges.2 ⟨hroot, ?_⟩⟩
  exact (hpassed arc harc (Adjacency.mem_order_of_trail hroot hp _ ht)).2 ht

/-- Without the backedges no cycle is left that the root reaches. -/
theorem not_transGen_leadsWithout (h : ReflTransGen g.Leads root u) :
    ¬ TransGen (g.LeadsWithout (backedges g root)) u u := by
  intro hcycle
  have hroot : root ∈ g.order := by
    rcases h.cases_head with rfl | ⟨_, hleads, -⟩
    · obtain ⟨_, hleads, -⟩ := TransGen.head'_iff.1 hcycle
      exact hleads.1
    · exact hleads.1
  have hacc := (Walk.inv_run hroot).1.settled u (mem_finished_of_reaches hroot h)
  have hsub : Acc (fun v u => g.LeadsWithout (backedges g root) u v) u :=
    Subrelation.accessible
      (fun {v u} hvu => hvu.mono fun i hi => mem_backedges.2 ⟨hroot, hi⟩) hacc
  -- a cycle would have to shrink forever
  exact hsub.transGen.rec (fun v _ ih hv => ih v hv hv) (transGen_swap.1 hcycle)

end Flow

end IrView
