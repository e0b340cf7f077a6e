import IrView.Proofs.Flow.Distance

/-!
# Blocks taken together

A graph of blocks stands for a finer graph in which most blocks are two nodes, an entry and an end
with a single edge between them (`Subdivision`). A walk through the finer graph is a walk through
the blocks with two frames for each block on its path (`Walk.Expands`): one step of the coarse walk
is one step or two of the fine one. So both walks find the same edges, up to the way in which they
are numbered (`Subdivision.mem_backedges_iff`), and a way through the blocks is half as long as the
way through their nodes (`Subdivision.distance`).
-/

namespace IrView

namespace Flow

open Relation

/-- The node is the entry of the block or its end. -/
def InBlock (last : NodeId → Option NodeId) (entry id : NodeId) : Prop :=
  id = entry ∨ last entry = some id

/-- The node from which the edges of a block leave. -/
def exit (last : NodeId → Option NodeId) (entry : NodeId) : NodeId :=
  (last entry).getD entry

/-- The edge with another number. -/
def Arc.renumber (number : Nat → Nat) (arc : Arc) : Arc :=
  ⟨number arc.index, arc.target⟩

/-- The nodes of `g` stand for blocks of nodes of `g'`. The edges of a block leave its end in
`g'`; a block without an end is left by none. -/
structure Subdivision (last : NodeId → Option NodeId) (number : Nat → Nat) (g g' : Adjacency) :
    Prop where
  known : ∀ b ∈ g.order, ∀ x, InBlock last b x → x ∈ g'.order
  disjoint : ∀ b ∈ g.order, ∀ c ∈ g.order, ∀ x, InBlock last b x → InBlock last c x → b = c
  proper : ∀ b ∈ g.order, last b ≠ some b
  closed : ∀ b ∈ g.order, ∀ arc ∈ g.arcs b, arc.target ∈ g.order
  unlinked : ∀ b ∈ g.order, last b = none → g.arcs b = []
  linked : ∀ b ∈ g.order, ∀ t, last b = some t → ∃ i, g'.arcs b = [⟨i, t⟩]
  arcs_exit : ∀ b ∈ g.order, g'.arcs (exit last b) = (g.arcs b).map (Arc.renumber number)

variable {last : NodeId → Option NodeId} {number : Nat → Nat} {g g' : Adjacency}
  {root b c t x : NodeId}

theorem inBlock_self : InBlock last b b :=
  Or.inl rfl

theorem exit_of_none (h : last b = none) : exit last b = b := by
  rw [exit, h, Option.getD_none]

theorem exit_of_some (h : last b = some t) : exit last b = t := by
  rw [exit, h, Option.getD_some]

namespace Walk

/-! ### Expanded walks -/

/-- The frame of the entry, if the block has an end. -/
def entryFrame (last : NodeId → Option NodeId) (b : NodeId) : List Frame :=
  match last b with
  | some _ => [⟨b, []⟩]
  | none => []

/-- The frames of a block. -/
def expand (last : NodeId → Option NodeId) (number : Nat → Nat) (f : Frame) : List Frame :=
  ⟨exit last f.node, f.pending.map (Arc.renumber number)⟩ :: entryFrame last f.node

/-- The second walk is the first one, with the nodes of a block in place of the block. -/
structure Expands (last : NodeId → Option NodeId) (number : Nat → Nat) (w w' : Walk) : Prop where
  path : w'.path = w.path.flatMap (expand last number)
  active : ∀ x, x ∈ w'.active ↔ ∃ b ∈ w.active, InBlock last b x
  finished : ∀ x, x ∈ w'.finished ↔ ∃ b ∈ w.finished, InBlock last b x
  found : ∀ i, i ∈ w'.found ↔ ∃ j ∈ w.found, number j = i

/-- A walk that stands at the end of a block leaves the block. -/
theorem exists_run_leaveBlock {w : Walk} {path : List Frame}
    (hp : w.path = ⟨exit last b, []⟩ :: (entryFrame last b ++ path)) :
    ∃ v : Walk, w.run g' = v.run g' ∧ v.path = path ∧
      (∀ x, x ∈ v.active ↔ x ∈ w.active ∧ ¬ InBlock last b x) ∧
      (∀ x, x ∈ v.finished ↔ x ∈ w.finished ∨ InBlock last b x) ∧ v.found = w.found := by
  cases hl : last b with
  | none =>
    rw [entryFrame, hl, exit_of_none hl] at hp
    refine ⟨w.leave b path, run_of_move (.leave hp), rfl, fun x => ?_, fun x => ?_, rfl⟩
    · rw [leave, Std.HashSet.mem_erase, beq_eq_false_iff_ne, InBlock, hl]
      simp [and_comm, eq_comm]
    · rw [leave, Std.HashSet.mem_insert, beq_iff_eq, InBlock, hl]
      simp [or_comm, eq_comm]
  | some t =>
    rw [entryFrame, hl, exit_of_some hl] at hp
    -- the end is left first; the frame of the entry has nothing pending
    refine ⟨(w.leave t (⟨b, []⟩ :: path)).leave b path, ?_, rfl, fun x => ?_, fun x => ?_, rfl⟩
    · rw [run_of_move (.leave hp), run_of_move (.leave rfl)]
      rfl
    · rw [leave, leave, Std.HashSet.mem_erase, Std.HashSet.mem_erase, beq_eq_false_iff_ne,
        beq_eq_false_iff_ne, InBlock, hl, Option.some.injEq]
      tauto
    · rw [leave, leave, Std.HashSet.mem_insert, Std.HashSet.mem_insert, beq_iff_eq, beq_iff_eq,
        InBlock, hl, Option.some.injEq]
      tauto

/-- A walk that stands at the entry of a block goes on to its end. -/
theorem exists_run_enterBlock (hd : Subdivision last number g g') (hb : b ∈ g.order) {w : Walk}
    {path : List Frame} (hp : w.path = ⟨b, g'.arcs b⟩ :: path) (hactive : b ∈ w.active)
    (hfresh : ∀ t, last b = some t → ¬ w.Visited t) :
    ∃ v : Walk, w.run g' = v.run g' ∧ v.path = expand last number ⟨b, g.arcs b⟩ ++ path ∧
      (∀ x, x ∈ v.active ↔ x ∈ w.active ∨ InBlock last b x) ∧ v.finished = w.finished ∧
      v.found = w.found := by
  have harcs := hd.arcs_exit b hb
  cases hl : last b with
  | none =>
    rw [exit_of_none hl] at harcs
    refine ⟨w, rfl, ?_, fun x => ⟨Or.inl, ?_⟩, rfl, rfl⟩
    · rw [hp, harcs, expand, entryFrame, hl, exit_of_none hl]
      rfl
    · rintro (hx | rfl | hx)
      · exact hx
      · exact hactive
      · rw [hl] at hx
        cases hx
  | some t =>
    rw [exit_of_some hl] at harcs
    obtain ⟨i, hi⟩ := hd.linked b hb t hl
    rw [hi] at hp
    have ht := hd.known b hb t (Or.inr hl)
    refine ⟨w.enter g' t (⟨b, []⟩ :: path), run_of_move (.enter hp ht (hfresh t hl)), ?_,
      fun x => ?_, rfl, rfl⟩
    · rw [expand, entryFrame, hl, exit_of_some hl, ← harcs]
      rfl
    · rw [enter, Std.HashSet.mem_insert, beq_iff_eq, InBlock, hl, Option.some.injEq]
      constructor
      · rintro (rfl | hx)
        · exact Or.inr (Or.inr rfl)
        · exact Or.inl hx
      · rintro (hx | rfl | rfl)
        · exact Or.inr hx
        · exact Or.inr hactive
        · exact Or.inl rfl

/-! ### Simulation -/

namespace Inv

variable {w : Walk}

theorem mem_order_of_nodes (h : Inv g root w) (hroot : root ∈ g.order) (hb : b ∈ w.nodes) :
    b ∈ g.order := by
  have hne : w.path ≠ [] := by
    intro he
    rw [nodes, he] at hb
    cases hb
  exact Adjacency.mem_order_of_trail hroot (h.trail hne) b hb

theorem mem_order_of_visited (h : Inv g root w) (hroot : root ∈ g.order) (hb : w.Visited b) :
    b ∈ g.order := by
  rcases hb with hb | hb
  · exact h.mem_order_of_nodes hroot ((h.active b).1 hb)
  · obtain ⟨p, hp, -, -⟩ := h.left b hb
    exact Adjacency.mem_order_of_trail hroot hp b List.mem_cons_self

end Inv

namespace Expands

variable {w w' v : Walk}

theorem path_cons (he : Expands last number w w') {pending : List Arc} {path : List Frame}
    (hp : w.path = ⟨b, pending⟩ :: path) :
    w'.path = ⟨exit last b, pending.map (Arc.renumber number)⟩ ::
      (entryFrame last b ++ path.flatMap (expand last number)) := by
  rw [he.path, hp]
  rfl

theorem visited (he : Expands last number w w') :
    w'.Visited x ↔ ∃ b, w.Visited b ∧ InBlock last b x := by
  rw [Visited, he.active, he.finished]
  constructor
  · rintro (⟨b, hb, hx⟩ | ⟨b, hb, hx⟩)
    · exact ⟨b, Or.inl hb, hx⟩
    · exact ⟨b, Or.inr hb, hx⟩
  · rintro ⟨b, hb | hb, hx⟩
    · exact Or.inl ⟨b, hb, hx⟩
    · exact Or.inr ⟨b, hb, hx⟩

/-- Of a block that was not visited no node was visited. -/
theorem not_visited (hd : Subdivision last number g g') (hroot : root ∈ g.order)
    (hi : Inv g root w) (he : Expands last number w w') (hb : b ∈ g.order) (hx : InBlock last b x)
    (hfresh : ¬ w.Visited b) : ¬ w'.Visited x := by
  rw [he.visited]
  rintro ⟨c, hc, hxc⟩
  have hck := hi.mem_order_of_visited hroot hc
  obtain rfl := hd.disjoint b hb c hck x hx hxc
  exact hfresh hc

/-- An entry is on one path iff it is on the other. -/
theorem mem_active (hd : Subdivision last number g g') (hroot : root ∈ g.order)
    (hi : Inv g root w) (he : Expands last number w w') (hb : b ∈ g.order) :
    b ∈ w'.active ↔ b ∈ w.active := by
  rw [he.active]
  constructor
  · rintro ⟨c, hc, hx⟩
    have hck := hi.mem_order_of_visited hroot (Or.inl hc)
    obtain rfl := hd.disjoint b hb c hck b inBlock_self hx
    exact hc
  · exact fun h => ⟨b, h, inBlock_self⟩

theorem leave (hd : Subdivision last number g g') (hroot : root ∈ g.order) (hi : Inv g root w)
    (he : Expands last number w w') {path : List Frame} (hp : w.path = ⟨b, []⟩ :: path) :
    ∃ v', w'.run g' = v'.run g' ∧ Expands last number (w.leave b path) v' := by
  obtain ⟨v', hrun, hpath, hactive, hfinished, hfound⟩ := exists_run_leaveBlock (he.path_cons hp)
  have hb : b ∈ g.order := by
    refine hi.mem_order_of_nodes hroot ?_
    simp [Inv.nodes_cons hp]
  refine ⟨v', hrun, hpath, fun x => ?_, fun x => ?_, fun i => ?_⟩
  · show x ∈ v'.active ↔ ∃ c ∈ w.active.erase b, InBlock last c x
    simp only [hactive, he.active, Std.HashSet.mem_erase, beq_eq_false_iff_ne]
    constructor
    · rintro ⟨⟨c, hc, hx⟩, hnot⟩
      exact ⟨c, ⟨fun hbc => hnot (hbc ▸ hx), hc⟩, hx⟩
    · rintro ⟨c, ⟨hne, hc⟩, hx⟩
      refine ⟨⟨c, hc, hx⟩, fun hxb => hne ?_⟩
      exact hd.disjoint b hb c (hi.mem_order_of_visited hroot (Or.inl hc)) x hxb hx
  · show x ∈ v'.finished ↔ ∃ c ∈ w.finished.insert b, InBlock last c x
    simp only [hfinished, he.finished, Std.HashSet.mem_insert, beq_iff_eq]
    constructor
    · rintro (⟨c, hc, hx⟩ | hx)
      · exact ⟨c, Or.inr hc, hx⟩
      · exact ⟨b, Or.inl rfl, hx⟩
    · rintro ⟨c, rfl | hc, hx⟩
      · exact Or.inr hx
      · exact Or.inl ⟨c, hc, hx⟩
  · rw [hfound]
    exact he.found i

/-- A walk that stands at the entry of a new block goes on to the expanded walk. -/
theorem enter (hd : Subdivision last number g g') (hb : b ∈ g.order) {path : List Frame}
    {u : Walk} (hp : u.path = ⟨b, g'.arcs b⟩ :: path.flatMap (expand last number))
    (hactive : ∀ x, x ∈ u.active ↔ x = b ∨ ∃ c ∈ w.active, InBlock last c x)
    (hfinished : ∀ x, x ∈ u.finished ↔ ∃ c ∈ w.finished, InBlock last c x)
    (hfound : ∀ i, i ∈ u.found ↔ ∃ j ∈ w.found, number j = i)
    (hfresh : ∀ t, last b = some t → ¬ u.Visited t) :
    ∃ v', u.run g' = v'.run g' ∧ Expands last number (w.enter g b path) v' := by
  obtain ⟨v', hrun, hpath, hactive', hfinished', hfound'⟩ :=
    exists_run_enterBlock hd hb hp ((hactive b).2 (Or.inl rfl)) hfresh
  refine ⟨v', hrun, hpath, fun x => ?_, fun x => ?_, fun i => ?_⟩
  · show x ∈ v'.active ↔ ∃ c ∈ w.active.insert b, InBlock last c x
    simp only [hactive', hactive, Std.HashSet.mem_insert, beq_iff_eq]
    constructor
    · rintro ((rfl | ⟨c, hc, hx⟩) | hx)
      · exact ⟨x, Or.inl rfl, inBlock_self⟩
      · exact ⟨c, Or.inr hc, hx⟩
      · exact ⟨b, Or.inl rfl, hx⟩
    · rintro ⟨c, rfl | hc, hx⟩
      · exact Or.inr hx
      · exact Or.inl (Or.inr ⟨c, hc, hx⟩)
  · rw [hfinished']
    exact hfinished x
  · rw [hfound']
    exact hfound i

/-- One step of the coarse walk is one step or two of the fine one. -/
theorem step (hd : Subdivision last number g g') (hroot : root ∈ g.order) (hi : Inv g root w)
    (he : Expands last number w w') (hm : Move g w v) :
    ∃ v', w'.run g' = v'.run g' ∧ Expands last number v v' := by
  cases hm with
  | leave hp => exact he.leave hd hroot hi hp
  | @close node arc pending path hp ha =>
    have hb := hi.mem_order_of_visited hroot (Or.inl ha)
    refine ⟨_, run_of_move (.close (he.path_cons hp) ?_), ?_⟩
    · exact (he.mem_active hd hroot hi hb).2 ha
    · refine ⟨rfl, he.active, he.finished, fun i => ?_⟩
      show i ∈ w'.found.insert (number arc.index) ↔ ∃ j ∈ w.found.insert arc.index, number j = i
      simp only [Std.TreeSet.mem_insert, Nat.compare_eq_eq, he.found]
      constructor
      · rintro (rfl | ⟨j, hj, rfl⟩)
        · exact ⟨_, Or.inl rfl, rfl⟩
        · exact ⟨j, Or.inr hj, rfl⟩
      · rintro ⟨j, rfl | hj, rfl⟩
        · exact Or.inl rfl
        · exact Or.inr ⟨j, hj, rfl⟩
  | @enter node arc pending path hp hk hf =>
    have hk' := hd.known _ hk _ inBlock_self
    have hf' := he.not_visited hd hroot hi hk inBlock_self hf
    -- the fine walk enters the block at its entry, and its end in a second step
    rw [run_of_move (.enter (he.path_cons hp) hk' hf')]
    refine enter hd hk rfl (fun x => ?_) he.finished he.found fun t ht => ?_
    · show x ∈ w'.active.insert arc.target ↔ _
      rw [Std.HashSet.mem_insert, he.active, beq_iff_eq, eq_comm]
    · have hne : t ≠ arc.target := fun h => hd.proper _ hk (h ▸ ht)
      rw [visited_enter, not_or]
      exact ⟨he.not_visited hd hroot hi hk (Or.inr ht) hf, hne⟩
  | @pass node arc pending path hp ha hf =>
    have hb : node ∈ g.order := by
      refine hi.mem_order_of_nodes hroot ?_
      simp [Inv.nodes_cons hp]
    obtain ⟨passed, harcs, -⟩ := hi.innermost hp
    have hk := hd.closed node hb arc (by simp [harcs])
    refine ⟨_, run_of_move (.pass (he.path_cons hp) ?_ fun _ => ?_), ?_⟩
    · exact mt (he.mem_active hd hroot hi hk).1 ha
    · exact (he.finished _).2 ⟨arc.target, hf hk, inBlock_self⟩
    · exact ⟨rfl, he.active, he.finished, he.found⟩

theorem start (hd : Subdivision last number g g') (hroot : root ∈ g.order) :
    ∃ w', (start g' root).run g' = w'.run g' ∧ Expands last number (start g root) w' := by
  have hactive : ∀ x, x ∈ (Walk.start g' root).active ↔ x = root := by
    intro x
    rw [Walk.start, Std.HashSet.mem_ofList]
    simp
  obtain ⟨w', hrun, hpath, hactive', hfinished, hfound⟩ :=
    exists_run_enterBlock hd hroot (w := Walk.start g' root) rfl
      ((hactive root).2 rfl) fun t ht => by
        rintro (h | h)
        · exact hd.proper root hroot (((hactive t).1 h) ▸ ht)
        · simp [Walk.start] at h
  refine ⟨w', hrun, hpath, fun x => ?_, fun x => ?_, fun i => ?_⟩
  · rw [hactive', hactive]
    simp only [Walk.start, Std.HashSet.mem_ofList]
    simp only [List.contains_cons, List.contains_nil, Bool.or_false, beq_iff_eq, exists_eq_left]
    constructor
    · rintro (rfl | hx)
      · exact inBlock_self
      · exact hx
    · exact Or.inr
  · rw [hfinished]
    simp [Walk.start]
  · rw [hfound]
    simp [Walk.start]

end Expands

end Walk

namespace Subdivision

/-! ### What both walks find -/

/-- **A walk through the blocks finds what a walk through their nodes finds.** -/
theorem mem_backedges_iff (hd : Subdivision last number g g') (hroot : root ∈ g.order) {i : Nat} :
    i ∈ backedges g' root ↔ ∃ j ∈ backedges g root, number j = i := by
  -- the coarse walk carries a fine walk along that has the same end as the fine walk from the root
  obtain ⟨w', hrun, hstart⟩ := Walk.Expands.start hd hroot
  obtain ⟨⟨-, v', hrun', hend⟩, hpath⟩ :=
    Walk.run_induction (g := g)
      (P := fun w => Walk.Inv g root w ∧
        ∃ w', (Walk.start g' root).run g' = w'.run g' ∧ Walk.Expands last number w w')
      (fun w v ⟨hi, w', hrun, he⟩ hm => by
        obtain ⟨v', hrun', he'⟩ := he.step hd hroot hi hm
        exact ⟨hi.step hroot hm, v', hrun.trans hrun', he'⟩)
      ⟨Walk.inv_start, w', hrun, hstart⟩
  have hpath' : v'.path = [] := by
    rw [hend.path, hpath, List.flatMap_nil]
  rw [mem_backedges, hrun', Walk.run_of_nil hpath', hend.found]
  simp only [mem_backedges, hroot, hd.known root hroot root inBlock_self, true_and]

/-! ### The ways to a block -/

/-- A way through the blocks, with the ends of the blocks put in. -/
theorem exists_trail_of_coarse (hd : Subdivision last number g g') {l : List NodeId}
    (h : Trail g.Leads root l) : ∀ b q, l = b :: q →
      ∃ p, Trail g'.Leads root (b :: p) ∧ p.length = 2 * q.length := by
  induction h with
  | start =>
    rintro b q he
    cases he
    exact ⟨[], .start, rfl⟩
  | @extend u v q _ huv ih =>
    rintro _ _ he
    cases he
    obtain ⟨p, hp, hlen⟩ := ih u q rfl
    obtain ⟨hu, hv, arc, harc, rfl⟩ := huv
    cases hl : last u with
    | none => simp [hd.unlinked u hu hl] at harc
    | some t =>
      have ht := hd.known u hu t (Or.inr hl)
      have hexit := hd.arcs_exit u hu
      obtain ⟨i, hi⟩ := hd.linked u hu t hl
      rw [exit_of_some hl] at hexit
      refine ⟨t :: u :: p, (hp.extend ⟨?_, ht, ⟨i, t⟩, by simp [hi], rfl⟩).extend
        ⟨ht, ?_, arc.renumber number, ?_, rfl⟩, ?_⟩
      · exact hd.known u hu u inBlock_self
      · exact hd.known _ hv _ inBlock_self
      · rw [hexit]
        exact List.mem_map_of_mem harc
      · rw [List.length_cons, List.length_cons, List.length_cons, hlen]
        omega

/-- A way through the nodes is a way through their blocks: two edges are one edge between blocks,
and one more edge leads to the end of a block. -/
theorem exists_trail_of_fine (hd : Subdivision last number g g') (hroot : root ∈ g.order)
    {l : List NodeId} (h : Trail g'.Leads root l) : ∀ x p, l = x :: p →
      ∃ b ∈ g.order, ∃ q, Trail g.Leads root (b :: q) ∧
        (x = b ∧ p.length = 2 * q.length ∨ last b = some x ∧ p.length = 2 * q.length + 1) := by
  induction h with
  | start =>
    rintro x p he
    cases he
    exact ⟨root, hroot, [], .start, Or.inl ⟨rfl, rfl⟩⟩
  | @extend u v p _ huv ih =>
    rintro _ _ he
    cases he
    obtain ⟨b, hb, q, hq, hu⟩ := ih u p rfl
    obtain ⟨-, -, arc, harc, rfl⟩ := huv
    have hexit := hd.arcs_exit b hb
    rcases hu with ⟨rfl, hlen⟩ | ⟨hl, hlen⟩
    · -- from the entry only the end of the block follows
      cases hl : last u with
      | none =>
        rw [exit_of_none hl, hd.unlinked u hb hl] at hexit
        simp [hexit] at harc
      | some t =>
        obtain ⟨i, hi⟩ := hd.linked u hb t hl
        rw [hi, List.mem_singleton] at harc
        subst harc
        exact ⟨u, hb, q, hq, Or.inr ⟨hl, by rw [List.length_cons, hlen]⟩⟩
    · -- from the end of the block an edge leads to the entry of the next one
      rw [exit_of_some hl] at hexit
      rw [hexit] at harc
      obtain ⟨arc', harc', rfl⟩ := List.mem_map.1 harc
      have hk := hd.closed b hb arc' harc'
      refine ⟨arc'.target, hk, b :: q, hq.extend ⟨hb, hk, arc', harc', rfl⟩, Or.inl ⟨rfl, ?_⟩⟩
      rw [List.length_cons, List.length_cons, hlen]
      omega

/-- A way to an entry through the nodes is twice as long as one through the blocks. -/
theorem exists_trail_of_fine_entry (hd : Subdivision last number g g') (hroot : root ∈ g.order)
    (hb : b ∈ g.order) {p : List NodeId} (h : Trail g'.Leads root (b :: p)) :
    ∃ q, Trail g.Leads root (b :: q) ∧ p.length = 2 * q.length := by
  obtain ⟨c, hc, q, hq, ⟨rfl, hlen⟩ | ⟨hl, -⟩⟩ := hd.exists_trail_of_fine hroot h b p rfl
  · exact ⟨q, hq, hlen⟩
  · obtain rfl := hd.disjoint b hb c hc b inBlock_self (Or.inr hl)
    exact absurd hl (hd.proper b hb)

theorem reaches_iff (hd : Subdivision last number g g') (hroot : root ∈ g.order)
    (hb : b ∈ g.order) : ReflTransGen g'.Leads root b ↔ ReflTransGen g.Leads root b := by
  rw [Trail.reaches_iff, Trail.reaches_iff]
  constructor
  · rintro ⟨p, hp⟩
    obtain ⟨q, hq, -⟩ := hd.exists_trail_of_fine_entry hroot hb hp
    exact ⟨q, hq⟩
  · rintro ⟨q, hq⟩
    obtain ⟨p, hp, -⟩ := hd.exists_trail_of_coarse hq b q rfl
    exact ⟨p, hp⟩

/-- **The nodes double the distances of their blocks.** -/
theorem distance (hd : Subdivision last number g g') (hroot : root ∈ g.order) (hb : b ∈ g.order)
    {n : Nat} (h : g.Distance root b n) : g'.Distance root b (2 * n) := by
  obtain ⟨⟨q, hq, rfl⟩, hmin⟩ := h
  refine ⟨hd.exists_trail_of_coarse hq b q rfl, fun p hp => ?_⟩
  obtain ⟨q', hq', hlen⟩ := hd.exists_trail_of_fine_entry hroot hb hp
  have := hmin q' hq'
  omega

end Subdivision

end Flow

end IrView
