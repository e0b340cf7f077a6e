import IrView.Proofs.Display.Collapse
import IrView.Proofs.Display.Walks

/-!
# Sessions

A session starts with the builder that holds some records and works on it by any number of
operations, in any order (`Builder.run`). No operation leaves a table stale: one that moves an
element or the source of an edge indexes the lists again, and the walks change neither an id nor a
source (`Builder.Indexed.apply`). So after every session the tables answer as a search through the
lists does (`Builder.tables_never_stale`).
-/

namespace IrView

namespace Display

variable {N E : Type}

/-- An operation on a builder. -/
inductive Operation (N E : Type) where
  | collapse (summarize : Node N → Node N → Summary)
  | dropDangling
  | markBackedges (root : NodeId) (follows : E → Bool)
  | assignLevels (root : NodeId) (follows : E → Bool)
  | reindex

namespace Builder

/-- The builder after an operation. -/
def apply [NodeRecord N] [EdgeRecord E] (b : Builder N E) : Operation N E → Builder N E
  | .collapse summarize => b.collapse summarize
  | .dropDangling => b.dropDangling
  | .markBackedges root follows => b.markBackedges root follows
  | .assignLevels root follows => b.assignLevels root follows
  | .reindex => b.reindex

/-- The builder after a list of operations, the first one first. -/
def run [NodeRecord N] [EdgeRecord E] (b : Builder N E) (operations : List (Operation N E)) :
    Builder N E :=
  operations.foldl apply b

variable {b : Builder N E}

/-! ### One operation -/

theorem sources_markBackedges {root : NodeId} {follows : E → Bool} :
    (b.markBackedges root follows).edges.map Edge.source = b.edges.map Edge.source := by
  have hends : (b.markBackedges root follows).edges.map ends = b.edges.map ends :=
    ends_markBackedges
  have hsource : (Edge.source : Edge E → NodeId) = (fun x => x.2.1) ∘ ends := rfl
  rw [hsource, ← List.map_map, hends, List.map_map]

theorem Indexed.dropDangling (h : b.Indexed) : b.dropDangling.Indexed := by
  unfold Builder.dropDangling
  split
  · exact h
  · exact indexed_reindex _

variable [NodeRecord N] [EdgeRecord E]

/-- No operation leaves a table stale. -/
theorem Indexed.apply (h : b.Indexed) (operation : Operation N E) :
    (b.apply operation).Indexed := by
  cases operation with
  | collapse summarize => exact (indexed_reindex (b.mergeBlocks summarize)).dropDangling
  | dropDangling => exact h.dropDangling
  | markBackedges root follows => exact h.of_eq rfl rfl rfl sources_markBackedges
  | assignLevels root follows => exact h.of_eq rfl rfl ids_assignLevels rfl
  | reindex => exact indexed_reindex b

/-! ### Runs -/

/-- What holds at first and is kept by every operation on an indexed builder holds after a run. -/
theorem run_induction {P : Builder N E → Prop} (hb : b.Indexed) (h : P b)
    (hstep : ∀ b operation, Indexed b → P b → P (b.apply operation))
    (operations : List (Operation N E)) : P (b.run operations) := by
  induction operations generalizing b with
  | nil => exact h
  | cons operation operations ih => exact ih (hb.apply operation) (hstep b operation hb h)

theorem Indexed.run (h : b.Indexed) (operations : List (Operation N E)) :
    (b.run operations).Indexed :=
  run_induction h h (fun _ operation hb _ => hb.apply operation) operations

/-- **The tables never go stale.** After every session they answer as a search through the lists
does, and no place in them lies outside the lists; so the finished graph finds the nodes that the
builder finds. -/
theorem tables_never_stale (s : Strategy N E) (nodes : List N) (edges : List E)
    (operations : List (Operation N E)) :
    let b := (ofRecords nodes edges s).run operations
    (∀ id, b.node? id = b.nodes.find? fun n => n.id == id) ∧
    (∀ id, b.node? id = none ↔ ∀ n ∈ b.nodes, n.id ≠ id) ∧
    (∀ id, b.contains id = (b.node? id).isSome) ∧
    (∀ id, (b.outgoing id).Pairwise (· < ·) ∧
      ∀ i, i ∈ b.outgoing id ↔ ∃ e, b.edges[i]? = some e ∧ e.source = id) ∧
    (∀ (id : NodeId) (i : Nat), b.position[id]? = some i → i < b.nodes.length) ∧
    (∀ (id : NodeId) (places : List Nat), b.leaving[id]? = some places →
      ∀ i ∈ places, i < b.edges.length) ∧
    ∀ id, b.finish.node? id = b.node? id := by
  intro b
  have h : b.Indexed := (indexed_ofRecords nodes edges s).run operations
  refine ⟨h.node?_eq_find?, fun id => ?_, h.contains_eq,
    fun id => ⟨h.pairwise_outgoing id, fun i => h.mem_outgoing⟩,
    fun id i => h.lt_of_getElem?_position, fun id places hp i => h.lt_of_mem_leaving hp,
    fun id => (h.node?_eq_find? id).symm⟩
  rw [h.node?_eq_find?, List.find?_eq_none]
  simp only [beq_iff_eq, ne_eq]

end Builder

end Display

end IrView
