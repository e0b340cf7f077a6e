import Mathlib.Data.List.Perm.Subperm
import Mathlib.Logic.Relation
import IrView.Flow.Adjacency

/-!
# Trails

A trail is a way through a graph that starts at a root. It is written as the list of its nodes, the
last one first, so that the path of a walk is a trail as it stands. A trail has one edge less than
it has nodes, and what it reaches can be reached without meeting a node twice.
-/

namespace IrView

namespace Flow

open Relation

/-- An edge leads from one node to another. -/
def Adjacency.Leads (g : Adjacency) (u v : NodeId) : Prop :=
  u ∈ g.order ∧ v ∈ g.order ∧ ∃ arc ∈ g.arcs u, arc.target = v

/-- A way from a root that follows a relation, its last node first. -/
inductive Trail (r : NodeId → NodeId → Prop) (root : NodeId) : List NodeId → Prop
  | start : Trail r root [root]
  | extend {u v : NodeId} {p : List NodeId} :
      Trail r root (u :: p) → r u v → Trail r root (v :: u :: p)

namespace Trail

variable {r : NodeId → NodeId → Prop} {root u v : NodeId} {p : List NodeId}

theorem reaches (h : Trail r root (u :: p)) : ReflTransGen r root u := by
  generalize hl : u :: p = l at h
  induction h generalizing u p with
  | start => cases hl; exact .refl
  | extend _ huv ih => cases hl; exact (ih rfl).tail huv

theorem exists_of_reaches (h : ReflTransGen r root u) : ∃ p, Trail r root (u :: p) := by
  induction h with
  | refl => exact ⟨[], .start⟩
  | tail _ huv ih =>
    obtain ⟨p, hp⟩ := ih
    exact ⟨_, hp.extend huv⟩

theorem reaches_iff : ReflTransGen r root u ↔ ∃ p, Trail r root (u :: p) :=
  ⟨exists_of_reaches, fun ⟨_, h⟩ => h.reaches⟩

/-- The part of a trail up to one of its nodes is a trail. -/
theorem of_suffix {l : List NodeId} (h : Trail r root l) (hs : v :: p <:+ l) :
    Trail r root (v :: p) := by
  induction h with
  | start =>
    obtain ⟨rfl, rfl⟩ : v = root ∧ p = [] := by
      simpa [List.suffix_cons_iff] using hs
    exact .start
  | extend h huv ih =>
    rcases List.suffix_cons_iff.1 hs with hs | hs
    · exact hs ▸ h.extend huv
    · exact ih hs

/-- A trail reaches its last node from each of its nodes. -/
theorem reaches_of_mem (h : Trail r root (u :: p)) (hv : v ∈ u :: p) : ReflTransGen r v u := by
  generalize hl : u :: p = l at h hv
  induction h generalizing u p with
  | start =>
    cases hl
    cases List.mem_singleton.1 hv
    exact .refl
  | extend _ huv ih =>
    cases hl
    rcases List.mem_cons.1 hv with rfl | hv
    · exact .refl
    · exact (ih rfl hv).tail huv

/-- A detour can be left out. -/
theorem exists_nodup {l : List NodeId} (h : Trail r root l) :
    ∀ v ∈ l.head?, ∃ q, Trail r root (v :: q) ∧ (v :: q).Nodup ∧ q.length < l.length := by
  induction h with
  | start => exact fun v hv => ⟨[], by simp_all [start]⟩
  | @extend u v p h huv ih =>
    rintro _ ⟨⟩
    obtain ⟨q, hq, hnd, hlt⟩ := ih u rfl
    by_cases hv : v ∈ u :: q
    · obtain ⟨q₁, q₂, he⟩ := List.append_of_mem hv
      have hs : v :: q₂ <:+ u :: q := ⟨q₁, he.symm⟩
      have hle := hs.length_le
      refine ⟨q₂, hq.of_suffix hs, hnd.sublist hs.sublist, ?_⟩
      simp only [List.length_cons] at hle hlt ⊢
      omega
    · exact ⟨u :: q, hq.extend huv, List.nodup_cons.2 ⟨hv, hnd⟩, Nat.succ_lt_succ hlt⟩

end Trail

namespace Adjacency

variable {g : Adjacency} {root : NodeId}

theorem mem_order_of_trail (hroot : root ∈ g.order) {l : List NodeId}
    (h : Trail g.Leads root l) : ∀ id ∈ l, id ∈ g.order := by
  induction h with
  | start => simpa using hroot
  | extend _ huv ih =>
    intro id hid
    rcases List.mem_cons.1 hid with rfl | hid
    · exact huv.2.1
    · exact ih id hid

/-- A trail without detour has at most as many nodes as the graph. -/
theorem length_le_of_trail (hroot : root ∈ g.order) {l : List NodeId} (h : Trail g.Leads root l)
    (hnd : l.Nodup) : l.length ≤ g.size :=
  (hnd.subperm (mem_order_of_trail hroot h)).length_le

end Adjacency

end Flow

end IrView
