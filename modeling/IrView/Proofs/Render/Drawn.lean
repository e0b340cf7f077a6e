import Mathlib.Data.List.Basic
import Mathlib.Data.List.Nodup
import IrView.Proofs.Grouping
import IrView.Render.Dot
import IrView.Render.Layout

/-!
# What is drawn

Hidden nodes are not drawn, nor are hidden edges and edges with an end that is no drawn node. Drawn
nodes of one container belong together. DOT statements and layout inputs are made node by node, each
with tables of its own; both come to the same (`Dot.body_eq`, `Layout.ofGraph_eq`), because a table
of places always tells where in the list a container stands (`Grouping.Holds`).
-/

namespace IrView

/-! ### Drawn nodes and edges -/

namespace Display

variable {N E α : Type}

/-- The container of a node, with what is listed of the node. -/
def Node.placed (f : Node N → α) (n : Node N) : Option (String × α) :=
  n.container.map fun container => (container, f n)

theorem keys_placed (f : Node N → α) (nodes : List (Node N)) :
    Grouping.keys (nodes.filterMap (Node.placed f)) =
      (nodes.filterMap Node.container).eraseDups := by
  rw [Grouping.keys, List.map_filterMap]
  refine congrArg List.eraseDups (List.filterMap_congr fun n _ => ?_)
  rw [Node.placed, Option.map_map]
  exact Option.map_id'

theorem membersOf_placed (f : Node N → α) (nodes : List (Node N)) (container : String) :
    Grouping.membersOf (nodes.filterMap (Node.placed f)) container =
      (nodes.filter fun n => n.container == some container).map f := by
  induction nodes with
  | nil => rfl
  | cons n nodes ih =>
    rw [Grouping.membersOf] at ih ⊢
    cases hn : n.container with
    | none => simpa [Node.placed, hn] using ih
    | some c =>
      by_cases hc : c = container
      · simpa [Node.placed, hn, hc] using ih
      · simpa [Node.placed, hn, hc] using ih

namespace Graph

variable (g : Graph N E)

/-- The nodes that are drawn. -/
def drawnNodes : List (Node N) :=
  g.nodes.filter fun n => !n.hidden

/-- Whether a node with the id is drawn. -/
def isDrawn (id : NodeId) : Bool :=
  (g.drawnNodes.map Node.id).contains id

/-- The edges that are drawn. -/
def drawnEdges : List (Edge E) :=
  g.edges.filter fun e => !e.hidden && g.isDrawn e.source && g.isDrawn e.target

/-- The containers of drawn nodes with their nodes, in the order in which they first appear. -/
def containers : List (String × List (Node N)) :=
  (g.drawnNodes.filterMap Node.container).eraseDups.map fun container =>
    (container, g.drawnNodes.filter fun n => n.container == some container)

/-- The drawn nodes outside of boxes; `cluster` asks for boxes. -/
def looseNodes (cluster : Bool) : List (Node N) :=
  g.drawnNodes.filter fun n => !(cluster && n.container.isSome)

variable {g}

theorem groups_placed (f : Node N → α) :
    (Grouping.addAll {} (g.drawnNodes.filterMap (Node.placed f))).groups =
      g.containers.map fun (name, nodes) => (name, nodes.map f) := by
  rw [Grouping.groups_addAll, keys_placed, containers, List.map_map]
  exact List.map_congr_left fun name _ => congrArg (Prod.mk name) (membersOf_placed f _ name)

/-- Container by container, the nodes inside of different containers are listed once each. -/
theorem flatMap_filter_perm (nodes : List (Node N)) {names : List String} (hnodup : names.Nodup) :
    (names.flatMap fun name => nodes.filter fun n => n.container == some name).Perm
      (nodes.filter fun n => n.container.any names.contains) := by
  induction names with
  | nil =>
    refine List.Perm.of_eq (List.filter_eq_nil_iff.2 fun n _ => ?_).symm
    cases n.container <;> simp
  | cons name names ih =>
    rw [List.nodup_cons] at hnodup
    -- The nodes inside of any container are those of the first one and those of the others.
    let inside (n : Node N) : Bool := n.container.any (name :: names).contains
    have hfirst : (nodes.filter inside).filter (fun n => n.container == some name) =
        nodes.filter fun n => n.container == some name := by
      rw [List.filter_filter]
      refine List.filter_congr fun n _ => ?_
      cases hn : n.container with
      | none => rfl
      | some c => by_cases hc : c = name <;> simp [inside, hn, hc]
    have hothers : (nodes.filter inside).filter (fun n => !(n.container == some name)) =
        nodes.filter fun n => n.container.any names.contains := by
      rw [List.filter_filter]
      refine List.filter_congr fun n _ => ?_
      cases hn : n.container with
      | none => simp [inside, hn]
      | some c => by_cases hc : c = name <;> simp [inside, hn, hc, hnodup.1]
    have hsplit := List.filter_append_perm (fun n => n.container == some name) (nodes.filter inside)
    rw [hfirst, hothers] at hsplit
    rw [List.flatMap_cons]
    exact ((ih hnodup.2).append_left _).trans hsplit

/-- The containers hold each drawn node that has a container, and hold it once. -/
theorem containers_perm (g : Graph N E) : (g.containers.flatMap Prod.snd).Perm
    (g.drawnNodes.filter fun n => n.container.isSome) := by
  have hall : (g.drawnNodes.filter fun n =>
      n.container.any (g.drawnNodes.filterMap Node.container).eraseDups.contains) =
      g.drawnNodes.filter fun n => n.container.isSome := by
    refine List.filter_congr fun n hn => ?_
    cases hcontainer : n.container with
    | none => rfl
    | some c =>
      have hmem : c ∈ g.drawnNodes.filterMap Node.container :=
        List.mem_filterMap.2 ⟨n, hn, hcontainer⟩
      simpa using hmem
  rw [containers, List.flatMap_map, ← hall]
  exact flatMap_filter_perm _ (Lookup.nodup_eraseDups _)

/-- Boxes move drawn nodes, they add and drop none. -/
theorem boxed_perm (g : Graph N E) :
    (g.containers.flatMap Prod.snd ++ g.looseNodes true).Perm g.drawnNodes :=
  (g.containers_perm.append_right _).trans
    (List.filter_append_perm (fun n => n.container.isSome) g.drawnNodes)

theorem looseNodes_false (g : Graph N E) : g.looseNodes false = g.drawnNodes := by
  simp [looseNodes]

end Graph

end Display

namespace Dot

variable {N E : Type}

theorem foldl_add_boxes (nodes : List (Display.Node N)) (boxes : Boxes N) :
    nodes.foldl (Boxes.add true) boxes =
      ⟨boxes.grouping.addAll (nodes.filterMap (Display.Node.placed id)),
        boxes.loose ++ nodes.filter fun n => n.container.isNone⟩ := by
  induction nodes generalizing boxes with
  | nil => simp [Grouping.addAll]
  | cons n nodes ih =>
    rw [List.foldl_cons, ih]
    cases hn : n.container with
    | none => simp [Boxes.add, Display.Node.placed, hn]
    | some container => simp [Boxes.add, Display.Node.placed, Grouping.addAll, hn]

theorem foldl_add_loose (nodes : List (Display.Node N)) (boxes : Boxes N) :
    nodes.foldl (Boxes.add false) boxes = { boxes with loose := boxes.loose ++ nodes } := by
  induction nodes generalizing boxes with
  | nil => simp
  | cons n nodes ih =>
    rw [List.foldl_cons, ih]
    simp [Boxes.add]

theorem visibleEdges_eq (g : Display.Graph N E) : visibleEdges g = g.drawnEdges := by
  simp only [visibleEdges, Std.HashSet.contains_ofList, Bool.not_or, Bool.not_not]
  rfl

/-- The statements of a display graph: boxes, loose nodes and edges, each in its order. -/
theorem body_eq (g : Display.Graph N E) (cluster : Bool) : body g cluster =
    [.attribute ("rankdir", "TB"), .nodeStyle "shape=box, fontname=\"monospace\"", .blank] ++
      (if cluster then g.containers else []).flatMap clusterStatements ++
      (g.looseNodes cluster).map nodeStatement ++ [.blank] ++ g.drawnEdges.map edgeStatement := by
  have hvisible : visible g = g.drawnNodes := rfl
  rw [body, visibleEdges_eq, hvisible]
  cases cluster with
  | false => simp [foldl_add_loose, Display.Graph.looseNodes]
  | true => simp [foldl_add_boxes, Display.Graph.looseNodes, Display.Graph.groups_placed]

end Dot

namespace Layout

variable {N E : Type}

theorem foldl_add (nodes : List (Display.Node N)) (draft : Draft) :
    nodes.foldl Draft.add draft =
      ⟨draft.nodes ++ nodes.map ofNode, draft.shown.insertMany (nodes.map Display.Node.id),
        draft.grouping.addAll (nodes.filterMap (Display.Node.placed Display.Node.id))⟩ := by
  induction nodes generalizing draft with
  | nil => simp [Grouping.addAll]
  | cons n nodes ih =>
    rw [List.foldl_cons, ih]
    cases hn : n.container with
    | none => simp [Draft.add, Display.Node.placed, hn, Std.HashSet.insertMany_cons]
    | some container =>
      simp [Draft.add, Display.Node.placed, Grouping.addAll, hn, Std.HashSet.insertMany_cons]

theorem draft_eq (g : Display.Graph N E) : draft g =
    ⟨g.drawnNodes.map ofNode,
      (∅ : Std.HashSet NodeId).insertMany (g.drawnNodes.map Display.Node.id),
      Grouping.addAll {} (g.drawnNodes.filterMap (Display.Node.placed Display.Node.id))⟩ :=
  foldl_add _ _

/-- What a layout engine is told: the drawn nodes and edges and the containers. -/
theorem ofGraph_eq (g : Display.Graph N E) : ofGraph g =
    { nodes := g.drawnNodes.map ofNode
      edges := g.drawnEdges.map ofEdge
      containers := g.containers.map fun (id, nodes) => ⟨id, nodes.map Display.Node.id⟩ } := by
  simp only [ofGraph, draft_eq, Std.HashSet.contains_insertMany_list, Std.HashSet.contains_empty,
    Bool.false_or, Display.Graph.groups_placed, List.map_map]
  rfl

end Layout

end IrView
