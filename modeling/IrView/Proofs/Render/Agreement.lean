import IrView.Proofs.Display.Balance
import IrView.Proofs.Render.Outline
import IrView.Proofs.Render.Picture
import IrView.View.Detail

/-!
# The formats show the same

DOT texts and layout inputs show the same nodes, edges and containers. Boxes only put nodes
together (`grouping_keeps_elements`). Outlines show the same nodes, but all edges that are not
hidden, so they agree with the others just if those edges have drawn ends
(`formats_agree_on_elements`).
-/

namespace IrView

/-! ### Ids in DOT texts -/

namespace Dot

variable {N E : Type}

/-- The nodes in a text, in their order. -/
def Picture.nodes (p : Picture) : List NodeEntry :=
  p.boxes.flatMap Prod.snd ++ p.loose

/-- The ids that the names of nodes tell. -/
def idsOf? (nodes : List NodeEntry) : Option (List NodeId) :=
  nodes.mapM fun n => idOf? n.1

/-- The ids that the names in edges tell. -/
def endsOf? (edges : List EdgeEntry) : Option (List (NodeId × NodeId)) :=
  edges.mapM fun e => do return (← idOf? e.1, ← idOf? e.2.1)

/-- A box as a container. -/
def containerOf? (box : String × List NodeEntry) : Option Layout.Container :=
  (idsOf? box.2).map (Layout.Container.mk box.1)

/-- The boxes in a text as containers. -/
def Picture.containers? (p : Picture) : Option (List Layout.Container) :=
  p.boxes.mapM containerOf?

theorem nodes_picture_flat (g : Display.Graph N E) :
    (picture g false).nodes = g.drawnNodes.map nodeEntry := by
  rw [Picture.nodes, picture, g.looseNodes_false]
  rfl

theorem nodes_picture_boxed (g : Display.Graph N E) : (picture g true).nodes =
    (g.containers.flatMap Prod.snd ++ g.looseNodes true).map nodeEntry := by
  rw [Picture.nodes, picture, List.map_append, List.map_flatMap, List.flatMap_map]
  rfl

theorem idsOf?_nodes (nodes : List (Display.Node N)) :
    idsOf? (nodes.map nodeEntry) = some (nodes.map Display.Node.id) := by
  have htold : (fun n : NodeEntry => idOf? n.1) ∘ nodeEntry =
      fun n : Display.Node N => some n.id := by
    funext n
    simp [nodeEntry, idOf?_nodeName]
  rw [idsOf?, List.mapM_map, htold]
  exact List.mapM_pure

theorem endsOf?_edges (edges : List (Display.Edge E)) :
    endsOf? (edges.map edgeEntry) = some (edges.map fun e => (e.source, e.target)) := by
  have htold : (fun e : EdgeEntry => do return (← idOf? e.1, ← idOf? e.2.1)) ∘ edgeEntry =
      fun e : Display.Edge E => some (e.source, e.target) := by
    funext e
    simp [edgeEntry, idOf?_nodeName]
  rw [endsOf?, List.mapM_map, htold]
  exact List.mapM_pure

theorem containers?_picture (g : Display.Graph N E) :
    (picture g true).containers? = some (Layout.ofGraph g).containers := by
  have htold : (containerOf? ∘ fun container : String × List (Display.Node N) =>
      (container.1, container.2.map nodeEntry)) =
        fun container => some ⟨container.1, container.2.map Display.Node.id⟩ := by
    funext container
    rw [Function.comp_apply, containerOf?, idsOf?_nodes, Option.map_some]
  rw [Layout.ofGraph_eq, Picture.containers?, picture, if_pos rfl, List.mapM_map, htold]
  exact List.mapM_pure

end Dot

/-! ### Boxes -/

namespace View

/-- In the detail view a container is the number of a block. -/
theorem container_detail {options : DetailOptions} {hir : Hir.Graph}
    {n : Display.Node Hir.Node} (hn : n ∈ (detail options hir).nodes) {container : String}
    (h : n.container = some container) : ∃ block : Int, container = toString block := by
  have hnodes := (Display.build_accounts (detailStrategy options)
    (keepNodes (removedIds options.hides hir.nodes) hir.nodes)
    (keepEdges (removedIds options.hides hir.nodes) hir.edges)).nodes
  have hmem : n.identity ∈ (detail options hir).nodes.map Display.Node.identity :=
    List.mem_map_of_mem hn
  rw [detail, hnodes] at hmem
  obtain ⟨n', hn', hidentity⟩ := List.mem_map.1 hmem
  obtain ⟨record, -, rfl⟩ := List.mem_map.1 hn'
  have hcontainer : (detailNode record).container = n.container :=
    congrArg (fun identity => identity.2.2.2.2.2.1) hidentity
  rw [h] at hcontainer
  unfold detailNode at hcontainer
  split at hcontainer
  case h_1 block _ => exact ⟨block, (Option.some.inj hcontainer).symm⟩
  case h_2 => cases hcontainer

/-- In the detail view boxes of different containers have different names. -/
theorem clusterName_detail {options : DetailOptions} {hir : Hir.Graph}
    {n m : Display.Node Hir.Node} (hn : n ∈ (detail options hir).nodes)
    (hm : m ∈ (detail options hir).nodes) {c d : String} (hc : n.container = some c)
    (hd : m.container = some d) (h : Dot.clusterName c = Dot.clusterName d) : c = d := by
  obtain ⟨block, rfl⟩ := container_detail hn hc
  obtain ⟨block', rfl⟩ := container_detail hm hd
  have hsame := (String.append_right_inj "cluster_").1 h
  rw [Dot.sanitize_toString_injective hsame]

end View

/-- Boxes of other containers can share their name. -/
example : Dot.clusterName "-1" = Dot.clusterName "_1" := by
  decide

variable {N E : Type}

/-- **Grouping loses nothing and repeats nothing.** With boxes, a DOT text has the nodes that it has
without them, in another order, and the same edges. Its boxes are the containers that a layout
engine is told of: each has the drawn nodes of the container, in their order, and together they have
all drawn nodes that have a container. Different ids have different names, and so have different
boxes of a detail view. -/
theorem grouping_keeps_elements (g : Display.Graph N E) (name : String) :
    (∃ boxed flat, Dot.pictureOf? (Dot.render g name true) = some boxed ∧
      Dot.pictureOf? (Dot.render g name false) = some flat ∧
      boxed.nodes.Perm flat.nodes ∧ flat.nodes = g.drawnNodes.map Dot.nodeEntry ∧
      boxed.edges = flat.edges ∧ flat.boxes = [] ∧
      boxed.containers? = some (Layout.ofGraph g).containers) ∧
    ((Layout.ofGraph g).containers.map Layout.Container.id =
        (g.drawnNodes.filterMap Display.Node.container).eraseDups ∧
      (∀ c ∈ (Layout.ofGraph g).containers, c.members =
        (g.drawnNodes.filter fun n => n.container == some c.id).map Display.Node.id) ∧
      ((Layout.ofGraph g).containers.flatMap Layout.Container.members).Perm
        ((g.drawnNodes.filter fun n => n.container.isSome).map Display.Node.id)) ∧
    Function.Injective Dot.nodeName ∧
    ∀ (options : View.DetailOptions) (hir : Hir.Graph),
      ∀ n ∈ (View.detail options hir).nodes, ∀ m ∈ (View.detail options hir).nodes, ∀ c d,
        n.container = some c → m.container = some d → Dot.clusterName c = Dot.clusterName d →
          c = d := by
  refine ⟨⟨Dot.picture g true, Dot.picture g false, Dot.pictureOf?_render g name true,
    Dot.pictureOf?_render g name false, ?_, Dot.nodes_picture_flat g, rfl, rfl,
    Dot.containers?_picture g⟩, ⟨?_, ?_, ?_⟩, Dot.nodeName_injective,
    fun _ _ _ hn _ hm _ _ => View.clusterName_detail hn hm⟩
  · rw [Dot.nodes_picture_flat, Dot.nodes_picture_boxed]
    exact g.boxed_perm.map _
  · rw [Layout.ofGraph_eq, Display.Graph.containers, List.map_map, List.map_map]
    exact List.map_id' _
  · intro c hc
    rw [Layout.ofGraph_eq, Display.Graph.containers, List.map_map] at hc
    obtain ⟨container, -, rfl⟩ := List.mem_map.1 hc
    rfl
  · have hmembers : (Layout.ofGraph g).containers.flatMap Layout.Container.members =
        (g.containers.flatMap Prod.snd).map Display.Node.id := by
      rw [Layout.ofGraph_eq, List.map_flatMap, List.flatMap_map]
    rw [hmembers]
    exact g.containers_perm.map _

/-! ### Outlines -/

namespace Outline

theorem nodesOf_elements (nodes : List (Display.Node N)) (edges : List (Display.Edge E)) :
    nodesOf (nodes.map ofNode ++ edges.map ofEdge) = nodes.map Display.Node.id := by
  simp [nodesOf, ofNode, ofEdge, Function.comp_def]

theorem edgesOf_elements (nodes : List (Display.Node N)) (edges : List (Display.Edge E)) :
    edgesOf (nodes.map ofNode ++ edges.map ofEdge) =
      edges.map fun e => (e.source, e.target) := by
  simp [edgesOf, ofNode, ofEdge, Function.comp_def]

end Outline

/-- The edges that are not hidden are those that are drawn just if their ends are drawn. -/
theorem map_drawnEdges_eq_iff {α : Type} (g : Display.Graph N E) (f : Display.Edge E → α) :
    (g.edges.filter fun e => !e.hidden).map f = g.drawnEdges.map f ↔
      ∀ e ∈ g.edges, e.hidden = false → g.isDrawn e.source = true ∧ g.isDrawn e.target = true := by
  have hdrawn : g.drawnEdges = (g.edges.filter fun e => !e.hidden).filter fun e =>
      g.isDrawn e.source && g.isDrawn e.target := by
    rw [List.filter_filter, Display.Graph.drawnEdges]
    exact List.filter_congr fun e _ => by rw [Bool.and_assoc, Bool.and_comm]
  have hall : (∀ e ∈ g.edges.filter fun e => !e.hidden,
      (g.isDrawn e.source && g.isDrawn e.target) = true) ↔ ∀ e ∈ g.edges, e.hidden = false →
        g.isDrawn e.source = true ∧ g.isDrawn e.target = true := by
    simp [List.mem_filter]
  rw [← hall, hdrawn]
  constructor
  · intro h
    have hlength := congrArg List.length h
    rw [List.length_map, List.length_map] at hlength
    exact List.length_filter_eq_length_iff.1 hlength.symm
  · intro h
    rw [List.filter_eq_self.2 h]

/-- **The formats agree on elements** as far as they can. All show the drawn nodes. DOT texts and
layout inputs show the same edges, none of which has a hidden end. Outlines show all edges that are
not hidden, hence the same edges just if all of those have drawn ends. -/
theorem formats_agree_on_elements (g : Display.Graph N E) (name : String) :
    (Layout.ofGraph g).nodes.map Layout.Node.id = g.drawnNodes.map Display.Node.id ∧
    (Outline.read? (Outline.render g)).map Outline.nodesOf =
      some ((Layout.ofGraph g).nodes.map Layout.Node.id) ∧
    (Dot.pictureOf? (Dot.render g name false)).bind (Dot.idsOf? ·.nodes) =
      some ((Layout.ofGraph g).nodes.map Layout.Node.id) ∧
    (∀ cluster, (Dot.pictureOf? (Dot.render g name cluster)).bind (Dot.endsOf? ·.edges) =
      some ((Layout.ofGraph g).edges.map fun e => (e.source, e.target))) ∧
    (∀ e ∈ (Layout.ofGraph g).edges, g.isDrawn e.source = true ∧ g.isDrawn e.target = true) ∧
    (Outline.read? (Outline.render g)).map Outline.edgesOf =
      some ((g.edges.filter fun e => !e.hidden).map fun e => (e.source, e.target)) ∧
    ((Outline.read? (Outline.render g)).map Outline.edgesOf =
        some ((Layout.ofGraph g).edges.map fun e => (e.source, e.target)) ↔
      ∀ e ∈ g.edges, e.hidden = false →
        g.isDrawn e.source = true ∧ g.isDrawn e.target = true) := by
  have hnodes : (Layout.ofGraph g).nodes.map Layout.Node.id =
      g.drawnNodes.map Display.Node.id := by
    rw [Layout.ofGraph_eq, List.map_map]
    rfl
  have hedges : (Layout.ofGraph g).edges.map (fun e => (e.source, e.target)) =
      g.drawnEdges.map fun e => (e.source, e.target) := by
    rw [Layout.ofGraph_eq, List.map_map]
    rfl
  have houtline : (Outline.read? (Outline.render g)).map Outline.edgesOf =
      some ((g.edges.filter fun e => !e.hidden).map fun e => (e.source, e.target)) := by
    rw [Outline.read?_render, Option.map_some, Outline.edgesOf_elements]
  refine ⟨hnodes, ?_, ?_, fun cluster => ?_, fun e he => ?_, houtline, ?_⟩
  · rw [Outline.read?_render, Option.map_some, Outline.nodesOf_elements, hnodes]
  · rw [Dot.pictureOf?_render, Option.bind_some, Dot.nodes_picture_flat, Dot.idsOf?_nodes, hnodes]
  · rw [Dot.pictureOf?_render, Option.bind_some, Dot.picture, Dot.endsOf?_edges, hedges]
  · rw [Layout.ofGraph_eq] at he
    obtain ⟨edge, hedge, rfl⟩ := List.mem_map.1 he
    have hdrawn := (List.mem_filter.1 hedge).2
    simp only [Bool.and_eq_true] at hdrawn
    exact ⟨hdrawn.1.2, hdrawn.2⟩
  · rw [houtline, Option.some_inj, hedges]
    exact map_drawnEdges_eq_iff g _

/-- An edge that is not hidden leads to a hidden node. -/
def hiddenEnd : Display.Graph Unit Unit where
  nodes := [
    { id := 1, name := "a", label := "a", record := () },
    { id := 2, name := "b", label := "b", hidden := true, record := () }]
  edges := [{ source := 1, target := 2, label := "", record := () }]

/-- The outline shows an edge that the other formats leave out. -/
theorem outline_shows_hidden_end :
    (Outline.read? (Outline.render hiddenEnd)).map Outline.edgesOf = some [(1, 2)] ∧
      hiddenEnd.isDrawn 2 = false ∧ (Layout.ofGraph hiddenEnd).edges = [] ∧
      (Dot.pictureOf? (Dot.render hiddenEnd "g" false)).map Dot.Picture.edges = some [] := by
  refine ⟨?_, rfl, ?_, ?_⟩
  · rw [Outline.read?_render]
    rfl
  · rw [Layout.ofGraph_eq]
    rfl
  · rw [Dot.pictureOf?_render]
    rfl

end IrView
