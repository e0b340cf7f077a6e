import IrView.Proofs.Dependency.Grouping
import IrView.Proofs.Display.Balance
import IrView.View.Dependency

/-!
# The relations that the dependency view shows

The view hides relations, turns schedule edges, removes passes, groups parallel edges and at last
drops dangling ones. Together that shows a relation just if it is not hidden and both its ends are
shown (`DependencyOptions.relations`): removing and dropping both look at the ends of an edge only,
so they may as well come before the edges are grouped (`edges_dependencyBelow`).
-/

namespace IrView

namespace View

variable {options : DependencyOptions} {graph : Dependency.Graph} {id : NodeId}

/-- Whether the view leaves out the nodes with the id: one of them is not enabled. -/
def DependencyOptions.removes (options : DependencyOptions) (graph : Dependency.Graph)
    (id : NodeId) : Bool :=
  options.onlyEnabled && graph.nodes.any fun n => n.id == id && !n.enabled

/-- Whether the view has a node with the id. -/
def DependencyOptions.keeps (options : DependencyOptions) (graph : Dependency.Graph)
    (id : NodeId) : Bool :=
  (graph.nodes.any fun n => n.id == id) && !options.removes graph id

/-- The relations that the view shows, each by itself. -/
def DependencyOptions.relations (options : DependencyOptions) (graph : Dependency.Graph) :
    List Dependency.Edge :=
  let shown := graph.edges.filter fun e => !options.hides e.relation
  let turned := if options.canonicalSchedule then shown.map Dependency.Edge.inAfterForm else shown
  turned.filter fun e => options.keeps graph e.source && options.keeps graph e.target

/-! ### Which relations are shown -/

theorem relations_eq : options.relations graph = (options.admitted graph.edges).filter fun e =>
    options.keeps graph e.source && options.keeps graph e.target := by
  have hform : Dependency.Edge.inAfterForm = Dependency.Edge.canonical :=
    funext fun e => (Dependency.canonical_eq e).symm
  rw [DependencyOptions.relations, DependencyOptions.admitted, hform]

theorem hides_of_isSchedule {relation : Dependency.Relation} (h : relation.isSchedule = true) :
    options.hides relation = options.hideSchedule := by
  have hother : relation ≠ .requires ∧ relation ≠ .provides ∧ relation ≠ .modifies := by
    refine ⟨?_, ?_, ?_⟩ <;> rintro rfl <;> cases h
  rw [Bool.eq_iff_iff, DependencyOptions.hides_iff]
  simp [h, hother]

/-- A schedule edge is hidden whichever way it points. -/
theorem hides_inAfterForm (e : Dependency.Edge) :
    options.hides e.inAfterForm.relation = options.hides e.relation := by
  obtain hsame | ⟨hturned, hschedule⟩ := Dependency.isSchedule_inAfterForm e
  · rw [hsame]
  · rw [hides_of_isSchedule hturned, hides_of_isSchedule hschedule]

/-- No shown relation is one that the options hide. -/
theorem hides_of_mem_relations {e : Dependency.Edge} (he : e ∈ options.relations graph) :
    options.hides e.relation = false := by
  rw [DependencyOptions.relations] at he
  have hmem := (List.mem_filter.1 he).1
  split_ifs at hmem
  · obtain ⟨e', he', rfl⟩ := List.mem_map.1 hmem
    rw [hides_inAfterForm]
    simpa using (List.mem_filter.1 he').2
  · simpa using (List.mem_filter.1 hmem).2

/-! ### Which nodes are shown -/

/-- The ids of the nodes that are left out. -/
def removedBy (options : DependencyOptions) (graph : Dependency.Graph) : List NodeId :=
  removedIds (fun n : Dependency.Node => options.onlyEnabled && !n.enabled) graph.nodes

theorem contains_removedBy : (removedBy options graph).contains id = options.removes graph id := by
  rw [Bool.eq_iff_iff, List.contains_iff_mem, removedBy, removedIds, List.mem_map,
    DependencyOptions.removes, Bool.and_eq_true, List.any_eq_true]
  simp only [List.mem_filter, Bool.and_eq_true, beq_iff_eq]
  constructor
  · rintro ⟨n, ⟨hn, honly, hdisabled⟩, hid⟩
    exact ⟨honly, n, hn, hid, hdisabled⟩
  · rintro ⟨honly, n, hn, hid, hdisabled⟩
    exact ⟨n, ⟨hn, honly, hdisabled⟩, hid⟩

/-- The nodes that stay. -/
def keptNodes (options : DependencyOptions) (graph : Dependency.Graph) : List Dependency.Node :=
  keepNodes (removedBy options graph) graph.nodes

theorem keptNodes_eq : keptNodes options graph =
    graph.nodes.filter fun n => !options.removes graph n.id :=
  List.filter_congr fun _ _ => congrArg (!·) contains_removedBy

theorem mem_ids_keptNodes :
    id ∈ (keptNodes options graph).map Dependency.Node.id ↔ options.keeps graph id = true := by
  rw [keptNodes_eq, List.mem_map, DependencyOptions.keeps, Bool.and_eq_true, List.any_eq_true]
  simp only [List.mem_filter, beq_iff_eq]
  constructor
  · rintro ⟨n, ⟨hn, hstays⟩, rfl⟩
    exact ⟨⟨n, hn, rfl⟩, hstays⟩
  · rintro ⟨⟨n, hn, rfl⟩, hstays⟩
    exact ⟨n, ⟨hn, hstays⟩, rfl⟩

theorem not_removes_of_keeps (h : options.keeps graph id = true) :
    (!options.removes graph id) = true :=
  (Bool.and_eq_true_iff.1 h).2

/-! ### The edges of the view -/

/-- Whether the view keeps both ends. -/
def DependencyOptions.keepsBoth (options : DependencyOptions) (graph : Dependency.Graph)
    (ends : NodeId × NodeId) : Bool :=
  options.keeps graph ends.1 && options.keeps graph ends.2

/-- Only edges with an end that is no node are left out at last. -/
theorem edges_prepare (root : Option String) (edges : List Dependency.Edge) :
    (Display.Builder.prepare (dependencyStrategy options root) (keptNodes options graph)
      edges).edges = (edges.filter fun e => options.keepsBoth graph e.ends).map dependencyEdge := by
  have hids : (keptNodes options graph).map (Display.Node.id ∘ dependencyNode) =
      (keptNodes options graph).map Dependency.Node.id := rfl
  show (Display.Builder.dropDangling _).edges = _
  rw [Display.Builder.edges_dropDangling]
  show ((edges.map dependencyEdge).filter
    (Display.Builder.isAttached (.ofList (((keptNodes options graph).map dependencyNode).map
      Display.Node.id)))) = _
  rw [List.map_map, hids, List.filter_map]
  refine congrArg (List.map _) (List.filter_congr fun e _ => ?_)
  rw [Bool.eq_iff_iff, Function.comp_apply, Display.Builder.isAttached_ofList,
    DependencyOptions.keepsBoth, Bool.and_eq_true, ← mem_ids_keptNodes, ← mem_ids_keptNodes]
  rfl

/-- Removing nodes leaves out no relation that is shown. -/
theorem relations_eq_filter_keepEdges : options.relations graph =
    (keepEdges (removedBy options graph) (options.admitted graph.edges)).filter fun e =>
      options.keepsBoth graph e.ends := by
  rw [relations_eq, keepEdges, List.filter_filter]
  refine List.filter_congr fun e _ => ?_
  rw [contains_removedBy, contains_removedBy, Bool.eq_iff_iff, DependencyOptions.keepsBoth,
    Dependency.Edge.ends]
  simp only [Bool.and_eq_true]
  constructor
  · rintro ⟨hs, ht⟩
    exact ⟨⟨hs, ht⟩, not_removes_of_keeps hs, not_removes_of_keeps ht⟩
  · exact And.left

theorem edges_dependencyBelow (root : Option String) : (dependencyBelow root options graph).edges =
    (if options.groupEdges then Dependency.group (options.relations graph)
      else options.relations graph).map dependencyEdge := by
  show (Display.build _ (keptNodes options graph) _).edges = _
  rw [Display.edges_build rfl, edges_prepare, relations_eq_filter_keepEdges]
  split_ifs
  · rw [Dependency.filter_group]
    rfl
  · rfl

theorem nodes_dependencyBelow (root : Option String) :
    (dependencyBelow root options graph).nodes.map Display.Node.unleveled =
      (graph.nodes.filter fun n => !options.removes graph n.id).map dependencyNode := by
  rw [← keptNodes_eq]
  refine Display.shows_build.nodes.trans ?_
  show (Display.Builder.dropDangling _).nodes.map _ = _
  rw [Display.Builder.nodes_dropDangling]
  exact List.map_map

/-- An edge of the grouped view says what the shown relations between its ends say. -/
theorem label_of_mem_group {e : Display.Edge Dependency.Edge} {shown : List Dependency.Edge}
    (he : e ∈ (Dependency.group shown).map dependencyEdge) :
    let parallel := shown.filter fun r => r.ends == (e.source, e.target)
    Dependency.Joins e.label (parallel.map Dependency.Edge.label) ∧
      e.color = some (.uniform (Style.relationColorOf (Dependency.commonRelation parallel))) := by
  obtain ⟨merged, hmerged, rfl⟩ := List.mem_map.1 he
  obtain ⟨-, hmerge⟩ := Dependency.mem_group.1 hmerged
  have hlabel : (dependencyEdge merged).label = merged.label := rfl
  have hcolor : (dependencyEdge merged).color =
    some (.uniform (Style.relationColorOf merged.relation)) := rfl
  rw [hlabel, hcolor]
  constructor
  · rw [hmerge]
    exact Dependency.joins_merge _ _
  · conv_lhs => rw [hmerge]
    rfl

/-- **The dependency view shows exactly the admitted relations.** Its nodes are those that are not
left out, in their order. Ungrouped, it has an edge for each shown relation, in their order. Grouped,
it has one edge for each pair of ends, in the order in which the pairs first appear; the label joins
the labels of all shown relations between the two ends, and the color is that of a single relation
and of the unknown one for several. No shown relation is hidden. -/
theorem dependencyBelow_shows_relations (root : Option String) (options : DependencyOptions)
    (graph : Dependency.Graph) :
    let g := dependencyBelow root options graph
    let shown := options.relations graph
    g.nodes.map Display.Node.unleveled =
      (graph.nodes.filter fun n => !options.removes graph n.id).map dependencyNode ∧
    (options.groupEdges = false → (g.edges.map fun e => (e.source, e.target, e.label, e.color)) =
      shown.map fun r => (r.source, r.target, r.label,
        some (.uniform (Style.relationColorOf r.relation)))) ∧
    (options.groupEdges = true →
      (g.edges.map fun e => (e.source, e.target)) =
        (shown.map fun r => (r.source, r.target)).eraseDups ∧
      ∀ e ∈ g.edges,
        let parallel := shown.filter fun r => (r.source, r.target) == (e.source, e.target)
        Dependency.Joins e.label (parallel.map Dependency.Edge.label) ∧
        (∀ r, parallel = [r] → e.color = some (.uniform (Style.relationColorOf r.relation))) ∧
        (2 ≤ parallel.length → e.color = some (.uniform (Style.relationColorOf .unknown)))) ∧
    ∀ r ∈ shown, options.hides r.relation = false := by
  intro g shown
  have hedges : g.edges = (if options.groupEdges then Dependency.group shown else shown).map
      dependencyEdge := edges_dependencyBelow root
  refine ⟨nodes_dependencyBelow root, fun hgroup => ?_, fun hgroup => ⟨?_, fun e he => ?_⟩,
    fun r => hides_of_mem_relations⟩
  · rw [hgroup, if_neg Bool.false_ne_true] at hedges
    rw [hedges, List.map_map]
    rfl
  · rw [hgroup, if_pos rfl] at hedges
    rw [hedges, List.map_map]
    exact Dependency.ends_group
  · rw [hedges, hgroup, if_pos rfl] at he
    intro parallel
    obtain ⟨hlabel, hcolor⟩ : Dependency.Joins e.label (parallel.map Dependency.Edge.label) ∧
        e.color = some (.uniform (Style.relationColorOf (Dependency.commonRelation parallel))) :=
      label_of_mem_group he
    refine ⟨hlabel, fun r hr => ?_, fun hlength => ?_⟩
    · rw [hcolor, hr]
      rfl
    · rw [hcolor, Dependency.commonRelation_of_two_le hlength]

end View

end IrView
