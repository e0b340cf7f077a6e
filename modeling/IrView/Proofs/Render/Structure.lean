import IrView.Proofs.Render.Outline

/-!
# What an outline determines

An outline is cut at its line feeds into one line for each element that is not hidden, and no label
adds a line (`Outline.lines_render`). The line of a node begins with a bracket, behind which stands
a number if the node has a level and a minus sign alone if it has none; no line of an edge begins
like that. So levels and ids of nodes and ends of edges are read back from the lines
(`Outline.readPlaced?_nodeText`, `Outline.readPlaced?_edgeText`), and graphs that differ in any of
them have different outlines (`Outline.render_determines_structure`).
-/

namespace IrView

namespace Outline

variable {N E : Type}

/-! ### Lines -/

/-- The edges that an outline lists. -/
def listedEdges (g : Display.Graph N E) : List (Display.Edge E) :=
  g.edges.filter fun e => !e.hidden

theorem render_eq (g : Display.Graph N E) :
    render g = Text.ended (g.drawnNodes.map nodeText ++ (listedEdges g).map edgeText) := by
  rw [Text.ended_append, Text.ended, Text.ended, List.map_map, List.map_map]
  rfl

theorem lineFeed_notMem_of_mem {g : Display.Graph N E} {line : String}
    (h : line ∈ g.drawnNodes.map nodeText ++ (listedEdges g).map edgeText) :
    '\n' ∉ line.toList := by
  obtain hnode | hedge := List.mem_append.1 h
  · obtain ⟨n, -, rfl⟩ := List.mem_map.1 hnode
    exact lineFeed_notMem_nodeText n
  · obtain ⟨e, -, rfl⟩ := List.mem_map.1 hedge
    exact lineFeed_notMem_edgeText e

/-- **The lines of an outline** are those of the nodes and then those of the edges. -/
theorem lines_render (g : Display.Graph N E) : Text.lines (render g) =
    g.drawnNodes.map nodeText ++ (listedEdges g).map edgeText ++ [""] := by
  rw [render_eq]
  exact Text.lines_ended fun _ => lineFeed_notMem_of_mem

theorem count_render (g : Display.Graph N E) :
    (render g).toList.count '\n' = g.drawnNodes.length + (listedEdges g).length := by
  rw [render_eq, Text.count_ended fun _ => lineFeed_notMem_of_mem, List.length_append,
    List.length_map, List.length_map]

/-! ### Levels -/

/-- The level in front of a line, if a bracket and a number stand there. -/
def readLevel? : List Char → Option Int
  | '[' :: cs => (readNumber? cs).map Prod.fst
  | _ => none

/-- What a line shows, and the level in front of it. -/
def readPlaced? (line : List Char) : Option (Element × Option Int) :=
  (readLine? line).map fun element => (element, readLevel? line)

theorem readLevel?_levelText (level : Option Int) (rest : List Char) :
    readLevel? ((levelText level).toList ++ rest) = level := by
  cases level with
  | none =>
    -- a minus sign alone is no number
    show (("-" : String).toInt?.map _).map Prod.fst = none
    rw [Text.toInt?_minus]
    rfl
  | some l =>
    have htext : (levelText (some l)).toList ++ rest =
        '[' :: ((toString l).toList ++ ']' :: ' ' :: rest) := by
      simp [levelText]
    rw [htext, readLevel?, readNumber?_text l rfl]
    rfl

theorem readLevel?_toString (i : Int) (rest : List Char) :
    readLevel? ((toString i).toList ++ rest) = none := by
  obtain ⟨c, cs, hchars, hbracket⟩ := exists_cons_toString i
  rw [hchars, List.cons_append]
  unfold readLevel?
  split
  next heq => exact absurd (List.cons.inj heq).1 hbracket
  next => rfl

theorem readPlaced?_nodeText (n : Display.Node N) :
    readPlaced? (nodeText n).toList = some (ofNode n, n.level) := by
  have hlevel : readLevel? (nodeText n).toList = n.level := by
    rw [nodeText, String.append_assoc, String.append_assoc, String.toList_append]
    exact readLevel?_levelText n.level _
  rw [readPlaced?, readLine?_nodeText, hlevel]
  rfl

theorem readPlaced?_edgeText (e : Display.Edge E) :
    readPlaced? (edgeText e).toList = some (ofEdge e, none) := by
  have hlevel : readLevel? (edgeText e).toList = none := by
    rw [edgeText]
    simp only [String.append_assoc, String.toList_append]
    exact readLevel?_toString e.source _
  rw [readPlaced?, readLine?_edgeText, hlevel]
  rfl

/-! ### The structure of a graph -/

/-- Levels and ids of the nodes among what the lines of an outline show. -/
def placesOf (shown : List (Element × Option Int)) : List (Option Int × NodeId) :=
  shown.filterMap fun
    | (.node id, level) => some (level, id)
    | (.edge _ _, _) => none

/-- Levels and ids of the nodes that are not hidden. -/
def places (g : Display.Graph N E) : List (Option Int × NodeId) :=
  g.drawnNodes.map fun n => (n.level, n.id)

/-- The ends of the edges that are not hidden. -/
def ends (g : Display.Graph N E) : List (NodeId × NodeId) :=
  (listedEdges g).map fun e => (e.source, e.target)

theorem placesOf_shown (g : Display.Graph N E) :
    placesOf (g.drawnNodes.map (fun n => (ofNode n, n.level)) ++
      (listedEdges g).map fun e => (ofEdge e, none)) = places g := by
  simp [placesOf, places, ofNode, ofEdge]

theorem edgesOf_shown (g : Display.Graph N E) :
    edgesOf ((g.drawnNodes.map (fun n => (ofNode n, n.level)) ++
      (listedEdges g).map fun e => (ofEdge e, none)).map Prod.fst) = ends g := by
  simp [edgesOf, ends, ofNode, ofEdge, Function.comp_def]

/-- Levels, ids and ends are read back. -/
theorem readPlaced?_render (g : Display.Graph N E) :
    (Text.readLines? readPlaced? (render g).toList).map
      (fun shown => (placesOf shown, edgesOf (shown.map Prod.fst))) = some (places g, ends g) := by
  have hread := readLines?_render readPlaced?_nodeText readPlaced?_edgeText g
  rw [hread, Option.map_some, ← placesOf_shown, ← edgesOf_shown]
  rfl

/-- **An outline determines the structure.** It has one line for each node and then one for each
edge that is not hidden, so as many line feeds as there are such elements, the last of them at its
end. Levels and ids of these nodes and ends of these edges are read back from it, so that graphs
with the same outline agree in them, whatever their labels are. -/
theorem render_determines_structure (g : Display.Graph N E) :
    Text.lines (render g) =
      g.drawnNodes.map nodeText ++ (listedEdges g).map edgeText ++ [""] ∧
    (render g).toList.count '\n' = g.drawnNodes.length + (listedEdges g).length ∧
    (render g ≠ "" → ∃ front, render g = front ++ "\n") ∧
    (Text.readLines? readPlaced? (render g).toList).map
      (fun shown => (placesOf shown, edgesOf (shown.map Prod.fst))) = some (places g, ends g) ∧
    ∀ (N' E' : Type) (g' : Display.Graph N' E'), render g = render g' →
      places g = places g' ∧ ends g = ends g' := by
  refine ⟨lines_render g, count_render g, ?_, readPlaced?_render g, ?_⟩
  · intro hne
    rw [render_eq] at hne ⊢
    exact (Text.ended_eq_empty_or _).resolve_left hne
  · intro N' E' g' heq
    have hread := readPlaced?_render g
    rw [heq, readPlaced?_render g', Option.some_inj] at hread
    exact ⟨(congrArg Prod.fst hread).symm, (congrArg Prod.snd hread).symm⟩

/-- A label of two lines, and an edge whose label looks like the mark of a backedge. -/
def twoLines : Display.Graph Unit Unit where
  nodes := [{ id := -1, name := "a", label := "a\n\n1 -> 2\n", level := some (-2), record := () }]
  edges := [{ source := -1, target := -1, label := "(backedge)", record := () }]

/-- A label of one line with a bar, and a backedge without label. -/
def oneLine : Display.Graph Unit Unit where
  nodes := [{ id := -1, name := "a", label := "a | 1 -> 2", level := some (-2), record := () }]
  edges := [{ source := -1, target := -1, label := "", isBackedge := true, record := () }]

/-- Labels and marks are not determined: both graphs have the same outline. -/
theorem render_twoLines : render twoLines = render oneLine ∧
    render twoLines = "[-2] -1: a | 1 -> 2\n-1 -> -1 (backedge)\n" ∧
    places twoLines = places oneLine ∧ ends twoLines = ends oneLine := by
  have hsame : render twoLines = render oneLine := by decide +kernel
  obtain ⟨-, -, -, -, hstructure⟩ := render_determines_structure twoLines
  exact ⟨hsame, by decide +kernel, hstructure Unit Unit oneLine hsame⟩

end Outline

end IrView
