import IrView.Proofs.Render.Drawn
import IrView.Proofs.Text.Decimal
import IrView.Proofs.Text.Lines
import IrView.Render.Outline

/-!
# Reading outlines

A line of an outline that begins with a bracket is that of a node; the others are those of edges.
Numbers end at the first character that is no digit and no minus sign, and folded labels keep to
their line, so whatever the labels are, an outline shows each node and then each edge that is not
hidden (`Outline.read?_render`).
-/

namespace IrView

namespace Outline

/-! ### The reader -/

/-- What a line of an outline shows. -/
inductive Element where
  | node (id : NodeId)
  | edge (source target : NodeId)
  deriving DecidableEq, Repr

/-- A digit or a minus sign. -/
def isNumberChar (c : Char) : Bool :=
  c.isDigit || c == '-'

/-- The number in front, and what stands behind it. -/
def readNumber? (cs : List Char) : Option (Int × List Char) :=
  (String.ofList (cs.takeWhile isNumberChar)).toInt?.map fun i => (i, cs.dropWhile isNumberChar)

/-- What a line shows. -/
def readLine? : List Char → Option Element
  | '[' :: cs =>
    match cs.dropWhile (· ≠ ']') with
    | ']' :: ' ' :: rest =>
      match readNumber? rest with
      | some (id, ':' :: _) => some (.node id)
      | _ => none
    | _ => none
  | cs =>
    match readNumber? cs with
    | some (source, ' ' :: '-' :: '>' :: ' ' :: rest) =>
      (readNumber? rest).map fun (target, _) => .edge source target
    | _ => none

/-- What an outline shows. -/
def read? (text : String) : Option (List Element) :=
  Text.readLines? readLine? text.toList

/-- The ids of nodes. -/
def nodesOf (elements : List Element) : List NodeId :=
  elements.filterMap fun
    | .node id => some id
    | .edge _ _ => none

/-- The ends of edges. -/
def edgesOf (elements : List Element) : List (NodeId × NodeId) :=
  elements.filterMap fun
    | .node _ => none
    | .edge source target => some (source, target)

/-! ### Lines -/

theorem isNumberChar_of_mem {i : Int} {c : Char} (h : c ∈ (toString i).toList) :
    isNumberChar c = true := by
  obtain hdigit | rfl := Text.isDigit_or_eq_minus h
  · simp [isNumberChar, hdigit]
  · rfl

theorem readNumber?_text (i : Int) {rest : List Char} (h : rest.takeWhile isNumberChar = []) :
    readNumber? ((toString i).toList ++ rest) = some (i, rest) := by
  have hchars : ∀ c ∈ (toString i).toList, isNumberChar c = true := fun _ => isNumberChar_of_mem
  have hrest : rest.dropWhile isNumberChar = rest := by
    have happend := List.takeWhile_append_dropWhile (p := isNumberChar) (l := rest)
    rwa [h, List.nil_append] at happend
  rw [readNumber?, List.takeWhile_append_of_pos hchars, List.dropWhile_append_of_pos hchars, h,
    hrest, List.append_nil, String.ofList_toList, Text.toInt?_toString]
  rfl

/-- A number does not begin with a bracket. -/
theorem exists_cons_toString (i : Int) : ∃ c cs, (toString i).toList = c :: cs ∧ c ≠ '[' := by
  obtain ⟨c, cs, hchars⟩ := List.exists_cons_of_ne_nil (Text.toList_toString_ne_nil i)
  refine ⟨c, cs, hchars, ?_⟩
  rintro rfl
  exact absurd (isNumberChar_of_mem (hchars ▸ List.mem_cons_self)) (by decide)

theorem lineFeed_notMem_repr (i : Int) : '\n' ∉ i.repr.toList := by
  rw [← Int.toString_eq_repr]
  exact fun hmem => absurd (isNumberChar_of_mem hmem) (by decide)

/-- The level in brackets has no bracket inside. -/
theorem exists_toList_levelText (level : Option Int) : ∃ cs,
    (levelText level).toList = '[' :: (cs ++ [']', ' ']) ∧ ∀ c ∈ cs, isNumberChar c = true := by
  cases level with
  | none => exact ⟨['-'], rfl, List.forall_mem_singleton.2 rfl⟩
  | some l => exact ⟨(toString l).toList, by simp [levelText], fun _ => isNumberChar_of_mem⟩

theorem readLine?_node (level : Option Int) (id : NodeId) (rest : List Char) :
    readLine? ((levelText level).toList ++ (toString id).toList ++ ':' :: rest) =
      some (.node id) := by
  obtain ⟨cs, hlevel, hcs⟩ := exists_toList_levelText level
  have hinside : ∀ c ∈ cs, decide (c ≠ ']') = true := by
    intro c hc
    rw [decide_eq_true_eq]
    rintro rfl
    exact absurd (hcs _ hc) (by decide)
  have hdrop : (cs ++ ']' :: ' ' :: ((toString id).toList ++ ':' :: rest)).dropWhile (· ≠ ']') =
      ']' :: ' ' :: ((toString id).toList ++ ':' :: rest) :=
    Text.dropWhile_append_cons hinside rfl _
  have hnumber : readNumber? ((toString id).toList ++ ':' :: rest) = some (id, ':' :: rest) :=
    readNumber?_text id rfl
  have htext : (levelText level).toList ++ (toString id).toList ++ ':' :: rest =
      '[' :: (cs ++ ']' :: ' ' :: ((toString id).toList ++ ':' :: rest)) := by
    simp [hlevel]
  rw [htext, readLine?, hdrop]
  simp only [hnumber]

theorem readLine?_edge (source target : NodeId) {rest : List Char}
    (h : rest.takeWhile isNumberChar = []) :
    readLine? ((toString source).toList ++ ' ' :: '-' :: '>' :: ' ' ::
      ((toString target).toList ++ rest)) = some (.edge source target) := by
  have hsource : readNumber? ((toString source).toList ++ ' ' :: '-' :: '>' :: ' ' ::
      ((toString target).toList ++ rest)) = some (source, _) := readNumber?_text source rfl
  obtain ⟨c, cs, hchars, hbracket⟩ := exists_cons_toString source
  unfold readLine?
  split
  case h_1 heq =>
    rw [hchars, List.cons_append] at heq
    exact absurd (List.cons.inj heq).1 hbracket
  case h_2 =>
    simp only [hsource, readNumber?_text target h]
    rfl

/-! ### Display graphs -/

variable {N E : Type}

/-- The element of a node. -/
def ofNode (n : Display.Node N) : Element :=
  .node n.id

/-- The element of an edge. -/
def ofEdge (e : Display.Edge E) : Element :=
  .edge e.source e.target

/-- The line of a node, without its end. -/
def nodeText (n : Display.Node N) : String :=
  levelText n.level ++ toString n.id ++ ": " ++ Text.fold n.label

/-- The line of an edge, without its end. -/
def edgeText (e : Display.Edge E) : String :=
  toString e.source ++ " -> " ++ toString e.target ++
    (if e.label.isEmpty then "" else " " ++ Text.fold e.label) ++
    if e.isBackedge then " (backedge)" else ""

theorem lineFeed_notMem_nodeText (n : Display.Node N) : '\n' ∉ (nodeText n).toList := by
  obtain ⟨cs, hlevel, hcs⟩ := exists_toList_levelText n.level
  have hfeed : '\n' ∉ cs := fun hmem => absurd (hcs _ hmem) (by decide)
  simp [nodeText, hlevel, hfeed, lineFeed_notMem_repr, Text.lineFeed_notMem_fold]

theorem readLine?_nodeText (n : Display.Node N) :
    readLine? (nodeText n).toList = some (ofNode n) := by
  have hread := readLine?_node n.level n.id (' ' :: (Text.fold n.label).toList)
  simpa [nodeText, ofNode] using hread

theorem lineFeed_notMem_edgeText (e : Display.Edge E) : '\n' ∉ (edgeText e).toList := by
  rw [edgeText]
  split_ifs <;> simp [lineFeed_notMem_repr, Text.lineFeed_notMem_fold]

theorem readLine?_edgeText (e : Display.Edge E) :
    readLine? (edgeText e).toList = some (ofEdge e) := by
  let rest := (if e.label.isEmpty then "" else " " ++ Text.fold e.label) ++
    if e.isBackedge then " (backedge)" else ""
  have hend : rest.toList.takeWhile isNumberChar = [] := by
    simp only [rest]
    split_ifs <;> simp [isNumberChar]
  have hread := readLine?_edge e.source e.target hend
  simpa [edgeText, ofEdge, rest] using hread

theorem nodeLine_eq (n : Display.Node N) : nodeLine n = nodeText n ++ "\n" :=
  rfl

theorem edgeLine_eq (e : Display.Edge E) : edgeLine e = edgeText e ++ "\n" :=
  rfl

/-- Lines that say what they show say it one after the other. -/
theorem readLines?_render {α : Type} {read : List Char → Option α} {sayNode : Display.Node N → α}
    {sayEdge : Display.Edge E → α} (hnode : ∀ n, read (nodeText n).toList = some (sayNode n))
    (hedge : ∀ e, read (edgeText e).toList = some (sayEdge e)) (g : Display.Graph N E) :
    Text.readLines? read (render g).toList =
      some (g.drawnNodes.map sayNode ++ (g.edges.filter fun e => !e.hidden).map sayEdge) := by
  have hnodes : ∀ n ∈ g.drawnNodes, Text.Reads read (nodeLine n).toList [sayNode n] := by
    intro n _
    rw [nodeLine_eq, String.toList_append]
    exact Text.Reads.of_line (lineFeed_notMem_nodeText n) (hnode n)
  have hedges : ∀ e ∈ g.edges.filter fun e => !e.hidden,
      Text.Reads read (edgeLine e).toList [sayEdge e] := by
    intro e _
    rw [edgeLine_eq, String.toList_append]
    exact Text.Reads.of_line (lineFeed_notMem_edgeText e) (hedge e)
  have hreads := ((Text.Reads.flatMap hnodes).append (Text.Reads.flatMap hedges)).readLines?
  rw [render, String.toList_append, String.toList_join, String.toList_join, List.flatMap_map,
    List.flatMap_map, List.map_eq_flatMap, List.map_eq_flatMap]
  exact hreads

/-- **The outline of a display graph** shows the nodes and the edges that are not hidden. -/
theorem read?_render (g : Display.Graph N E) : read? (render g) =
    some (g.drawnNodes.map ofNode ++ (g.edges.filter fun e => !e.hidden).map ofEdge) :=
  readLines?_render readLine?_nodeText readLine?_edgeText g

end Outline

end IrView
