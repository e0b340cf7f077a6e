import IrView.Proofs.Render.Reading

/-!
# Pictures

The picture in a DOT text: its boxes with their nodes, the nodes outside of boxes, and the edges,
all as they are written. The text of a display graph shows the boxes, nodes and edges that are drawn
(`Dot.pictureOf?_render`), and it is the same text just if it shows the same picture
(`Dot.render_eq_iff`).
-/

namespace IrView

namespace Dot

/-- A node in a text: its name and its attributes. -/
abbrev NodeEntry := String × List Attribute

/-- An edge in a text: the names of its ends and its attributes. -/
abbrev EdgeEntry := String × String × List Attribute

/-- What a text shows. -/
structure Picture where
  /-- The label of each box with the nodes inside. -/
  boxes : List (String × List NodeEntry)
  loose : List NodeEntry
  edges : List EdgeEntry
  deriving DecidableEq, Repr

/-! ### From statements to pictures and back -/

/-- The statement of a node in a text. -/
def ofNodeEntry (n : NodeEntry) : Statement :=
  .node n.1 n.2

/-- The statement of an edge in a text. -/
def ofEdgeEntry (e : EdgeEntry) : Statement :=
  .edge e.1 e.2.1 e.2.2

/-- The statements of a box in a text. -/
def ofBox (box : String × List NodeEntry) : List Statement :=
  .openCluster box.1 box.1 :: box.2.map ofNodeEntry ++ [.closeCluster]

/-- The statements that show a picture. -/
def Picture.body (p : Picture) : List Statement :=
  [.attribute ("rankdir", "TB"), .nodeStyle "shape=box, fontname=\"monospace\"", .blank] ++
    p.boxes.flatMap ofBox ++ p.loose.map ofNodeEntry ++ [.blank] ++ p.edges.map ofEdgeEntry

/-- The node of a line. -/
def Line.node? : Line → Option NodeEntry
  | .node name as => some (name, as)
  | _ => none

/-- The boxes that lines show. A box has its label in its first line and ends where it is closed. -/
def boxesOf : List Line → List (String × List NodeEntry)
  | .opening _ :: .attribute a :: rest =>
    (a.2, (rest.takeWhile (· ≠ .closing)).filterMap Line.node?) :: boxesOf rest
  | _ :: rest => boxesOf rest
  | [] => []

/-- The nodes outside of boxes that lines show; `boxed` tells whether a box is open. -/
def looseOf (boxed : Bool) : List Line → List NodeEntry
  | .opening _ :: rest => looseOf true rest
  | .closing :: rest => looseOf false rest
  | .node name as :: rest =>
    if boxed then looseOf boxed rest else (name, as) :: looseOf boxed rest
  | _ :: rest => looseOf boxed rest
  | [] => []

/-- The edges that lines show. -/
def edgesOf : List Line → List EdgeEntry
  | .edge source target as :: rest => (source, target, as) :: edgesOf rest
  | _ :: rest => edgesOf rest
  | [] => []

/-- What lines show. -/
def Picture.ofLines (lines : List Line) : Picture where
  boxes := boxesOf lines
  loose := looseOf false lines
  edges := edgesOf lines

/-- What a text shows. -/
def pictureOf? (text : String) : Option Picture :=
  (read? text).map Picture.ofLines

/-! ### Lines of nodes, edges and boxes -/

/-- The line of a node in a text. -/
def nodeLine (n : NodeEntry) : Line :=
  .node n.1 n.2

/-- The line of an edge in a text. -/
def edgeLine (e : EdgeEntry) : Line :=
  .edge e.1 e.2.1 e.2.2

/-- The lines of a box in a text. -/
def boxLines (box : String × List NodeEntry) : List Line :=
  .opening (clusterName box.1) :: .attribute ("label", box.1) :: box.2.map nodeLine ++ [.closing]

variable {nodes : List NodeEntry} {edges : List EdgeEntry} {boxes : List (String × List NodeEntry)}
  {rest : List Line}

theorem lines_nodes : (nodes.map ofNodeEntry).flatMap Statement.lines = nodes.map nodeLine := by
  rw [List.flatMap_map, List.map_eq_flatMap]
  rfl

theorem lines_edges : (edges.map ofEdgeEntry).flatMap Statement.lines = edges.map edgeLine := by
  rw [List.flatMap_map, List.map_eq_flatMap]
  rfl

theorem lines_box (box : String × List NodeEntry) :
    (ofBox box).flatMap Statement.lines = boxLines box := by
  simp [ofBox, boxLines, lines_nodes, Statement.lines]

theorem lines_body (p : Picture) : p.body.flatMap Statement.lines =
    [.attribute ("rankdir", "TB"), .style "shape=box, fontname=\"monospace\"", .blank] ++
      p.boxes.flatMap boxLines ++ p.loose.map nodeLine ++ [.blank] ++ p.edges.map edgeLine := by
  simp [Picture.body, lines_nodes, lines_edges, List.flatMap_assoc, lines_box, Statement.lines]

theorem boxesOf_nodes : boxesOf (nodes.map nodeLine ++ rest) = boxesOf rest := by
  induction nodes with
  | nil => rfl
  | cons n nodes ih => exact ih

theorem boxesOf_edges : boxesOf (edges.map edgeLine ++ rest) = boxesOf rest := by
  induction edges with
  | nil => rfl
  | cons e edges ih => exact ih

theorem boxesOf_boxes : boxesOf (boxes.flatMap boxLines ++ rest) = boxes ++ boxesOf rest := by
  induction boxes with
  | nil => rfl
  | cons box boxes ih =>
    have hinside : ∀ line ∈ box.2.map nodeLine, decide (line ≠ .closing) = true := by
      intro line hline
      obtain ⟨n, -, rfl⟩ := List.mem_map.1 hline
      rfl
    have hnodes : (box.2.map nodeLine).filterMap Line.node? = box.2 := by
      rw [List.filterMap_map]
      exact List.filterMap_some
    have htaken : (box.2.map nodeLine ++ .closing :: (boxes.flatMap boxLines ++ rest)).takeWhile
        (· ≠ .closing) = box.2.map nodeLine :=
      Text.takeWhile_append_cons hinside rfl _
    simp only [List.flatMap_cons, boxLines, List.cons_append, List.append_assoc, List.nil_append,
      boxesOf, htaken, hnodes, boxesOf_nodes]
    exact congrArg _ ih

theorem looseOf_nodes :
    looseOf false (nodes.map nodeLine ++ rest) = nodes ++ looseOf false rest := by
  induction nodes with
  | nil => rfl
  | cons n nodes ih => exact congrArg (n :: ·) ih

theorem looseOf_boxed : looseOf true (nodes.map nodeLine ++ rest) = looseOf true rest := by
  induction nodes with
  | nil => rfl
  | cons n nodes ih => exact ih

theorem looseOf_edges : looseOf false (edges.map edgeLine ++ rest) = looseOf false rest := by
  induction edges with
  | nil => rfl
  | cons e edges ih => exact ih

theorem looseOf_boxes : looseOf false (boxes.flatMap boxLines ++ rest) = looseOf false rest := by
  induction boxes with
  | nil => rfl
  | cons box boxes ih =>
    simp only [List.flatMap_cons, boxLines, List.cons_append, List.append_assoc, List.nil_append,
      looseOf, looseOf_boxed]
    exact ih

theorem edgesOf_nodes : edgesOf (nodes.map nodeLine ++ rest) = edgesOf rest := by
  induction nodes with
  | nil => rfl
  | cons n nodes ih => exact ih

theorem edgesOf_edges : edgesOf (edges.map edgeLine ++ rest) = edges ++ edgesOf rest := by
  induction edges with
  | nil => rfl
  | cons e edges ih => exact congrArg (e :: ·) ih

theorem edgesOf_boxes : edgesOf (boxes.flatMap boxLines ++ rest) = edgesOf rest := by
  induction boxes with
  | nil => rfl
  | cons box boxes ih =>
    simp only [List.flatMap_cons, boxLines, List.cons_append, List.append_assoc, List.nil_append,
      edgesOf, edgesOf_nodes]
    exact ih

/-- The lines of a picture show the picture. -/
theorem ofLines_body (p : Picture) (name : String) :
    Picture.ofLines (.header name :: p.body.flatMap Statement.lines ++ [.closing]) = p := by
  have hboxes : boxesOf (.header name :: p.body.flatMap Statement.lines ++ [.closing]) =
      p.boxes := by
    simp [lines_body, boxesOf, boxesOf_boxes, boxesOf_nodes, boxesOf_edges]
  have hloose : looseOf false (.header name :: p.body.flatMap Statement.lines ++ [.closing]) =
      p.loose := by
    simp [lines_body, looseOf, looseOf_boxes, looseOf_nodes, looseOf_edges]
  have hedges : edgesOf (.header name :: p.body.flatMap Statement.lines ++ [.closing]) =
      p.edges := by
    simp [lines_body, edgesOf, edgesOf_boxes, edgesOf_nodes, edgesOf_edges]
  rw [Picture.ofLines, hboxes, hloose, hedges]

/-! ### Display graphs -/

variable {N E N' E' : Type} {g : Display.Graph N E} {g' : Display.Graph N' E'}

/-- A node as it is written. -/
def nodeEntry (n : Display.Node N) : NodeEntry :=
  (nodeName n.id, nodeAttributes n)

/-- An edge as it is written. -/
def edgeEntry (e : Display.Edge E) : EdgeEntry :=
  (nodeName e.source, nodeName e.target, edgeAttributes e)

/-- The picture of a display graph; `cluster` asks for boxes. -/
def picture (g : Display.Graph N E) (cluster : Bool) : Picture where
  boxes := (if cluster then g.containers else []).map fun (name, nodes) =>
    (name, nodes.map nodeEntry)
  loose := (g.looseNodes cluster).map nodeEntry
  edges := g.drawnEdges.map edgeEntry

theorem body_eq_picture (g : Display.Graph N E) (cluster : Bool) :
    body g cluster = (picture g cluster).body := by
  have hbox : clusterStatements (N := N) =
      fun container => ofBox (container.1, container.2.map nodeEntry) := by
    funext container
    rw [clusterStatements, ofBox, List.map_map]
    rfl
  rw [body_eq, Picture.body, picture, List.flatMap_map, List.map_map, List.map_map, hbox]
  rfl

/-- **The text of a display graph shows** what is drawn. -/
theorem pictureOf?_render (g : Display.Graph N E) (name : String) (cluster : Bool) :
    pictureOf? (render g name cluster) = some (picture g cluster) := by
  rw [pictureOf?, read?_render, Option.map_some, body_eq_picture, ofLines_body]

/-- Texts are the same just if they show the same picture. -/
theorem render_eq_iff (name : String) (cluster : Bool) :
    render g name cluster = render g' name cluster ↔ picture g cluster = picture g' cluster := by
  constructor
  · intro h
    have hpicture := congrArg pictureOf? h
    rwa [pictureOf?_render, pictureOf?_render, Option.some_inj] at hpicture
  · intro h
    rw [render, render, body_eq_picture, body_eq_picture, h]

end Dot

end IrView
