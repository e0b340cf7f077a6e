import IrView.Proofs.Render.Picture

/-!
# Looks

A DOT text shows only some fields of a node and of an edge: their looks. It shows them completely.
Attributes have different keys, so an absent value is told from a present one, and every value can
be read back from its text. Hence two graphs have the same text just if their drawings look the same
(`Dot.render_faithful`).
-/

namespace IrView

/-! ### Looks of nodes and edges -/

namespace Display

variable {N E : Type}

/-- What is shown of a node. -/
structure NodeLook where
  id : NodeId
  label : String
  background : Option String
  dashed : Bool
  borderWidth : Option Nat
  title : Option String
  level : Option Int
  deriving DecidableEq, Repr

/-- What is shown of an edge. -/
structure EdgeLook where
  source : NodeId
  target : NodeId
  label : String
  background : Option String
  dashed : Bool
  arrow : Arrow
  width : Option Nat
  title : Option String
  isBackedge : Bool
  deriving DecidableEq, Repr

/-- The look of a node. -/
def Node.look (n : Node N) : NodeLook :=
  ⟨n.id, n.label, n.color.map Color.background, n.dashed, n.borderWidth, n.title, n.level⟩

/-- The look of an edge. -/
def Edge.look (e : Edge E) : EdgeLook :=
  ⟨e.source, e.target, e.label, e.color.map Color.background, e.dashed, e.arrow, e.width, e.title,
    e.isBackedge⟩

/-- What is drawn of a display graph. -/
structure Drawing where
  /-- Each container with a box and the nodes inside, in the order of their first nodes. -/
  clusters : List (String × List NodeLook)
  /-- The nodes outside of boxes. -/
  loose : List NodeLook
  edges : List EdgeLook
  deriving DecidableEq, Repr

/-- The drawing of a display graph; `cluster` asks for boxes. -/
def Graph.drawing (g : Graph N E) (cluster : Bool) : Drawing where
  clusters := (if cluster then g.containers else []).map fun (container, nodes) =>
    (container, nodes.map Node.look)
  loose := (g.looseNodes cluster).map Node.look
  edges := g.drawnEdges.map Edge.look

end Display

namespace Dot

/-! ### Attributes with a value -/

theorem present_cons (key : String) (value : Option String)
    (entries : List (String × Option String)) : present ((key, value) :: entries) =
      (value.map fun v => (key, v)).toList ++ present entries := by
  cases value <;> rfl

/-- If all keys are different, the attributes with a value tell those without. -/
theorem present_inj {entries entries' : List (String × Option String)}
    (hkeys : entries.map Prod.fst = entries'.map Prod.fst)
    (hnodup : (entries.map Prod.fst).Nodup) :
    present entries = present entries' ↔ entries = entries' := by
  refine ⟨fun h => ?_, congrArg present⟩
  induction entries generalizing entries' with
  | nil => exact (List.map_eq_nil_iff.1 hkeys.symm).symm
  | cons entry entries ih =>
    obtain ⟨entry', rest, rfl, hkey, hrest⟩ := List.map_eq_cons_iff.1 hkeys.symm
    obtain ⟨key, value⟩ := entry
    obtain ⟨key', value'⟩ := entry'
    obtain rfl : key' = key := hkey
    rw [List.map_cons, List.nodup_cons] at hnodup
    have hfresh : ∀ v, (key', v) ∉ present entries :=
      fun v hmem => hnodup.1 (mem_present hmem)
    have hfresh' : ∀ v, (key', v) ∉ present rest :=
      fun v hmem => hnodup.1 (hrest ▸ mem_present hmem)
    rw [present_cons, present_cons] at h
    -- The first key is that of no other entry: its value is the first one present, or it has none.
    cases value with
    | none =>
      cases value' with
      | none => rw [ih hrest.symm hnodup.2 h]
      | some v' =>
        change present entries = (key', v') :: present rest at h
        exact absurd (h ▸ List.mem_cons_self) (hfresh v')
    | some v =>
      cases value' with
      | none =>
        change (key', v) :: present entries = present rest at h
        exact absurd (h ▸ List.mem_cons_self) (hfresh' v)
      | some v' =>
        injection h with hvalue htail
        injection hvalue with _ hv
        rw [ih hrest.symm hnodup.2 htail, hv]

/-! ### Values -/

theorem toString_nat_injective : Function.Injective (toString : Nat → String) :=
  fun _ _ h => Nat.repr_injective h

theorem level_injective : Function.Injective fun l : Int => "level " ++ toString l := by
  intro l l' h
  have hread := congrArg String.toInt? (String.append_right_inj "level " |>.1 h)
  rwa [Text.toInt?_toString, Text.toInt?_toString, Option.some_inj] at hread

theorem arrowHead?_injective : Function.Injective arrowHead? := by
  rintro (_ | _ | _) (_ | _ | _) h
  all_goals first | rfl | simp [arrowHead?] at h

/-- An empty label is the only one that is left out. -/
theorem label_injective :
    Function.Injective fun label : String => if label.isEmpty then none else some label := by
  intro label label' h
  dsimp only at h
  split_ifs at h with hempty hempty'
  · rw [String.isEmpty_iff.1 hempty, String.isEmpty_iff.1 hempty']
  · exact Option.some.inj h

/-! ### Entries and looks -/

variable {N E N' E' : Type}

theorem nodeEntry_eq_iff {n : Display.Node N} {n' : Display.Node N'} :
    nodeEntry n = nodeEntry n' ↔ n.look = n'.look := by
  have hattributes : nodeAttributes n = nodeAttributes n' ↔ _ :=
    present_inj rfl (by decide : ["label", "fillcolor", "style", "penwidth", "tooltip",
      "comment"].Nodup)
  have hstyle : (if n.dashed then "filled,dashed" else "filled") =
      (if n'.dashed then "filled,dashed" else "filled") ↔ n.dashed = n'.dashed := by
    cases n.dashed <;> cases n'.dashed <;> decide
  have hwidth : n.borderWidth.map toString = n'.borderWidth.map toString ↔
      n.borderWidth = n'.borderWidth :=
    (Option.map_injective toString_nat_injective).eq_iff
  have hlevel : (n.level.map fun l => "level " ++ toString l) =
      (n'.level.map fun l => "level " ++ toString l) ↔ n.level = n'.level :=
    (Option.map_injective level_injective).eq_iff
  simp only [nodeEntry, Prod.mk.injEq, nodeName_injective.eq_iff, hattributes, List.cons.injEq,
    true_and, and_true, Option.some.injEq, hstyle, hwidth, hlevel, Display.Node.look,
    Display.NodeLook.mk.injEq]

theorem edgeEntry_eq_iff {e : Display.Edge E} {e' : Display.Edge E'} :
    edgeEntry e = edgeEntry e' ↔ e.look = e'.look := by
  have hattributes : edgeAttributes e = edgeAttributes e' ↔ _ :=
    present_inj rfl (by decide : ["label", "color", "style", "arrowhead", "penwidth", "tooltip",
      "constraint"].Nodup)
  have hlabel : (if e.label.isEmpty then none else some e.label) =
      (if e'.label.isEmpty then none else some e'.label) ↔ e.label = e'.label :=
    label_injective.eq_iff
  have hstyle : (if e.dashed then some "dashed" else none) =
      (if e'.dashed then some "dashed" else none) ↔ e.dashed = e'.dashed := by
    cases e.dashed <;> cases e'.dashed <;> decide
  have hwidth : e.width.map toString = e'.width.map toString ↔ e.width = e'.width :=
    (Option.map_injective toString_nat_injective).eq_iff
  have hconstraint : (if e.isBackedge then some "false" else none) =
      (if e'.isBackedge then some "false" else none) ↔ e.isBackedge = e'.isBackedge := by
    cases e.isBackedge <;> cases e'.isBackedge <;> decide
  simp only [edgeEntry, Prod.mk.injEq, nodeName_injective.eq_iff, hattributes, List.cons.injEq,
    true_and, and_true, hlabel, hstyle, arrowHead?_injective.eq_iff, hwidth, hconstraint,
    Display.Edge.look, Display.EdgeLook.mk.injEq]

/-! ### Drawings -/

theorem map_eq_map_iff {α β γ δ : Type} {f : α → γ} {f' : β → γ} {h : α → δ} {h' : β → δ}
    (hiff : ∀ a b, f a = f' b ↔ h a = h' b) {l : List α} {l' : List β} :
    l.map f = l'.map f' ↔ l.map h = l'.map h' := by
  induction l generalizing l' with
  | nil => cases l' <;> simp
  | cons a l ih => cases l' <;> simp [hiff, ih]

theorem picture_eq_iff {g : Display.Graph N E} {g' : Display.Graph N' E'} {cluster : Bool} :
    picture g cluster = picture g' cluster ↔ g.drawing cluster = g'.drawing cluster := by
  have hnodes : ∀ (l : List (Display.Node N)) (l' : List (Display.Node N')),
      l.map nodeEntry = l'.map nodeEntry ↔ l.map Display.Node.look = l'.map Display.Node.look :=
    fun l l' => map_eq_map_iff fun _ _ => nodeEntry_eq_iff
  have hedges : g.drawnEdges.map edgeEntry = g'.drawnEdges.map edgeEntry ↔
      g.drawnEdges.map Display.Edge.look = g'.drawnEdges.map Display.Edge.look :=
    map_eq_map_iff fun _ _ => edgeEntry_eq_iff
  rw [picture, picture, Display.Graph.drawing, Display.Graph.drawing, Picture.mk.injEq,
    Display.Drawing.mk.injEq, hnodes, hedges]
  refine and_congr_left' (map_eq_map_iff fun container container' => ?_)
  rw [Prod.mk.injEq, Prod.mk.injEq, hnodes]

/-- **DOT is faithful.** Whatever the labels are, each quoted value is closed by the quote behind it
and says what was quoted, the text reads as the statements that were written, and two graphs have
the same text just if they look the same. -/
theorem render_faithful (g : Display.Graph N E) (name : String) (cluster : Bool) :
    (∀ value, Closed (escape value) ∧ unescape (escape value) = value) ∧
      read? (render g name cluster) =
        some (.header (sanitize name) :: (body g cluster).flatMap Statement.lines ++ [.closing]) ∧
      ∀ {N' E' : Type} (g' : Display.Graph N' E'),
        render g name cluster = render g' name cluster ↔
          g.drawing cluster = g'.drawing cluster :=
  ⟨fun value => ⟨closed_escape value, unescape_escape value⟩, read?_render g name cluster,
    fun _ => (render_eq_iff name cluster).trans picture_eq_iff⟩

end Dot

end IrView
