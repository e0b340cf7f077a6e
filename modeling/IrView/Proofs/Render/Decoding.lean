import IrView.Proofs.Json.Change
import IrView.Proofs.Json.Printing
import IrView.Render.Format

/-!
# Reading a graph back from JSON

The text of a display graph in JSON is read back as the graph without its records
(`render_json_reads_back`): the text is a way to write one value, which does not depend on the
layout, and from the value every field of every node and edge is taken, a member that is left out
standing for an absent value.

The fields of an element stand in a table in which some have no value (`Node.table`, `Edge.table`).
Its record has the fields with a value for members (`given`), and a reader that finds no member
takes the value for absent (`Fields.Tell`).
-/

namespace IrView

namespace Json

/-! ### Whole numbers -/

/-- The whole number of a literal without point and exponent. -/
def Value.whole? : Value → Option Int
  | .number ⟨negative, whole, [], none⟩ => some (if negative then -(whole : Int) else whole)
  | _ => none

/-- The natural number of a literal without point and exponent. -/
def Value.natural? (v : Value) : Option Nat :=
  v.whole?.bind Int.toNat?

theorem whole?_ofInt (i : Int) : (Value.ofInt i).whole? = some i := by
  show some (if decide (i < 0) = true then -(i.natAbs : Int) else i.natAbs) = some i
  congr 1
  by_cases hi : i < 0
  · rw [if_pos (decide_eq_true hi)]
    omega
  · rw [if_neg (by simpa using hi)]
    omega

theorem printable_ofInt (i : Int) : Printable (.ofInt i) :=
  .number fun _ hd => nomatch hd

/-! ### Fields that may be left out -/

/-- The members for the fields that have a value. -/
def given (table : List (String × Option Value)) : List (String × Value) :=
  table.filterMap fun (name, value) => value.map (name, ·)

theorem given_nil : given [] = [] :=
  rfl

theorem given_cons (name : String) (value : Option Value)
    (table : List (String × Option Value)) :
    given ((name, value) :: table) = (value.map (name, ·)).toList ++ given table := by
  cases value <;> rfl

section

variable {table : List (String × Option Value)} {name : String}

theorem map_fst_given : ((given table).map Prod.fst).Sublist (table.map Prod.fst) := by
  induction table with
  | nil => exact .slnil
  | cons entry table ih =>
    obtain ⟨name, _ | v⟩ := entry
    · exact ih.cons name
    · exact ih.cons_cons name

theorem lookup_given (h : (table.map Prod.fst).Nodup) :
    (given table).lookup name = (table.lookup name).join := by
  induction table with
  | nil => rfl
  | cons entry table ih =>
    obtain ⟨key, value⟩ := entry
    rw [List.map_cons, List.nodup_cons] at h
    rw [given_cons, List.lookup_append, List.lookup_cons, ih h.2]
    by_cases hkey : name = key
    · subst hkey
      have habsent : table.lookup name = none :=
        List.lookup_eq_none_iff.2 fun entry hentry => bne_iff_ne.2 fun hname =>
          h.1 (List.mem_map.2 ⟨entry, hentry, hname.symm⟩)
      cases value <;> simp [habsent]
    · have hne := beq_false_of_ne hkey
      cases value <;> simp [List.lookup_cons, hne]

theorem known_given :
    known (table.map Prod.fst) ((given table).map fun m => (some m.1, m.2)) = given table := by
  rw [known, List.filterMap_map]
  refine (List.filterMap_congr fun m hm => ?_).trans List.filterMap_some
  exact if_pos (map_fst_given.subset (List.mem_map_of_mem hm))

theorem sound_given (h : (table.map Prod.fst).Nodup) :
    Sound (table.map Prod.fst) ((given table).map fun m => (some m.1, m.2)) := by
  refine ⟨fun m hm => ?_, ?_⟩
  · obtain ⟨member, -, rfl⟩ := List.mem_map.1 hm
    rfl
  · rw [known_given]
    exact map_fst_given.nodup h

/-- The fields are those of the table that have a value. -/
structure Fields.Tell (F : Fields) (table : List (String × Option Value)) : Prop where
  positional : F.positional = false
  get? : ∀ name, F.get? name = (table.lookup name).join

/-- A reader of a record takes the fields that have a value. -/
theorem exists_fields_given (table : List (String × Option Value)) {names : List String}
    (hnames : table.map Prod.fst = names) (h : names.Nodup) :
    ∃ F, (Value.record (given table)).fields? names = some F ∧ F.Tell table := by
  classical
  subst hnames
  refine ⟨⟨false, given table⟩, ?_, rfl, fun name => lookup_given h⟩
  show (Value.object ((given table).map fun m => (some m.1, m.2))).fields? _ = _
  rw [fields?_object, if_pos (sound_given h), known_given]

variable {F : Fields} {α : Type} {read : Value → Option α}

theorem Fields.Tell.required {v : Value} {a : α} (hF : F.Tell table)
    (hname : table.lookup name = some (some v)) (hread : read v = some a) :
    F.required name read = some a := by
  rw [Fields.required, hF.get?, hname]
  exact hread

/-- A field that was left out is read as an absent value. -/
theorem Fields.Tell.optional {value : Option α} {encode : α → Value} (hF : F.Tell table)
    (hname : table.lookup name = some (value.map encode))
    (hread : ∀ a, Value.nullable? read (encode a) = some (some a)) :
    F.optional name read = some value := by
  rw [Fields.optional, hF.positional, if_neg Bool.false_ne_true, Fields.getD_eq_elim, hF.get?,
    hname]
  cases value with
  | none => rfl
  | some a => exact hread a

theorem printable_given (table : List (String × Option Value))
    (h : ∀ entry ∈ table, ∀ v ∈ entry.2, Printable v) :
    Printable (.record (given table)) := by
  refine .object (fun m hm => ?_) fun m hm => ?_
  all_goals obtain ⟨member, hmember, rfl⟩ := List.mem_map.1 hm
  · rfl
  · obtain ⟨entry, hentry, hvalue⟩ := List.mem_filterMap.1 hmember
    obtain ⟨v, hv, rfl⟩ := Option.map_eq_some_iff.1 hvalue
    exact h entry hentry v hv

end

theorem bind_of_eq_some {α β : Type} {o : Option α} {a : α} (h : o = some a)
    (f : α → Option β) : (o >>= f) = f a := by
  rw [h]
  rfl

theorem mapM_map_eq_some {α β γ : Type} {encode : α → β} {read : β → Option γ} {f : α → γ}
    (h : ∀ a, read (encode a) = some (f a)) (l : List α) :
    (l.map encode).mapM read = some (l.map f) := by
  induction l with
  | nil => rfl
  | cons a l ih => simp [h, ih]

end Json

namespace Display

open Json

variable {N E : Type}

/-! ### Elements without their records -/

/-- The node without its record. -/
def Node.bare (n : Node N) : Node Unit :=
  { n with record := () }

/-- The edge without its record. -/
def Edge.bare (e : Edge E) : Edge Unit :=
  { e with record := () }

/-- The graph as it is drawn, without records and diagnostics. -/
def Graph.bare (g : Graph N E) : Graph Unit Unit where
  nodes := g.nodes.map Node.bare
  edges := g.edges.map Edge.bare

/-! ### Reading elements -/

/-- The names of the fields of a color. -/
def Color.fieldNames : List String :=
  ["background", "highlight"]

/-- The color that a value says. -/
def Color.ofJson? (v : Value) : Option Color := do
  let fields ← v.fields? fieldNames
  let background ← fields.required "background" Value.string?
  let highlight ← fields.required "highlight" Value.string?
  return { background, highlight }

/-- The arrow head with the given name. -/
def Arrow.ofName? : String → Option Arrow
  | "arrow" => some .arrow
  | "circle" => some .circle
  | "none" => some .none
  | _ => none

/-- The arrow head that a value says. -/
def Arrow.ofJson? (v : Value) : Option Arrow :=
  v.string?.bind ofName?

/-- The names of the fields of a node. -/
def Node.fieldNames : List String :=
  ["id", "name", "label", "title", "color", "group_id", "container_group_id", "dashed_border",
    "hidden", "border_width", "level", "end_link"]

/-- The node that a value says. -/
def Node.ofJson? (v : Value) : Option (Node Unit) := do
  let fields ← v.fields? fieldNames
  let id ← fields.required "id" Value.whole?
  let name ← fields.required "name" Value.string?
  let label ← fields.required "label" Value.string?
  let title ← fields.optional "title" Value.string?
  let color ← fields.optional "color" Color.ofJson?
  let group ← fields.optional "group_id" Value.string?
  let container ← fields.optional "container_group_id" Value.string?
  let dashed ← fields.required "dashed_border" Value.bool?
  let hidden ← fields.required "hidden" Value.bool?
  let borderWidth ← fields.optional "border_width" Value.natural?
  let level ← fields.optional "level" Value.whole?
  let endLink ← fields.optional "end_link" Value.whole?
  return { id, name, label, title, color, group, container, dashed, hidden, borderWidth, level,
           endLink, record := () }

/-- The names of the fields of an edge. -/
def Edge.fieldNames : List String :=
  ["from", "to", "label", "title", "color", "dashed", "hidden", "arrow", "width", "is_backedge"]

/-- The edge that a value says. -/
def Edge.ofJson? (v : Value) : Option (Edge Unit) := do
  let fields ← v.fields? fieldNames
  let source ← fields.required "from" Value.whole?
  let target ← fields.required "to" Value.whole?
  let label ← fields.required "label" Value.string?
  let title ← fields.optional "title" Value.string?
  let color ← fields.optional "color" Color.ofJson?
  let dashed ← fields.required "dashed" Value.bool?
  let hidden ← fields.required "hidden" Value.bool?
  let head ← fields.required "arrow" Arrow.ofJson?
  let width ← fields.optional "width" Value.natural?
  let isBackedge ← fields.required "is_backedge" Value.bool?
  return { source, target, label, title, color, dashed, hidden, arrow := head, width, isBackedge,
           record := () }

/-- The names of the fields of a graph. -/
def Graph.fieldNames : List String :=
  ["nodes", "edges"]

/-- The graph that a value says. -/
def Graph.ofJson? (v : Value) : Option (Graph Unit Unit) := do
  let fields ← v.fields? fieldNames
  let nodes ← fields.required "nodes" (Value.list? Node.ofJson?)
  let edges ← fields.required "edges" (Value.list? Edge.ofJson?)
  return { nodes, edges }

/-! ### Tables of fields -/

/-- The fields of a color. -/
def Color.table (c : Color) : List (String × Option Value) :=
  [("background", some (.ofString c.background)), ("highlight", some (.ofString c.highlight))]

/-- The fields of a node. -/
def Node.table (n : Node N) : List (String × Option Value) :=
  [("id", some (.ofInt n.id)), ("name", some (.ofString n.name)),
    ("label", some (.ofString n.label)), ("title", n.title.map .ofString),
    ("color", n.color.map Color.toJson), ("group_id", n.group.map .ofString),
    ("container_group_id", n.container.map .ofString),
    ("dashed_border", some (.bool n.dashed)), ("hidden", some (.bool n.hidden)),
    ("border_width", n.borderWidth.map ofNat), ("level", n.level.map .ofInt),
    ("end_link", n.endLink.map .ofInt)]

/-- The fields of an edge. -/
def Edge.table (e : Edge E) : List (String × Option Value) :=
  [("from", some (.ofInt e.source)), ("to", some (.ofInt e.target)),
    ("label", some (.ofString e.label)), ("title", e.title.map .ofString),
    ("color", e.color.map Color.toJson), ("dashed", some (.bool e.dashed)),
    ("hidden", some (.bool e.hidden)), ("arrow", some (.ofString e.arrow.name)),
    ("width", e.width.map ofNat), ("is_backedge", some (.bool e.isBackedge))]

/-- The fields of a graph. -/
def Graph.table (g : Graph N E) : List (String × Option Value) :=
  [("nodes", some (.array (g.nodes.map Node.toJson))),
    ("edges", some (.array (g.edges.map Edge.toJson)))]

theorem Node.toJson_eq (n : Node N) : n.toJson = .record (given n.table) := by
  simp only [Node.toJson, Node.table, given_cons, given_nil, memberOf, Option.map_map,
    Option.map_some, Option.toList_some, Function.comp_def, List.append_assoc, List.cons_append,
    List.nil_append, List.append_nil]

theorem Edge.toJson_eq (e : Edge E) : e.toJson = .record (given e.table) := by
  simp only [Edge.toJson, Edge.table, given_cons, given_nil, memberOf, Option.map_map,
    Option.map_some, Option.toList_some, Function.comp_def, List.append_assoc, List.cons_append,
    List.nil_append, List.append_nil]

/-! ### Reading what is written -/

theorem Color.exists_fields (c : Color) :
    ∃ F, c.toJson.fields? fieldNames = some F ∧ F.Tell c.table :=
  exists_fields_given c.table rfl (by decide)

theorem Node.exists_fields (n : Node N) :
    ∃ F, n.toJson.fields? fieldNames = some F ∧ F.Tell n.table := by
  rw [Node.toJson_eq]
  exact exists_fields_given n.table rfl (by decide)

theorem Edge.exists_fields (e : Edge E) :
    ∃ F, e.toJson.fields? fieldNames = some F ∧ F.Tell e.table := by
  rw [Edge.toJson_eq]
  exact exists_fields_given e.table rfl (by decide)

theorem Graph.exists_fields (g : Graph N E) :
    ∃ F, g.toJson.fields? fieldNames = some F ∧ F.Tell g.table :=
  exists_fields_given g.table rfl (by decide)

theorem Color.ofJson?_toJson (c : Color) : Color.ofJson? c.toJson = some c := by
  obtain ⟨F, hfields, hF⟩ := c.exists_fields
  have hbackground : F.required "background" Value.string? = some c.background :=
    hF.required rfl rfl
  have hhighlight : F.required "highlight" Value.string? = some c.highlight :=
    hF.required rfl rfl
  rw [Color.ofJson?, bind_of_eq_some hfields, bind_of_eq_some hbackground,
    bind_of_eq_some hhighlight]
  rfl

theorem nullable_string (s : String) :
    Value.nullable? Value.string? (.ofString s) = some (some s) :=
  rfl

theorem nullable_color (c : Color) :
    Value.nullable? Color.ofJson? c.toJson = some (some c) := by
  show (Color.ofJson? c.toJson).map some = _
  rw [Color.ofJson?_toJson, Option.map_some]

theorem nullable_ofInt (i : Int) : Value.nullable? Value.whole? (.ofInt i) = some (some i) := by
  show ((Value.ofInt i).whole?).map some = _
  rw [whole?_ofInt, Option.map_some]

theorem nullable_ofNat (n : Nat) : Value.nullable? Value.natural? (ofNat n) = some (some n) := by
  show ((Value.ofInt n).whole?.bind Int.toNat?).map some = _
  rw [whole?_ofInt]
  rfl

theorem Arrow.ofJson?_name (a : Arrow) : Arrow.ofJson? (.ofString a.name) = some a := by
  cases a <;> rfl

theorem Node.ofJson?_toJson (n : Node N) : Node.ofJson? n.toJson = some n.bare := by
  obtain ⟨F, hfields, hF⟩ := n.exists_fields
  have hid : F.required "id" Value.whole? = some n.id := hF.required rfl (whole?_ofInt n.id)
  have hname : F.required "name" Value.string? = some n.name := hF.required rfl rfl
  have hlabel : F.required "label" Value.string? = some n.label := hF.required rfl rfl
  have htitle : F.optional "title" Value.string? = some n.title := hF.optional rfl nullable_string
  have hcolor : F.optional "color" Color.ofJson? = some n.color := hF.optional rfl nullable_color
  have hgroup : F.optional "group_id" Value.string? = some n.group :=
    hF.optional rfl nullable_string
  have hcontainer : F.optional "container_group_id" Value.string? = some n.container :=
    hF.optional rfl nullable_string
  have hdashed : F.required "dashed_border" Value.bool? = some n.dashed := hF.required rfl rfl
  have hhidden : F.required "hidden" Value.bool? = some n.hidden := hF.required rfl rfl
  have hborder : F.optional "border_width" Value.natural? = some n.borderWidth :=
    hF.optional rfl nullable_ofNat
  have hlevel : F.optional "level" Value.whole? = some n.level := hF.optional rfl nullable_ofInt
  have hend : F.optional "end_link" Value.whole? = some n.endLink :=
    hF.optional rfl nullable_ofInt
  rw [Node.ofJson?, bind_of_eq_some hfields, bind_of_eq_some hid, bind_of_eq_some hname,
    bind_of_eq_some hlabel, bind_of_eq_some htitle, bind_of_eq_some hcolor, bind_of_eq_some hgroup,
    bind_of_eq_some hcontainer, bind_of_eq_some hdashed, bind_of_eq_some hhidden,
    bind_of_eq_some hborder, bind_of_eq_some hlevel, bind_of_eq_some hend]
  rfl

theorem Edge.ofJson?_toJson (e : Edge E) : Edge.ofJson? e.toJson = some e.bare := by
  obtain ⟨F, hfields, hF⟩ := e.exists_fields
  have hsource : F.required "from" Value.whole? = some e.source :=
    hF.required rfl (whole?_ofInt e.source)
  have htarget : F.required "to" Value.whole? = some e.target :=
    hF.required rfl (whole?_ofInt e.target)
  have hlabel : F.required "label" Value.string? = some e.label := hF.required rfl rfl
  have htitle : F.optional "title" Value.string? = some e.title := hF.optional rfl nullable_string
  have hcolor : F.optional "color" Color.ofJson? = some e.color := hF.optional rfl nullable_color
  have hdashed : F.required "dashed" Value.bool? = some e.dashed := hF.required rfl rfl
  have hhidden : F.required "hidden" Value.bool? = some e.hidden := hF.required rfl rfl
  have harrow : F.required "arrow" Arrow.ofJson? = some e.arrow :=
    hF.required rfl (Arrow.ofJson?_name e.arrow)
  have hwidth : F.optional "width" Value.natural? = some e.width := hF.optional rfl nullable_ofNat
  have hbackedge : F.required "is_backedge" Value.bool? = some e.isBackedge :=
    hF.required rfl rfl
  rw [Edge.ofJson?, bind_of_eq_some hfields, bind_of_eq_some hsource, bind_of_eq_some htarget,
    bind_of_eq_some hlabel, bind_of_eq_some htitle, bind_of_eq_some hcolor, bind_of_eq_some hdashed,
    bind_of_eq_some hhidden, bind_of_eq_some harrow, bind_of_eq_some hwidth,
    bind_of_eq_some hbackedge]
  rfl

theorem Graph.ofJson?_toJson (g : Graph N E) : Graph.ofJson? g.toJson = some g.bare := by
  obtain ⟨F, hfields, hF⟩ := g.exists_fields
  have hnodes : F.required "nodes" (Value.list? Node.ofJson?) = some (g.nodes.map Node.bare) :=
    hF.required rfl (mapM_map_eq_some Node.ofJson?_toJson g.nodes)
  have hedges : F.required "edges" (Value.list? Edge.ofJson?) = some (g.edges.map Edge.bare) :=
    hF.required rfl (mapM_map_eq_some Edge.ofJson?_toJson g.edges)
  rw [Graph.ofJson?, bind_of_eq_some hfields, bind_of_eq_some hnodes, bind_of_eq_some hedges]
  rfl

/-! ### Writing elements -/

theorem printable_ofString (s : String) : Printable (.ofString s) :=
  .string s

theorem printable_ofNat (n : Nat) : Printable (ofNat n) :=
  printable_ofInt n

theorem printable_color (c : Color) : Printable c.toJson :=
  printable_given c.table (by simp [Color.table, printable_ofString])

theorem printable_node (n : Node N) : Printable n.toJson := by
  rw [Node.toJson_eq]
  refine printable_given n.table ?_
  simp [Node.table, Printable.bool, printable_ofInt, printable_ofNat, printable_ofString,
    printable_color]

theorem printable_edge (e : Edge E) : Printable e.toJson := by
  rw [Edge.toJson_eq]
  refine printable_given e.table ?_
  simp [Edge.table, Printable.bool, printable_ofInt, printable_ofNat, printable_ofString,
    printable_color]

theorem printable_graph (g : Graph N E) : Printable g.toJson := by
  have hnodes : Printable (.array (g.nodes.map Node.toJson)) :=
    .array (List.forall_mem_map.2 fun n _ => printable_node n)
  have hedges : Printable (.array (g.edges.map Edge.toJson)) :=
    .array (List.forall_mem_map.2 fun e _ => printable_edge e)
  exact printable_given g.table (by simp [Graph.table, hnodes, hedges])

theorem Graph.toJson_bare (g : Graph N E) : g.bare.toJson = g.toJson := by
  rw [Graph.toJson, Graph.toJson, Graph.bare, List.map_map, List.map_map]
  rfl

/-- The value of a graph tells what is drawn, and nothing else. -/
theorem Graph.toJson_eq_iff {N' E' : Type} {g : Graph N E} {g' : Graph N' E'} :
    g.toJson = g'.toJson ↔ g.bare = g'.bare := by
  refine ⟨fun h => ?_, fun h => ?_⟩
  · have hread : some g.bare = some g'.bare := by
      rw [← Graph.ofJson?_toJson, ← Graph.ofJson?_toJson, h]
    exact Option.some.inj hread
  · rw [← Graph.toJson_bare g, ← Graph.toJson_bare g', h]

end Display

namespace Json

/-- What comes behind the first bracket tells the layout of a record. -/
theorem layout_text (pretty : Bool) (name : String) (v : Value) (members : List (String × Value)) :
    ((Value.record ((name, v) :: members)).text pretty).toList[1]? =
      some (if pretty then '\n' else '"') := by
  cases pretty with
  | true =>
    simp [Value.record, Value.text, Value.pretty, prettyMembers, block, newline]
  | false =>
    simp [Value.record, Value.text, Value.compact, compactMembers, contentText, quote]

end Json

/-! ### The text of a graph -/

open Json

/-- The options with JSON for the format. -/
def RenderOptions.asJson (options : RenderOptions) : RenderOptions :=
  { options with format := .json }

variable {N E : Type}

theorem written_render (options : RenderOptions) (g : Display.Graph N E) :
    Written g.toJson (render options.asJson g) :=
  written_text options.pretty (Display.printable_graph g)

/-- The text of a graph tells its layout. -/
theorem layout_render (options : RenderOptions) (g : Display.Graph N E) :
    (render options.asJson g).toList[1]? = some (if options.pretty then '\n' else '"') :=
  layout_text options.pretty _ _ _

theorem pretty_eq_of_render_eq {N' E' : Type} {options options' : RenderOptions}
    {g : Display.Graph N E} {g' : Display.Graph N' E'}
    (h : render options.asJson g = render options'.asJson g') :
    options.pretty = options'.pretty := by
  have hlayout := layout_render options g
  rw [h, layout_render] at hlayout
  cases hpretty : options.pretty <;> cases hpretty' : options'.pretty <;>
    simp [hpretty, hpretty'] at hlayout ⊢

/-- **A graph is read back from its text in JSON.** The text is a way to write one value, the same
one for both layouts, and the value says the graph without its records. So two graphs have the same
text just if they are drawn alike and laid out alike. -/
theorem render_json_reads_back (g : Display.Graph N E) :
    ∃ v : Value,
      (∀ (options : RenderOptions) (v' : Value),
        Written v' (render options.asJson g) ↔ v' = v) ∧
      (∀ options : RenderOptions, parse (.ofString (render options.asJson g)) = some v) ∧
      Display.Graph.ofJson? v = some g.bare ∧
      ∀ {N' E' : Type} (g' : Display.Graph N' E') (options options' : RenderOptions),
        render options.asJson g = render options'.asJson g' ↔
          g.bare = g'.bare ∧ options.pretty = options'.pretty := by
  refine ⟨g.toJson, fun options v' => ⟨fun h => ?_, ?_⟩, fun options => ?_,
    g.ofJson?_toJson, fun g' options options' => ⟨fun h => ⟨?_, ?_⟩, ?_⟩⟩
  · exact written_unique h (written_render options g)
  · rintro rfl
    exact written_render options g
  · exact parse_eq_some_iff.2 (written_render options g)
  · have hwritten := written_render options' g'
    rw [← h] at hwritten
    exact Display.Graph.toJson_eq_iff.1 (written_unique (written_render options g) hwritten)
  · exact pretty_eq_of_render_eq h
  · rintro ⟨hbare, hpretty⟩
    show g.toJson.text options.pretty = g'.toJson.text options'.pretty
    rw [Display.Graph.toJson_eq_iff.2 hbare, hpretty]

end IrView
