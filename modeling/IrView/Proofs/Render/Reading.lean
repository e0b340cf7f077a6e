import IrView.Proofs.Render.Drawn
import IrView.Proofs.Render.Names
import IrView.Proofs.Render.Values
import IrView.Proofs.Text.Lines

/-!
# Reading DOT

A DOT text is read line by line. The characters behind the first word of a line tell its kind, words
end at the first other character, and values end at the quote that closes them. Whatever the labels
of a display graph are, its text says what its statements say (`Dot.read?_render`), and all names in
it are legal but that of the graph (`Dot.render_names`).
-/

namespace IrView

namespace Dot

/-! ### The reader -/

/-- A line of a DOT text. -/
inductive Line where
  /-- Opens the graph. -/
  | header (name : String)
  | attribute (a : Attribute)
  | style (style : String)
  | blank
  | node (name : String) (attributes : List Attribute)
  | edge (source target : String) (attributes : List Attribute)
  /-- Opens a box. -/
  | opening (name : String)
  /-- Closes a box or the graph. -/
  | closing
  deriving DecidableEq, Repr

/-- The attribute in front, and what stands behind it. -/
def readAttribute? (cs : List Char) : Option (Attribute × List Char) :=
  match cs.dropWhile isWordChar with
  | '=' :: '"' :: rest => (closing? rest).map fun (raw, behind) =>
      ((String.ofList (cs.takeWhile isWordChar), unescape (String.ofList raw)), behind)
  | _ => none

theorem length_lt_of_closing? {cs raw behind : List Char} (h : closing? cs = some (raw, behind)) :
    behind.length < cs.length := by
  induction cs using closing?.induct generalizing raw behind with
  | case1 => cases h
  | case2 rest =>
    cases h
    exact Nat.lt_succ_self _
  | case3 c rest ih =>
    obtain ⟨⟨raw', behind'⟩, hrest, heq⟩ := Option.map_eq_some_iff.1 h
    cases heq
    exact Nat.lt_of_lt_of_le (ih hrest) (Nat.le_add_right _ 2)
  | case4 c rest hquote hbackslash ih =>
    rw [closing?] at h
    · obtain ⟨⟨raw', behind'⟩, hrest, heq⟩ := Option.map_eq_some_iff.1 h
      cases heq
      exact Nat.lt_of_lt_of_le (ih hrest) (Nat.le_add_right _ 1)
    · exact hquote
    · exact hbackslash

theorem length_lt_of_readAttribute? {cs behind : List Char} {a : Attribute}
    (h : readAttribute? cs = some (a, behind)) : behind.length < cs.length := by
  unfold readAttribute? at h
  split at h
  case h_1 rest hrest =>
    obtain ⟨⟨raw, behind'⟩, hclosing, heq⟩ := Option.map_eq_some_iff.1 h
    cases heq
    have hle : (cs.dropWhile isWordChar).length ≤ cs.length :=
      (List.dropWhile_sublist _).length_le
    rw [hrest, List.length_cons, List.length_cons] at hle
    have hlt := length_lt_of_closing? hclosing
    omega
  case h_2 => cases h

/-- The attributes in front, and what stands behind the last one. -/
def readAttributes? (cs : List Char) : Option (List Attribute × List Char) :=
  match _h : readAttribute? cs with
  | none => none
  | some (a, ',' :: ' ' :: rest) =>
    (readAttributes? rest).map fun (as, behind) => (a :: as, behind)
  | some (a, behind) => some ([a], behind)
termination_by cs.length
decreasing_by
  have := length_lt_of_readAttribute? ‹_›
  simp only [List.length_cons] at this
  omega

theorem readAttributes?_eq (cs : List Char) : readAttributes? cs =
    match readAttribute? cs with
    | none => none
    | some (a, ',' :: ' ' :: rest) =>
      (readAttributes? rest).map fun (as, behind) => (a :: as, behind)
    | some (a, behind) => some ([a], behind) := by
  rw [readAttributes?]
  split <;> simp_all

/-- The attributes up to the end of the line. -/
def readList? (cs : List Char) : Option (List Attribute) :=
  match readAttributes? cs with
  | some (as, [']', ';']) => some as
  | _ => none

/-- The attributes of an edge, which may have none. -/
def readTail? : List Char → Option (List Attribute)
  | [';'] => some []
  | ' ' :: '[' :: cs => readList? cs
  | _ => none

/-- What the nodes look like. -/
def readStyle? (cs : List Char) : Option Line :=
  match cs.reverse with
  | ';' :: ']' :: style => some (.style (String.ofList style.reverse))
  | _ => none

/-- The line that opens a box or the graph. -/
def readOpening? (word : String) (cs : List Char) : Option Line :=
  let name := String.ofList (cs.takeWhile isWordChar)
  if cs.dropWhile isWordChar = [' ', '\x7b'] then
    if word = "digraph" then some (.header name)
    else if word = "subgraph" then some (.opening name)
    else none
  else none

/-- The line that begins with the word. -/
def readRest? (word : String) : List Char → Option Line
  -- Arrows, styles and names of what is opened all stand behind a space; names come last.
  | '=' :: '"' :: cs =>
    match closing? cs with
    | some (raw, [';']) => some (.attribute (word, unescape (String.ofList raw)))
    | _ => none
  | '[' :: cs => (readList? cs).map (.node word)
  | ' ' :: '-' :: '>' :: ' ' :: cs =>
    (readTail? (cs.dropWhile isWordChar)).map
      (.edge word (String.ofList (cs.takeWhile isWordChar)))
  | ' ' :: '[' :: cs =>
    if word = "node" then readStyle? cs else none
  | ' ' :: cs => readOpening? word cs
  | _ => none

/-- What a line says. -/
def readLine? (line : List Char) : Option Line :=
  match line.dropWhile (· == ' ') with
  | [] => some .blank
  | ['\x7d'] => some .closing
  | cs => readRest? (String.ofList (cs.takeWhile isWordChar)) (cs.dropWhile isWordChar)

/-- What a text says. -/
def read? (text : String) : Option (List Line) :=
  Text.readLines? readLine? text.toList

/-! ### Words and attributes -/

/-- A word of letters, digits and underscores. -/
structure IsWord (word : String) : Prop where
  ne_nil : word.toList ≠ []
  isWordChar : ∀ c ∈ word.toList, isWordChar c = true

instance (word : String) : Decidable (IsWord word) :=
  decidable_of_iff (word.toList ≠ [] ∧ word.toList.all Dot.isWordChar = true)
    ⟨fun h => ⟨h.1, List.all_eq_true.1 h.2⟩, fun h => ⟨h.1, List.all_eq_true.2 h.2⟩⟩

theorem ne_of_isWordChar {c d : Char} (hc : isWordChar c = true) (hd : isWordChar d = false) :
    c ≠ d := by
  rintro rfl
  rw [hc] at hd
  cases hd

theorem lineFeed_notMem_word {word : List Char} (h : ∀ c ∈ word, isWordChar c = true) :
    '\n' ∉ word :=
  fun hmem => ne_of_isWordChar (h _ hmem) (by decide) rfl

theorem toList_attributeText (a : Attribute) : (attributeText a).toList =
    a.1.toList ++ '=' :: '"' :: ((escape a.2).toList ++ ['"']) := by
  simp [attributeText]

theorem lineFeed_notMem_attributeText {a : Attribute} (h : IsWord a.1) :
    '\n' ∉ (attributeText a).toList := by
  simp [toList_attributeText, lineFeed_notMem_word h.isWordChar, lineFeed_notMem_escape]

theorem readAttribute?_text {a : Attribute} (h : IsWord a.1) (behind : List Char) :
    readAttribute? ((attributeText a).toList ++ behind) = some (a, behind) := by
  have htext : (attributeText a).toList ++ behind =
      a.1.toList ++ '=' :: '"' :: ((escape a.2).toList ++ '"' :: behind) := by
    simp [toList_attributeText]
  rw [htext, readAttribute?, Text.dropWhile_append_cons h.isWordChar (by decide),
    Text.takeWhile_append_cons h.isWordChar (by decide)]
  simp [closing?_escape, unescape_escape]

theorem attributesText_singleton (a : Attribute) : attributesText [a] = attributeText a := by
  simp [attributesText]

theorem toList_attributesText_cons_cons (a b : Attribute) (as : List Attribute) :
    (attributesText (a :: b :: as)).toList =
      (attributeText a).toList ++ ',' :: ' ' :: (attributesText (b :: as)).toList := by
  simp [attributesText, String.intercalate_cons_cons]

theorem lineFeed_notMem_attributesText {as : List Attribute} (h : ∀ a ∈ as, IsWord a.1) :
    '\n' ∉ (attributesText as).toList := by
  induction as with
  | nil => simp [attributesText]
  | cons a as ih =>
    have ha := lineFeed_notMem_attributeText (h a List.mem_cons_self)
    have ih := ih fun b hb => h b (List.mem_cons_of_mem _ hb)
    cases as with
    | nil => rwa [attributesText_singleton]
    | cons b as => simp [toList_attributesText_cons_cons, ha, ih]

theorem readAttributes?_text {as : List Attribute} (hne : as ≠ []) (h : ∀ a ∈ as, IsWord a.1)
    (behind : List Char) :
    readAttributes? ((attributesText as).toList ++ ']' :: behind) = some (as, ']' :: behind) := by
  induction as with
  | nil => exact absurd rfl hne
  | cons a as ih =>
    have ha := h a List.mem_cons_self
    cases as with
    | nil =>
      rw [attributesText_singleton, readAttributes?_eq, readAttribute?_text ha]
      rfl
    | cons b as =>
      have ih := ih (List.cons_ne_nil _ _) fun c hc => h c (List.mem_cons_of_mem _ hc)
      rw [toList_attributesText_cons_cons, List.append_assoc, readAttributes?_eq,
        readAttribute?_text ha]
      show (readAttributes? ((attributesText (b :: as)).toList ++ ']' :: behind)).map _ = _
      rw [ih]
      rfl

theorem readList?_text {as : List Attribute} (hne : as ≠ []) (h : ∀ a ∈ as, IsWord a.1) :
    readList? ((attributesText as).toList ++ [']', ';']) = some as := by
  rw [readList?, readAttributes?_text hne h]
  rfl

/-! ### Lines -/

theorem readLine?_blank : readLine? [] = some .blank :=
  rfl

theorem readLine?_closing : readLine? ['\x7d'] = some .closing :=
  rfl

theorem readLine?_spaces (n : Nat) (cs : List Char) :
    readLine? (List.replicate n ' ' ++ cs) = readLine? cs := by
  have hspaces : ∀ c ∈ List.replicate n ' ', (c == ' ') = true := by simp
  rw [readLine?, readLine?, List.dropWhile_append_of_pos hspaces]

/-- A line with a word in front is read by what stands behind the word. -/
theorem readLine?_word {word : String} (h : IsWord word) {c : Char} (hc : isWordChar c = false)
    (rest : List Char) :
    readLine? (word.toList ++ c :: rest) = readRest? word (c :: rest) := by
  obtain ⟨d, ds, hword⟩ := List.exists_cons_of_ne_nil h.ne_nil
  have hd : isWordChar d = true := h.isWordChar d (hword ▸ List.mem_cons_self)
  have hspace : d ≠ ' ' := ne_of_isWordChar hd (by decide)
  have hbrace : d ≠ '\x7d' := ne_of_isWordChar hd (by decide)
  -- The word is no indentation, and its line is not the one of a brace.
  have hdrop : (word.toList ++ c :: rest).dropWhile (· == ' ') = word.toList ++ c :: rest := by
    rw [hword, List.cons_append, List.dropWhile_cons_of_neg (by simp [hspace])]
  rw [readLine?, hdrop]
  split
  case h_1 hnil => simp at hnil
  case h_2 hclosing => simp [hword, hbrace] at hclosing
  case h_3 =>
    rw [Text.takeWhile_append_cons h.isWordChar hc, Text.dropWhile_append_cons h.isWordChar hc,
      String.ofList_toList]

theorem readLine?_attribute {a : Attribute} (h : IsWord a.1) :
    readLine? ((attributeText a).toList ++ [';']) = some (.attribute a) := by
  have htext : (attributeText a).toList ++ [';'] =
      a.1.toList ++ '=' :: '"' :: ((escape a.2).toList ++ '"' :: [';']) := by
    simp [toList_attributeText]
  rw [htext, readLine?_word h (by decide), readRest?, closing?_escape]
  simp [unescape_escape]

theorem readLine?_style (style : String) :
    readLine? ("node [".toList ++ style.toList ++ "];".toList) = some (.style style) := by
  have htext : "node [".toList ++ style.toList ++ "];".toList =
      "node".toList ++ ' ' :: '[' :: (style.toList ++ [']', ';']) := by
    simp
  have hreverse : (style.toList ++ [']', ';']).reverse = ';' :: ']' :: style.toList.reverse := by
    simp
  rw [htext, readLine?_word (by decide) (by decide), readRest?, if_pos rfl, readStyle?,
    hreverse]
  simp

theorem readLine?_node {name : String} {as : List Attribute} (hname : IsWord name) (hne : as ≠ [])
    (has : ∀ a ∈ as, IsWord a.1) :
    readLine? (name.toList ++ '[' :: ((attributesText as).toList ++ [']', ';'])) =
      some (.node name as) := by
  rw [readLine?_word hname (by decide), readRest?, readList?_text hne has]
  rfl

/-- The end of the line of an edge. -/
def tailText (as : List Attribute) : String :=
  (if as.isEmpty then "" else " [" ++ attributesText as ++ "]") ++ ";"

theorem readTail?_text {as : List Attribute} (has : ∀ a ∈ as, IsWord a.1) :
    readTail? (tailText as).toList = some as := by
  cases as with
  | nil => rfl
  | cons a as =>
    have htext : (tailText (a :: as)).toList =
        ' ' :: '[' :: ((attributesText (a :: as)).toList ++ [']', ';']) := by
      simp [tailText]
    rw [htext, readTail?, readList?_text (List.cons_ne_nil _ _) has]

theorem readLine?_edge {source target : String} {as : List Attribute} (hsource : IsWord source)
    (htarget : IsWord target) (has : ∀ a ∈ as, IsWord a.1) :
    readLine? (source.toList ++ " -> ".toList ++ target.toList ++ (tailText as).toList) =
      some (.edge source target as) := by
  obtain ⟨c, cs, htail, hc⟩ : ∃ c cs, (tailText as).toList = c :: cs ∧ isWordChar c = false := by
    cases as with
    | nil => exact ⟨';', [], rfl, rfl⟩
    | cons a as => exact ⟨' ', _, by simp [tailText]; rfl, rfl⟩
  have htext : source.toList ++ " -> ".toList ++ target.toList ++ (tailText as).toList =
      source.toList ++ ' ' :: '-' :: '>' :: ' ' :: (target.toList ++ (tailText as).toList) := by
    simp
  rw [htext, readLine?_word hsource (by decide), readRest?]
  rw [htail, Text.takeWhile_append_cons htarget.isWordChar hc,
    Text.dropWhile_append_cons htarget.isWordChar hc, ← htail, readTail?_text has,
    String.ofList_toList]
  rfl

/-- Behind the first word of a line that opens something stands no arrow and no bracket, not even
if there is no name. -/
theorem readLine?_opening {word name : String} (hword : IsWord word)
    (hname : ∀ c ∈ name.toList, isWordChar c = true) :
    readLine? (word.toList ++ ' ' :: (name.toList ++ [' ', '\x7b'])) =
      if word = "digraph" then some (.header name)
      else if word = "subgraph" then some (.opening name)
      else none := by
  have hrest : readRest? word (' ' :: (name.toList ++ [' ', '\x7b'])) =
      readOpening? word (name.toList ++ [' ', '\x7b']) := by
    cases hchars : name.toList with
    | nil => rfl
    | cons c cs =>
      have hc : isWordChar c = true := hname c (hchars ▸ List.mem_cons_self)
      have hdash : c ≠ '-' := ne_of_isWordChar hc (by decide)
      have hbracket : c ≠ '[' := ne_of_isWordChar hc (by decide)
      simp [readRest?, hdash, hbracket]
  rw [readLine?_word hword (by decide), hrest, readOpening?,
    Text.takeWhile_append_cons hname (by decide), Text.dropWhile_append_cons hname (by decide),
    String.ofList_toList, if_pos rfl]

theorem readLine?_header {name : String} (h : ∀ c ∈ name.toList, isWordChar c = true) :
    readLine? ("digraph ".toList ++ name.toList ++ " \x7b".toList) = some (.header name) := by
  have hread := readLine?_opening (by decide : IsWord "digraph") h
  simpa using hread

theorem readLine?_subgraph {name : String} (h : ∀ c ∈ name.toList, isWordChar c = true) :
    readLine? ("subgraph ".toList ++ name.toList ++ " \x7b".toList) = some (.opening name) := by
  have hread := readLine?_opening (by decide : IsWord "subgraph") h
  simpa using hread

/-! ### Statements -/

/-- The lines of a statement. -/
def Statement.lines : Statement → List Line
  | .attribute a => [.attribute a]
  | .nodeStyle style => [.style style]
  | .blank => [.blank]
  | .node name as => [.node name as]
  | .edge source target as => [.edge source target as]
  | .openCluster name label => [.opening (clusterName name), .attribute ("label", label)]
  | .closeCluster => [.closing]

/-- What stands without quotes in the statement are words on one line. -/
def Statement.Plain : Statement → Prop
  | .attribute a => IsWord a.1
  | .nodeStyle style => '\n' ∉ style.toList
  | .node name as => IsWord name ∧ as ≠ [] ∧ ∀ a ∈ as, IsWord a.1
  | .edge source target as => IsWord source ∧ IsWord target ∧ ∀ a ∈ as, IsWord a.1
  | .blank | .openCluster _ _ | .closeCluster => True

theorem isWordChar_of_mem_clusterName {container : String} :
    ∀ c ∈ (clusterName container).toList, isWordChar c = true := by
  intro c hc
  rw [clusterName, String.toList_append, List.mem_append] at hc
  obtain hc | hc := hc
  · exact (by decide : IsWord "cluster_").isWordChar c hc
  · exact isWordChar_of_mem_sanitize hc

/-- An indented line is read as the line. -/
theorem reads_line {cs : List Char} {line : Line} (h : readLine? cs = some line)
    (hfeed : '\n' ∉ cs) (depth : Nat) :
    Text.Reads readLine? ((indent depth).toList ++ (cs ++ ['\n'])) [line] := by
  rw [← List.append_assoc]
  refine Text.Reads.of_line ?_ ?_
  · simp [indent, hfeed]
  · rw [indent, String.toList_ofList, readLine?_spaces, h]

/-- The text of a statement says its lines. -/
theorem Statement.reads_text : {s : Statement} → s.Plain → ∀ depth,
    Text.Reads readLine? (s.text depth).toList s.lines
  | .attribute a, h, depth => by
    have hread := reads_line (readLine?_attribute h)
      (by simp [lineFeed_notMem_attributeText h]) depth
    simpa [Statement.text, Statement.lines] using hread
  | .nodeStyle style, h, depth => by
    have hfeed : '\n' ∉ style.toList := h
    have hread := reads_line (readLine?_style style) (by simp [hfeed]) depth
    simpa [Statement.text, Statement.lines] using hread
  | .blank, _, _ => by
    have hread := Text.Reads.of_line List.not_mem_nil readLine?_blank
    simpa [Statement.text, Statement.lines] using hread
  | .node name as, h, depth => by
    obtain ⟨hname, hne, has⟩ := h
    have hread := reads_line (readLine?_node hname hne has)
      (by simp [lineFeed_notMem_word hname.isWordChar, lineFeed_notMem_attributesText has]) depth
    simpa [Statement.text, Statement.lines] using hread
  | .edge source target as, h, depth => by
    obtain ⟨hsource, htarget, has⟩ := h
    have htail : '\n' ∉ (tailText as).toList := by
      unfold tailText
      split_ifs <;> simp [lineFeed_notMem_attributesText has]
    have hread := reads_line (readLine?_edge hsource htarget has)
      (by simp [lineFeed_notMem_word hsource.isWordChar, lineFeed_notMem_word htarget.isWordChar,
        htail]) depth
    simpa [Statement.text, Statement.lines, tailText] using hread
  | .openCluster name label, _, depth => by
    have hlabel : IsWord "label" := by decide
    have hname : ∀ c ∈ (clusterName name).toList, isWordChar c = true :=
      isWordChar_of_mem_clusterName
    have hopening := reads_line (readLine?_subgraph hname)
      (by simp [lineFeed_notMem_word hname]) depth
    have hattribute := reads_line (readLine?_attribute (a := ("label", label)) hlabel)
      (by simp [lineFeed_notMem_attributeText (a := ("label", label)) hlabel]) (depth + 1)
    simpa [Statement.text, Statement.lines] using hopening.append hattribute
  | .closeCluster, _, depth => by
    have hread := reads_line readLine?_closing (by decide) (depth - 1)
    simpa [Statement.text, Statement.lines] using hread

theorem reads_statementsText {body : List Statement} (h : ∀ s ∈ body, s.Plain) (depth : Nat) :
    Text.Reads readLine? (statementsText depth body).toList (body.flatMap Statement.lines) := by
  induction body generalizing depth with
  | nil => exact Text.Reads.nil
  | cons s body ih =>
    rw [statementsText, String.toList_append, List.flatMap_cons]
    exact (s.reads_text (h s List.mem_cons_self) depth).append
      (ih (fun s' hs' => h s' (List.mem_cons_of_mem _ hs')) _)

/-- A text of plain statements says what the statements say. -/
theorem read?_graphText {body : List Statement} (h : ∀ s ∈ body, s.Plain) (name : String) :
    read? (graphText name body) =
      some (.header (sanitize name) :: body.flatMap Statement.lines ++ [.closing]) := by
  have hname : ∀ c ∈ (sanitize name).toList, isWordChar c = true :=
    fun _ => isWordChar_of_mem_sanitize
  have hheader := Text.Reads.of_line (by simp [lineFeed_notMem_word hname]) (readLine?_header hname)
  have hclosing := Text.Reads.of_line (by decide) readLine?_closing
  have hreads := ((hheader.append (reads_statementsText h 1)).append hclosing).readLines?
  simpa [read?, graphText] using hreads

/-! ### Display graphs -/

variable {N E : Type}

theorem mem_present {entries : List (String × Option String)} {a : Attribute}
    (h : a ∈ present entries) : a.1 ∈ entries.map Prod.fst := by
  obtain ⟨⟨key, value⟩, hentry, heq⟩ := List.mem_filterMap.1 h
  obtain ⟨v, -, rfl⟩ := Option.map_eq_some_iff.1 heq
  exact List.mem_map_of_mem hentry

theorem isWord_nodeName (id : NodeId) : IsWord (nodeName id) := by
  refine ⟨?_, fun c hc => ?_⟩
  · simp [toList_nodeName]
  · exact isWordChar_of_mem_sanitize hc

theorem plain_nodeStatement (n : Display.Node N) : (nodeStatement n).Plain := by
  refine ⟨isWord_nodeName _, ?_, fun a ha => ?_⟩
  · simp [nodeAttributes, present]
  · have hkeys : ∀ key ∈ ["label", "fillcolor", "style", "penwidth", "tooltip", "comment"],
        IsWord key := by decide
    exact hkeys _ (mem_present ha)

theorem plain_edgeStatement (e : Display.Edge E) : (edgeStatement e).Plain := by
  refine ⟨isWord_nodeName _, isWord_nodeName _, fun a ha => ?_⟩
  have hkeys : ∀ key ∈ ["label", "color", "style", "arrowhead", "penwidth", "tooltip",
      "constraint"], IsWord key := by decide
  exact hkeys _ (mem_present ha)

/-- What holds of the first statements, of nodes, of edges and of what opens and closes a box holds
of all statements of a display graph. -/
theorem forall_mem_body {P : Statement → Prop} {g : Display.Graph N E} {cluster : Bool}
    (hattribute : P (.attribute ("rankdir", "TB")))
    (hstyle : P (.nodeStyle "shape=box, fontname=\"monospace\"")) (hblank : P .blank)
    (hnode : ∀ n : Display.Node N, P (nodeStatement n))
    (hopening : ∀ container, P (.openCluster container container)) (hclosing : P .closeCluster)
    (hedge : ∀ e : Display.Edge E, P (edgeStatement e)) : ∀ s ∈ body g cluster, P s := by
  intro s hs
  simp only [body_eq, clusterStatements, List.cons_append, List.mem_append, List.mem_flatMap,
    List.mem_map, List.mem_cons, List.not_mem_nil, false_or, or_false, or_assoc] at hs
  obtain rfl | rfl | rfl | ⟨container, -, hs⟩ | ⟨n, -, rfl⟩ | rfl | ⟨e, -, rfl⟩ := hs
  · exact hattribute
  · exact hstyle
  · exact hblank
  · obtain rfl | ⟨n, -, rfl⟩ | rfl := hs
    · exact hopening container.1
    · exact hnode n
    · exact hclosing
  · exact hnode n
  · exact hblank
  · exact hedge e

theorem plain_body (g : Display.Graph N E) (cluster : Bool) : ∀ s ∈ body g cluster, s.Plain :=
  forall_mem_body (by decide : IsWord "rankdir")
    (by decide : '\n' ∉ "shape=box, fontname=\"monospace\"".toList) trivial plain_nodeStatement
    (fun _ => trivial) trivial plain_edgeStatement

/-- **The text of a display graph** says what its statements say, whatever its labels are. -/
theorem read?_render (g : Display.Graph N E) (name : String) (cluster : Bool) :
    read? (render g name cluster) =
      some (.header (sanitize name) :: (body g cluster).flatMap Statement.lines ++ [.closing]) :=
  read?_graphText (plain_body g cluster) name

/-! ### Names in a text -/

/-- The names that stand in a line without quotes. -/
def Line.names : Line → List String
  | .header name | .node name _ | .opening name => [name]
  | .edge source target _ => [source, target]
  | .attribute _ | .style _ | .blank | .closing => []

theorem isLegal_of_mem_body {g : Display.Graph N E} {cluster : Bool} : ∀ s ∈ body g cluster,
    ∀ line ∈ s.lines, ∀ word ∈ line.names, isLegal word = true := by
  refine forall_mem_body ?_ ?_ ?_ (fun n => ?_) (fun container => ?_) ?_ fun e => ?_
  all_goals simp [Statement.lines, Line.names, nodeStatement, edgeStatement, isLegal_nodeName,
    isLegal_clusterName]

/-- **The names in the text of a display graph** are legal, except for that of the graph: it is
legal just if it is not empty, does not begin with a digit in front of something that is no digit,
and is no keyword. -/
theorem render_names (g : Display.Graph N E) (name : String) (cluster : Bool) :
    ∃ lines, read? (render g name cluster) = some (.header (sanitize name) :: lines) ∧
      (∀ line ∈ lines, ∀ word ∈ line.names, isLegal word = true) ∧
      (isLegal (sanitize name) = true ↔
        (∃ c cs, name.toList = c :: cs ∧ (c.isDigit = true → ∀ d ∈ cs, d.isDigit = true)) ∧
          name.toLower ∉ keywords) := by
  refine ⟨_, read?_render g name cluster, fun line hline => ?_, isLegal_sanitize_iff⟩
  obtain hline | hline := List.mem_append.1 hline
  · obtain ⟨s, hs, hline⟩ := List.mem_flatMap.1 hline
    exact isLegal_of_mem_body s hs line hline
  · rw [List.mem_singleton.1 hline]
    exact List.forall_mem_nil _

/-- A graph can have a keyword for its name. -/
theorem render_keyword : ∃ lines,
    read? (render (⟨[], [], {}⟩ : Display.Graph Unit Unit) "node" true) = some lines ∧
      ∃ line ∈ lines, ∃ word ∈ line.names, isLegal word = false :=
  ⟨_, read?_render _ _ _, .header "node", List.mem_cons_self, "node", List.mem_cons_self,
    by decide +kernel⟩

end Dot

end IrView
