import Mathlib.Data.List.Basic
import IrView.Proofs.Text.Lowercase
import IrView.Query

/-!
# What a search finds

A search lowercases the needle and the labels each on its own, so it finds an occurrence if the
needle is lowercased inside the label as it is alone. A label that continues a word of the needle
can undo that at a capital sigma (`final_sigma_missed`). A needle is found wherever it occurs just
if it decides its sigmas itself, as every needle without one does (`search_misses_nothing_iff`).
-/

namespace IrView

namespace Text

variable {label needle : String} {front back : List Char}

theorem contains_iff : contains label needle = true ↔
    ∃ front back, label.toList = front ++ needle.toList ++ back := by
  rw [contains, occursIn_iff]
  simp only [List.IsInfix, eq_comm]

/-- An occurrence that is lowercased as the needle is alone is kept. -/
theorem contains_lowercase (hlabel : label.toList = front ++ needle.toList ++ back)
    (hkept : lowerIn front.reverse needle.toList back = lowerIn [] needle.toList []) :
    contains (lowercase label) (lowercase needle) = true := by
  rw [contains_iff, toList_lowercase hlabel, hkept, ← toList_lowercase_eq]
  exact ⟨_, _, rfl⟩

/-- A text with a character replaced does not hold the text, whatever stands around it. -/
theorem not_infix_replaced {c d : Char} {around behind : List Char} (hcd : d ≠ c)
    (haround : c ∉ around) (hbehind : c ∉ behind) :
    ¬ front ++ c :: back <:+: around ++ (front ++ d :: back) ++ behind := by
  intro hinfix
  -- the replaced one is missing in the count
  have hcount := hinfix.sublist.count_le c
  simp only [List.count_append, List.count_cons_self, List.count_cons_of_ne hcd,
    List.count_eq_zero.2 haround, List.count_eq_zero.2 hbehind] at hcount
  omega

/-- A needle that leaves a sigma open is missed in a label with one more letter. -/
theorem exists_missed (h : ¬ SigmasSettled needle.toList) : ∃ label, contains label needle = true ∧
    contains (lowercase label) (lowercase needle) = false := by
  simp only [Bool.eq_false_iff, ne_eq, contains, occursIn_iff, toList_lowercase_eq needle]
  obtain ⟨front, back, ⟨halone, hseen⟩ | ⟨halone, hseen⟩⟩ := exists_unsettled h
  · have hlabel : ("a" ++ needle).toList = ['a'] ++ needle.toList ++ [] := by
      rw [String.toList_append, List.append_nil]
      rfl
    refine ⟨"a" ++ needle, ⟨['a'], [], hlabel.symm⟩, ?_⟩
    rw [toList_lowercase hlabel, lowerIn_a, List.reverse_singleton, hseen, halone]
    exact not_infix_replaced (by decide) (by decide) (by simp [lowerIn])
  · have hlabel : (needle ++ "a").toList = [] ++ needle.toList ++ ['a'] := by
      rw [String.toList_append, List.nil_append]
      rfl
    refine ⟨needle ++ "a", ⟨[], ['a'], hlabel.symm⟩, ?_⟩
    rw [toList_lowercase hlabel, lowerIn_a, List.reverse_nil, hseen, halone]
    exact not_infix_replaced (by decide) (by simp [lowerIn]) (by decide)

end Text

namespace Display.Graph

variable {N E : Type}

/-- The nodes whose label contains a text as it is written, in the order of the graph. -/
def literalMatches (g : Graph N E) (text : String) : List NodeId :=
  (g.nodes.filter fun n => Text.contains n.label text).map Node.id

theorem search_eq {text : String} (h : text ≠ "") (g : Graph N E) : g.search text =
    (g.nodes.filter fun n => Text.contains (Text.lowercase n.label) (Text.lowercase text)).map
      Node.id := by
  rw [search, if_neg]
  simpa using h

theorem search_sublist (g : Graph N E) (text : String) :
    (g.search text).Sublist (g.nodes.map Node.id) := by
  rw [search]
  split
  · exact List.nil_sublist _
  · exact List.filter_sublist.map Node.id

/-- A needle that decides its sigmas is found wherever it occurs. -/
theorem literalMatches_sublist_search {text : String} (h : text ≠ "")
    (hsettled : Text.SigmasSettled text.toList) (g : Graph N E) :
    (g.literalMatches text).Sublist (g.search text) := by
  rw [search_eq h]
  refine List.Sublist.map Node.id (List.monotone_filter_right _ fun n hn => ?_)
  obtain ⟨front, back, hlabel⟩ := Text.contains_iff.1 hn
  exact Text.contains_lowercase hlabel (Text.lowerIn_eq_of_settled hsettled)

/-- An occurrence that starts and ends with a word is found. -/
theorem mem_search_of_edges {text : String} (h : text ≠ "") {g : Graph N E} {n : Node N}
    (hn : n ∈ g.nodes) {front back : List Char}
    (hlabel : n.label.toList = front ++ text.toList ++ back)
    (hfront : Text.casedNext front.reverse = false) (hback : Text.casedNext back = false) :
    n.id ∈ g.search text := by
  rw [search_eq h]
  refine List.mem_map_of_mem (List.mem_filter.2 ⟨hn, ?_⟩)
  exact Text.contains_lowercase hlabel (Text.lowerIn_eq_of_edges hfront hback)

/-- A graph of one node. -/
def single (label : String) : Graph Unit Unit where
  nodes := [{ id := 1, name := label, label, record := () }]
  edges := []

/-- A needle that leaves a sigma open is missed in a graph of one node. -/
theorem exists_single_missed {text : String} (h : ¬ Text.SigmasSettled text.toList) :
    ∃ label, (single label).literalMatches text = [1] ∧ (single label).search text = [] := by
  have hne : text ≠ "" := by
    rintro rfl
    exact h (Text.settled_of_notMem List.not_mem_nil)
  obtain ⟨label, hholds, hmissed⟩ := Text.exists_missed h
  refine ⟨label, ?_, ?_⟩
  · simp [literalMatches, single, hholds]
  · simp [search_eq hne, single, hmissed]

/-- **Which needles are never missed.** In every graph a search finds all nodes whose label holds
the needle as it is written, in the order of the graph, just if the needle is not empty and decides
its sigmas itself; a needle without a capital sigma does. Any needle is found where it starts and
ends with a word. -/
theorem search_misses_nothing_iff (needle : String) :
    ((∀ (N E : Type) (g : Graph N E), (g.literalMatches needle).Sublist (g.search needle)) ↔
      needle ≠ "" ∧ Text.SigmasSettled needle.toList) ∧
    ('Σ' ∉ needle.toList → Text.SigmasSettled needle.toList) ∧
    (needle ≠ "" → ∀ (N E : Type) (g : Graph N E), ∀ n ∈ g.nodes, ∀ front back,
      n.label.toList = front ++ needle.toList ++ back → Text.casedNext front.reverse = false →
        Text.casedNext back = false → n.id ∈ g.search needle) ∧
    ∀ (N E : Type) (g : Graph N E), (g.search needle).Sublist (g.nodes.map Node.id) := by
  refine ⟨⟨fun hall => ⟨?_, ?_⟩, ?_⟩, Text.settled_of_notMem, ?_, ?_⟩
  · -- the empty needle occurs in every label and is found in none
    rintro rfl
    have hempty := (hall Unit Unit (single "")).length_le
    revert hempty
    decide
  · by_contra hopen
    obtain ⟨label, hholds, hmissed⟩ := exists_single_missed hopen
    have hfound := hall Unit Unit (single label)
    rw [hholds, hmissed] at hfound
    cases hfound
  · rintro ⟨hne, hsettled⟩ N E g
    exact literalMatches_sublist_search hne hsettled g
  · intro hne N E g n hn front back hlabel hfront hback
    exact mem_search_of_edges hne hn hlabel hfront hback
  · intro N E g
    exact search_sublist g needle

/-- A sigma that ends a word in the label is no final sigma in the needle. -/
theorem final_sigma_missed : (single "ΑΣ").literalMatches "Σ" = [1] ∧
    (single "ΑΣ").search "Σ" = [] := by
  decide +kernel

end Display.Graph

end IrView
