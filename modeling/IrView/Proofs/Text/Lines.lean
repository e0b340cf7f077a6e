import Mathlib.Data.List.Basic
import IrView.Text.Basic

/-!
# Reading lines

A text in which each line is ended by a line feed is read line by line. What lines written one
behind the other say is what they say by themselves (`Text.Reads.append`), so a text is read by
reading its parts. A folded text can stand in a line, because folding leaves no line feed
(`Text.lineFeed_notMem_fold`).
-/

namespace IrView

namespace Text

variable {α β : Type} {readLine? : List Char → Option α} {text text' line : List Char}
  {items items' : List α} {item : α}

/-- What the lines of a text say, if each says something and the last one is ended, too. -/
def readLines? (readLine? : List Char → Option α) (text : List Char) : Option (List α) :=
  let pieces := text.splitOn '\n'
  if pieces.getLast? = some [] then pieces.dropLast.mapM readLine? else none

/-- The lines of a text say the items, whatever lines stand behind them. -/
def Reads (readLine? : List Char → Option α) (text : List Char) (items : List α) : Prop :=
  ∀ behind, readLines? readLine? (text ++ behind) =
    (readLines? readLine? behind).map (items ++ ·)

theorem readLines?_line (h : '\n' ∉ line) (hread : readLine? line = some item)
    (behind : List Char) : readLines? readLine? (line ++ '\n' :: behind) =
      (readLines? readLine? behind).map (item :: ·) := by
  obtain ⟨piece, pieces, hpieces⟩ :=
    List.exists_cons_of_ne_nil (List.splitOn_ne_nil '\n' behind)
  simp only [readLines?, List.splitOn_append_cons_self_of_not_mem h, hpieces]
  rw [List.getLast?_cons_cons, List.dropLast_cons_cons, List.mapM_cons, hread]
  split_ifs
  · cases ((piece :: pieces).dropLast.mapM readLine?) <;> rfl
  · rfl

namespace Reads

theorem nil : Reads readLine? [] [] :=
  fun behind => (Option.map_id' : (readLines? readLine? behind).map (fun x => x) = _).symm

theorem append (h : Reads readLine? text items) (h' : Reads readLine? text' items') :
    Reads readLine? (text ++ text') (items ++ items') := by
  intro behind
  rw [List.append_assoc, h, h', Option.map_map]
  exact congrArg (Option.map · _) (funext fun _ => (List.append_assoc _ _ _).symm)

theorem of_line (h : '\n' ∉ line) (hread : readLine? line = some item) :
    Reads readLine? (line ++ ['\n']) [item] := by
  intro behind
  rw [List.append_assoc]
  exact readLines?_line h hread behind

theorem flatMap {write : β → List Char} {say : β → List α} {l : List β}
    (h : ∀ b ∈ l, Reads readLine? (write b) (say b)) :
    Reads readLine? (l.flatMap write) (l.flatMap say) := by
  induction l with
  | nil => exact nil
  | cons b l ih =>
    rw [List.flatMap_cons, List.flatMap_cons]
    exact (h b List.mem_cons_self).append (ih fun b' hb' => h b' (List.mem_cons_of_mem _ hb'))

/-- The whole text says the items. -/
theorem readLines? (h : Reads readLine? text items) :
    Text.readLines? readLine? text = some items := by
  have hwhole := h []
  rw [List.append_nil] at hwhole
  rw [hwhole]
  simp [Text.readLines?]

end Reads

/-! ### Ended lines -/

/-- The text of some lines, each ended by a line feed. -/
def ended (texts : List String) : String :=
  String.join (texts.map fun line => line ++ "\n")

theorem ended_append (texts texts' : List String) :
    ended (texts ++ texts') = ended texts ++ ended texts' := by
  rw [ended, List.map_append, String.join_append]
  rfl

theorem toList_ended (texts : List String) :
    (ended texts).toList = texts.flatMap fun line => line.toList ++ ['\n'] := by
  rw [ended, String.toList_join, List.flatMap_map]
  simp only [String.toList_append]
  rfl

/-- What is cut at its line feeds are the lines that were ended, and nothing behind them. -/
theorem lines_ended {texts : List String} (h : ∀ line ∈ texts, '\n' ∉ line.toList) :
    lines (ended texts) = texts ++ [""] := by
  rw [lines, toList_ended]
  induction texts with
  | nil => rfl
  | cons line texts ih =>
    have hline : '\n' ∉ line.toList := h line List.mem_cons_self
    have ih := ih fun other hother => h other (List.mem_cons_of_mem _ hother)
    rw [List.flatMap_cons, List.append_assoc, List.singleton_append,
      List.splitOn_append_cons_self_of_not_mem hline, List.map_cons, ih, String.ofList_toList]
    rfl

theorem count_ended {texts : List String} (h : ∀ line ∈ texts, '\n' ∉ line.toList) :
    (ended texts).toList.count '\n' = texts.length := by
  rw [toList_ended]
  induction texts with
  | nil => rfl
  | cons line texts ih =>
    have hline : line.toList.count '\n' = 0 := List.count_eq_zero.2 (h line List.mem_cons_self)
    have ih := ih fun other hother => h other (List.mem_cons_of_mem _ hother)
    rw [List.flatMap_cons, List.count_append, List.count_append, hline, ih, List.length_cons]
    simp only [List.count_singleton_self]
    omega

theorem ended_eq_empty_or (texts : List String) :
    ended texts = "" ∨ ∃ front, ended texts = front ++ "\n" := by
  obtain rfl | ⟨front, last, rfl⟩ := texts.eq_nil_or_concat
  · exact Or.inl rfl
  · refine Or.inr ⟨ended front ++ last, ?_⟩
    rw [List.concat_eq_append, ended_append, String.append_assoc]
    simp [ended]

/-! ### Up to a character -/

theorem takeWhile_append_cons {p : α → Bool} {l : List α} (h : ∀ a ∈ l, p a = true) {b : α}
    (hb : p b = false) (rest : List α) : (l ++ b :: rest).takeWhile p = l := by
  rw [List.takeWhile_append_of_pos h, List.takeWhile_cons_of_neg (by simp [hb]), List.append_nil]

theorem dropWhile_append_cons {p : α → Bool} {l : List α} (h : ∀ a ∈ l, p a = true) {b : α}
    (hb : p b = false) (rest : List α) : (l ++ b :: rest).dropWhile p = b :: rest := by
  rw [List.dropWhile_append_of_pos h, List.dropWhile_cons_of_neg (by simp [hb])]

/-! ### Folded texts -/

theorem lineFeed_notMem_of_mem_splitOn {cs piece : List Char} (h : piece ∈ cs.splitOn '\n') :
    '\n' ∉ piece := by
  induction cs generalizing piece with
  | nil =>
    rw [List.splitOn_nil, List.mem_singleton] at h
    simp [h]
  | cons c cs ih =>
    rw [List.splitOn_cons_eq_if_modifyHead] at h
    split_ifs at h with hc
    · obtain rfl | hpiece := List.mem_cons.1 h
      · exact List.not_mem_nil
      · exact ih hpiece
    · obtain ⟨first, pieces, hpieces⟩ :=
        List.exists_cons_of_ne_nil (List.splitOn_ne_nil '\n' cs)
      rw [hpieces, List.modifyHead_cons] at h
      obtain rfl | hpiece := List.mem_cons.1 h
      · have hne : '\n' ≠ c := fun heq => hc (beq_iff_eq.2 heq.symm)
        have hfirst : '\n' ∉ first := ih (hpieces ▸ List.mem_cons_self)
        simp [hne, hfirst]
      · exact ih (hpieces ▸ List.mem_cons_of_mem _ hpiece)

theorem notMem_intercalate {c : Char} {separator : String} {pieces : List String}
    (hseparator : c ∉ separator.toList) (hpieces : ∀ piece ∈ pieces, c ∉ piece.toList) :
    c ∉ (separator.intercalate pieces).toList := by
  induction pieces with
  | nil => simp
  | cons piece pieces ih =>
    have hpiece := hpieces piece List.mem_cons_self
    have ih := ih fun other hother => hpieces other (List.mem_cons_of_mem _ hother)
    cases pieces with
    | nil => simpa using hpiece
    | cons next pieces =>
      rw [String.intercalate_cons_cons, String.toList_append, String.toList_append]
      simp only [List.mem_append, not_or]
      exact ⟨⟨hpiece, hseparator⟩, ih⟩

/-- A folded text keeps to its line. -/
theorem lineFeed_notMem_fold (s : String) : '\n' ∉ (fold s).toList := by
  refine notMem_intercalate (by decide) fun piece hpiece => ?_
  obtain ⟨cs, hcs, rfl⟩ := List.mem_map.1 (List.mem_of_mem_filter hpiece)
  rw [String.toList_ofList]
  exact lineFeed_notMem_of_mem_splitOn hcs

end Text

end IrView
