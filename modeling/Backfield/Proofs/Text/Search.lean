import Backfield.Proofs.Text.Lines
import Backfield.Text.Search

/-!
# Words that occur in a text

A word without line breaks stands in one line of the text that it occurs in, and still occurs
there when the text is indented.

* `occurs_iff` says what it is to occur.
* `exists_line_of_infix` finds the line, `infix_indent` is the result.
-/

namespace Backfield.Text

theorem occurs_iff (word text : List Char) : occurs word text = true ↔ word <:+: text := by
  induction text with
  | nil => rw [occurs, List.isEmpty_iff, List.infix_nil]
  | cons c rest ih =>
    rw [occurs, Bool.or_eq_true, List.isPrefixOf_iff_prefix, ih, List.infix_cons_iff]

theorem contains_iff (text word : String) :
    contains text word = true ↔ word.toList <:+: text.toList := occurs_iff _ _

/-- What has been read of a line stays in front of it. -/
theorem exists_line_of_pending {pending : List Char} (rest : List Char) (hne : pending ≠ []) :
    ∃ line ∈ splitLinesFrom pending rest, pending.reverse <+: line := by
  have hempty : ¬pending.isEmpty = true := by simpa using hne
  fun_induction splitLinesFrom pending rest with
  | case1 pending h => exact absurd h hempty
  | case2 pending h => exact ⟨_, List.mem_cons_self, List.prefix_refl _⟩
  | case3 pending rest => exact ⟨_, List.mem_cons_self, List.prefix_refl _⟩
  | case4 pending c rest => exact ⟨_, List.mem_cons_self, List.prefix_refl _⟩
  | case5 pending c rest _ _ ih =>
    obtain ⟨line, hline, hprefix⟩ := ih (List.cons_ne_nil _ _) (by simp)
    refine ⟨line, hline, List.IsPrefix.trans ?_ hprefix⟩
    rw [List.reverse_cons]
    exact List.prefix_append _ _

/-- A word without line breaks stands in the line that is being read. -/
theorem exists_line_of_append {word : List Char} (pending back : List Char) (hne : word ≠ [])
    (hword : IsUnbroken word) :
    ∃ line ∈ splitLinesFrom pending (word ++ back), word <:+: line := by
  have hread : word.reverse ++ pending ≠ [] := by simp [hne]
  obtain ⟨line, hline, hprefix⟩ := exists_line_of_pending back hread
  rw [splitLinesFrom_append _ _ hword]
  refine ⟨line, hline, List.IsInfix.trans ?_ hprefix.isInfix⟩
  rw [List.reverse_append, List.reverse_reverse]
  exact (List.suffix_append _ _).isInfix

/-- What ends a line is not the first character of the word, so it stands before the word. -/
theorem exists_front_of_isLineBreak {word front back rest : List Char} {c : Char} (hne : word ≠ [])
    (hword : IsUnbroken word) (hc : isLineBreak c = true)
    (h : c :: rest = front ++ (word ++ back)) :
    ∃ front', front = c :: front' ∧ rest = front' ++ (word ++ back) := by
  cases front with
  | nil =>
    obtain ⟨d, more, rfl⟩ := List.exists_cons_of_ne_nil hne
    obtain ⟨rfl, -⟩ := List.cons.inj h
    rw [hword c List.mem_cons_self] at hc
    cases hc
  | cons d front =>
    obtain ⟨rfl, rfl⟩ := List.cons.inj h
    exact ⟨front, rfl, rfl⟩

/-- A word without line breaks stands in one line. -/
theorem exists_line_of_infix {word front back text : List Char} (pending : List Char)
    (hne : word ≠ []) (hword : IsUnbroken word) (htext : text = front ++ (word ++ back)) :
    ∃ line ∈ splitLinesFrom pending text, word <:+: line := by
  fun_induction splitLinesFrom pending text generalizing front with
  | case1 => simp [hne] at htext
  | case2 => simp [hne] at htext
  | case3 pending rest ih =>
    obtain ⟨more, rfl, hmore⟩ := exists_front_of_isLineBreak hne hword (by decide) htext
    obtain ⟨front, rfl, hrest⟩ := exists_front_of_isLineBreak hne hword (by decide) hmore
    obtain ⟨line, hline, hinfix⟩ := ih hrest
    exact ⟨line, List.mem_cons_of_mem _ hline, hinfix⟩
  | case4 pending c rest _ hc ih =>
    obtain ⟨front, rfl, hrest⟩ := exists_front_of_isLineBreak hne hword hc htext
    obtain ⟨line, hline, hinfix⟩ := ih hrest
    exact ⟨line, List.mem_cons_of_mem _ hline, hinfix⟩
  | case5 pending c rest _ hc ih =>
    cases front with
    | nil =>
      rw [← splitLinesFrom_cons _ _ (Bool.eq_false_iff.mpr hc), htext]
      exact exists_line_of_append pending back hne hword
    | cons d front => exact ih (List.cons.inj htext).2

theorem infix_indentLine {word : List Char} {line : String} (hne : word ≠ [])
    (h : word <:+: line.toList) : word <:+: (indentLine line).toList := by
  have hline : line ≠ "" := by
    rintro rfl
    exact hne (List.infix_nil.mp h)
  rw [indentLine_of_ne hline, String.toList_append]
  exact h.trans (List.suffix_append _ _).isInfix

theorem infix_intercalate {word : List Char} {parts : List String} {part : String}
    (separator : String) (hpart : part ∈ parts) (h : word <:+: part.toList) :
    word <:+: (separator.intercalate parts).toList := by
  induction parts with
  | nil => cases hpart
  | cons first rest ih =>
    rcases List.mem_cons.mp hpart with rfl | hpart
    · cases rest with
      | nil => rwa [String.intercalate_singleton]
      | cons other rest =>
        rw [String.intercalate_cons_cons, String.toList_append, String.toList_append]
        exact h.trans ((List.prefix_append _ _).trans (List.prefix_append _ _)).isInfix
    · rw [String.intercalate_cons_of_ne_nil (List.ne_nil_of_mem hpart), String.toList_append]
      exact (ih hpart).trans (List.suffix_append _ _).isInfix

/-- A word without line breaks that occurs in a block occurs in it when it is indented. -/
theorem infix_indent {word : List Char} {block : String} (hne : word ≠ [])
    (hword : IsUnbroken word) (h : word <:+: block.toList) :
    word <:+: (indent block).toList := by
  obtain ⟨front, back, hblock⟩ := h
  have hsplit : ∃ line ∈ splitLines (block ++ "\n"), word <:+: line.toList := by
    have htext : (block ++ "\n").toList = front ++ (word ++ (back ++ ['\n'])) := by
      simp [← hblock]
    obtain ⟨line, hline, hinfix⟩ := exists_line_of_infix [] hne hword htext
    exact ⟨_, List.mem_map_of_mem hline, by rwa [String.toList_ofList]⟩
  obtain ⟨line, hline, hinfix⟩ := hsplit
  rw [indent]
  split
  · rename_i hnone
    rw [hnone] at hline
    cases hline
  · rename_i first rest hlines
    rw [hlines] at hline
    rcases List.mem_cons.mp hline with rfl | hline
    · refine infix_intercalate _ List.mem_cons_self ?_
      rw [String.toList_append]
      exact hinfix.trans (List.suffix_append _ _).isInfix
    · exact infix_intercalate _ (List.mem_cons_of_mem _ (List.mem_map_of_mem hline))
        (infix_indentLine hne hinfix)

end Backfield.Text
