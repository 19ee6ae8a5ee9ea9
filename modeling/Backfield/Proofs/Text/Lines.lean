import Backfield.Text.Blank
import Backfield.Text.Lines

/-!
# Lines and indentation

Lines that hold no line break are found again after they have been joined by newlines, so that
indenting a text is indenting its lines (`indent_intercalate`), and indented lines tell the lines
that they come from (`indentLine_injective`).
-/

namespace Backfield.Text

/-- No character ends a line. -/
def IsUnbroken (text : List Char) : Prop := ∀ c ∈ text, isLineBreak c = false

theorem isUnbroken_of_all {text : List Char} (h : (text.all fun c => !isLineBreak c) = true) :
    IsUnbroken text := by
  simpa [IsUnbroken] using h

/-- All that ends a line is white space. -/
theorem isLineBreak_of_isBlank {c : Char} (h : isBlank c = false) : isLineBreak c = false := by
  simp only [isBlank, isLineBreak, Bool.or_eq_false_iff, Bool.and_eq_false_iff,
    decide_eq_false_iff_not, beq_eq_false_iff_ne] at h ⊢
  omega

/-- A text without blanks other than spaces is one line. -/
theorem isUnbroken_of_spaces {text : List Char}
    (h : ∀ c ∈ text, isBlank c = true → c = ' ') : IsUnbroken text := by
  intro c hc
  cases hblank : isBlank c with
  | true =>
    rw [h c hc hblank]
    decide
  | false => exact isLineBreak_of_isBlank hblank

/-- What does not end a line is part of it. -/
theorem splitLinesFrom_cons {c : Char} (pending rest : List Char) (hc : isLineBreak c = false) :
    splitLinesFrom pending (c :: rest) = splitLinesFrom (c :: pending) rest := by
  have hreturn : c ≠ '\r' := by
    rintro rfl
    cases hc
  rw [splitLinesFrom.eq_def]
  split
  · cases ‹_›
  · exact absurd (List.cons.inj ‹_›).1 hreturn
  · rename_i heq
    obtain ⟨rfl, rfl⟩ := List.cons.inj heq
    rw [if_neg (by simp [hc])]

theorem splitLinesFrom_append {line : List Char} (pending rest : List Char)
    (hline : IsUnbroken line) :
    splitLinesFrom pending (line ++ rest) = splitLinesFrom (line.reverse ++ pending) rest := by
  induction line generalizing pending with
  | nil => rfl
  | cons c line ih =>
    rw [List.cons_append, splitLinesFrom_cons _ _ (hline c List.mem_cons_self),
      ih _ fun x hx => hline x (List.mem_cons_of_mem _ hx), List.reverse_cons, List.append_assoc]
    rfl

theorem splitLinesFrom_newline {line : List Char} (pending rest : List Char)
    (hline : IsUnbroken line) :
    splitLinesFrom pending (line ++ '\n' :: rest) =
      (pending.reverse ++ line) :: splitLinesFrom [] rest := by
  rw [splitLinesFrom_append _ _ hline]
  simp [splitLinesFrom, isLineBreak]

/-- The characters of lines, each with its newline. -/
theorem toList_intercalate_newline {lines : List String} (hne : lines ≠ []) :
    ("\n".intercalate lines ++ "\n").toList = lines.flatMap fun line => line.toList ++ ['\n'] := by
  induction lines with
  | nil => exact absurd rfl hne
  | cons line rest ih =>
    cases rest with
    | nil => simp
    | cons next rest =>
      have hrest := ih (List.cons_ne_nil _ _)
      rw [String.toList_append] at hrest
      rw [String.intercalate_cons_cons, List.flatMap_cons, ← hrest]
      simp

theorem splitLines_intercalate {lines : List String} (hne : lines ≠ [])
    (hlines : ∀ line ∈ lines, IsUnbroken line.toList) :
    splitLines ("\n".intercalate lines ++ "\n") = lines := by
  have hfrom : splitLinesFrom [] (lines.flatMap fun line => line.toList ++ ['\n']) =
      lines.map String.toList := by
    clear hne
    induction lines with
    | nil => rfl
    | cons line rest ih =>
      rw [List.flatMap_cons, List.append_assoc, List.singleton_append,
        splitLinesFrom_newline [] _ (hlines line List.mem_cons_self),
        ih fun other hother => hlines other (List.mem_cons_of_mem _ hother)]
      rfl
  rw [splitLines, toList_intercalate_newline hne, hfrom, List.map_map]
  simp [Function.comp_def]

/-- Lines that are joined by newlines can be told from each other. -/
theorem intercalate_newline_inj {lines others : List String} (hne : lines ≠ [])
    (hne' : others ≠ []) (hlines : ∀ line ∈ lines, IsUnbroken line.toList)
    (hothers : ∀ line ∈ others, IsUnbroken line.toList)
    (h : "\n".intercalate lines = "\n".intercalate others) : lines = others := by
  rw [← splitLines_intercalate hne hlines, h, splitLines_intercalate hne' hothers]

/-- Whatever broke a text, its lines hold no break. -/
theorem isUnbroken_splitLinesFrom {pending text : List Char} (hpending : IsUnbroken pending) :
    ∀ line ∈ splitLinesFrom pending text, IsUnbroken line := by
  have hreverse : ∀ {line : List Char}, IsUnbroken line → IsUnbroken line.reverse :=
    fun hline c hc => hline c (List.mem_reverse.mp hc)
  fun_induction splitLinesFrom pending text with
  | case1 pending hempty => exact fun line hline => by cases hline
  | case2 pending hne =>
    intro line hline
    rw [List.mem_singleton.mp hline]
    exact hreverse hpending
  | case3 pending rest ih =>
    intro line hline
    rcases List.mem_cons.mp hline with rfl | hline
    · exact hreverse hpending
    · exact ih (fun _ hc => by cases hc) line hline
  | case4 pending c rest hreturn hbreak ih =>
    intro line hline
    rcases List.mem_cons.mp hline with rfl | hline
    · exact hreverse hpending
    · exact ih (fun _ hc => by cases hc) line hline
  | case5 pending c rest hreturn hbreak ih =>
    refine ih fun d hd => ?_
    rcases List.mem_cons.mp hd with rfl | hd
    · simpa using hbreak
    · exact hpending d hd

/-! ## Indented lines -/

theorem isUnbroken_append {front back : List Char} (hfront : IsUnbroken front)
    (hback : IsUnbroken back) : IsUnbroken (front ++ back) := fun c hc =>
  (List.mem_append.mp hc).elim (hfront c) (hback c)

theorem isUnbroken_step {line : String} (hline : IsUnbroken line.toList) :
    IsUnbroken (indentStep ++ line).toList := by
  rw [String.toList_append]
  exact isUnbroken_append (isUnbroken_of_all (by decide)) hline

theorem isUnbroken_indentLine {line : String} (hline : IsUnbroken line.toList) :
    IsUnbroken (indentLine line).toList := by
  rw [indentLine]
  split
  · exact fun _ hc => by cases hc
  · exact isUnbroken_step hline

/-- An indented text consists of lines, whatever the text is. -/
theorem exists_lines_indent (block : String) :
    ∃ lines, lines ≠ [] ∧ (∀ line ∈ lines, IsUnbroken line.toList) ∧
      indent block = "\n".intercalate lines := by
  rw [indent]
  split
  · refine ⟨[indentStep], List.cons_ne_nil _ _, ?_, String.intercalate_singleton.symm⟩
    intro line hline
    rw [List.mem_singleton.mp hline]
    exact isUnbroken_of_all (by decide)
  · rename_i first rest hsplit
    have hlines : ∀ line ∈ first :: rest, IsUnbroken line.toList := by
      intro line hline
      rw [← hsplit] at hline
      obtain ⟨chars, hchars, rfl⟩ := List.mem_map.mp hline
      rw [String.toList_ofList]
      exact isUnbroken_splitLinesFrom (fun _ hc => by cases hc) chars hchars
    refine ⟨_, List.cons_ne_nil _ _, fun line hline => ?_, rfl⟩
    rcases List.mem_cons.mp hline with rfl | hline
    · exact isUnbroken_step (hlines first List.mem_cons_self)
    · obtain ⟨other, hother, rfl⟩ := List.mem_map.mp hline
      exact isUnbroken_indentLine (hlines other (List.mem_cons_of_mem _ hother))

theorem drop_indentLine (line : String) : (indentLine line).toList.drop 4 = line.toList := by
  rw [indentLine]
  split
  · rename_i hempty
    rw [String.isEmpty_iff.mp hempty]
    rfl
  · rw [String.toList_append]
    rfl

theorem indentLine_injective : Function.Injective indentLine := by
  intro line other h
  rw [← String.toList_inj, ← drop_indentLine line, h, drop_indentLine other]

theorem indentLine_of_ne {line : String} (hne : line ≠ "") :
    indentLine line = indentStep ++ line := by
  have hnot : ¬line.isEmpty = true := by simpa using hne
  rw [indentLine, if_neg hnot]

/-- A block is indented line by line. -/
theorem indent_intercalate {lines : List String} (hfirst : ∀ line ∈ lines.head?, line ≠ "")
    (hne : lines ≠ []) (hlines : ∀ line ∈ lines, IsUnbroken line.toList) :
    indent ("\n".intercalate lines) = "\n".intercalate (lines.map indentLine) := by
  cases lines with
  | nil => exact absurd rfl hne
  | cons first rest =>
    rw [indent, splitLines_intercalate hne hlines, List.map_cons,
      indentLine_of_ne (hfirst first rfl)]

end Backfield.Text
