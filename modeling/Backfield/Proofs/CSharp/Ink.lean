import Mathlib.Data.List.Forall2
import Backfield.Proofs.CSharp.Cutting
import Backfield.Proofs.Text.Lines

/-!
# Reading what is written

What tokens a text gives that is put together from words and symbols.  An `Ink` is such a piece;
`Reads` says which inks the tokens of a text show, whatever line the text begins on, and `IsLine`
says it of a line whatever stands on the lines around it.

* `Tail` is the rest of a line after a piece, so that a line is read from its end to its front:
  `Tail.tight` and `Tail.spaced` add a piece, `Tail.line` the first one.
* `IsLine.indent` moves a line to the right.
* `Written.reads` is the result for lines one under the other.
-/

namespace Backfield.CSharp

open Text (isBlank isLineBreak IsUnbroken)
open Lexeme (Cuts IsWord EndsName EndsSymbol isNameChar isGap loneSymbols joiningSymbols IsPlainKind)

/-- A word or a symbol as it is written, with the gap before it if that matters. -/
structure Ink where
  kind : LexemeKind
  text : String
  gap : Option String
  deriving DecidableEq, Repr

namespace Ink

/-- A word at the beginning of a line. -/
def word (text : String) : Ink := ⟨.word, text, none⟩

/-- A symbol at the beginning of a line. -/
def symbol (text : String) : Ink := ⟨.symbol, text, none⟩

/-- The same after a gap. -/
def after (ink : Ink) (gap : String) : Ink := { ink with gap := some gap }

end Ink

/-- The token is what the ink says. -/
structure Token.Shows (t : Token) (ink : Ink) : Prop where
  kind : t.kind = ink.kind
  text : t.text = ink.text
  gap : ∀ gap ∈ ink.gap, t.gap = gap

/-! ## The text of inks -/

/-- The ink is visible, and at most one space stands before it. -/
structure Ink.IsNeat (ink : Ink) : Prop where
  gap : ink.gap = some "" ∨ ink.gap = some " "
  ne_empty : ink.text ≠ ""
  visible : ∀ c ∈ ink.text.toList, isBlank c = false

/-- A fixed text is visible if a look at it says so. -/
theorem visible_of_all {text : String} (h : (text.toList.all fun c => !isBlank c) = true) :
    ∀ c ∈ text.toList, isBlank c = false := by
  simpa using h

/-- What is written from the first of some inks to the last. -/
def Ink.written : List Ink → String
  | [] => ""
  | first :: rest => first.text ++ String.join (rest.map fun ink => ink.gap.getD "" ++ ink.text)

/-- The slice of tokens that show inks is what the inks say. -/
theorem slice_eq_written {tokens : List Token} {inks : List Ink}
    (h : List.Forall₂ Token.Shows tokens inks) (hneat : ∀ ink ∈ inks.tail, ink.IsNeat) :
    Token.slice tokens = Ink.written inks := by
  have hrest : ∀ {tokens : List Token} {inks : List Ink}, List.Forall₂ Token.Shows tokens inks →
      (∀ ink ∈ inks, ink.IsNeat) → tokens.map (fun t => t.gap ++ t.text) =
        inks.map fun ink => ink.gap.getD "" ++ ink.text := by
    intro tokens inks h
    induction h with
    | nil => exact fun _ => rfl
    | @cons t ink tokens inks ht _ ih =>
      intro hneat
      have hgap : t.gap = ink.gap.getD "" := by
        rcases (hneat ink List.mem_cons_self).gap with hgap | hgap
        · rw [ht.gap "" hgap, hgap, Option.getD_some]
        · rw [ht.gap " " hgap, hgap, Option.getD_some]
      rw [List.map_cons, List.map_cons, hgap, ht.text,
        ih fun other hother => hneat other (List.mem_cons_of_mem _ hother)]
  cases h with
  | nil => rfl
  | cons ht h => rw [Token.slice, Ink.written, hrest h hneat, ht.text]

/-- The token of an ink on a line of no number. -/
def Ink.token (ink : Ink) : Token := ⟨ink.kind, ink.text, ink.gap.getD "", 0, 0⟩

/-- Neat inks have no white space to collapse. -/
theorem collapse_written {first : Ink} {rest : List Ink} (hfirst : first.token.HasInk)
    (hneat : ∀ ink ∈ rest, ink.IsNeat) :
    Text.collapse (Ink.written (first :: rest)) = Ink.written (first :: rest) := by
  have hslice : ∀ inks : List Ink, Token.slice (inks.map Ink.token) = Ink.written inks := by
    intro inks
    cases inks with
    | nil => rfl
    | cons ink inks => simp [Token.slice, Ink.written, Ink.token, Function.comp_def]
  have htidy : ∀ ink ∈ rest, ink.token.tidy = ink.token := by
    intro ink hink
    rcases (hneat ink hink).gap with hgap | hgap
    · simp [Token.tidy, Ink.token, hgap]
    · simp [Token.tidy, Ink.token, hgap]
  have hink : ∀ t ∈ (first :: rest).map Ink.token, t.HasInk := by
    intro t ht
    obtain ⟨ink, hmem, rfl⟩ := List.mem_map.mp ht
    rcases List.mem_cons.mp hmem with rfl | hmem
    · exact hfirst
    · exact ⟨(hneat ink hmem).ne_empty, (hneat ink hmem).visible⟩
  have htokens : Token.slice (((first :: rest).map Ink.token).map Token.tidy) =
      Token.slice ((first :: rest).map Ink.token) := by
    rw [List.map_cons, List.map_cons, List.map_map, List.map_congr_left (f := Token.tidy ∘ Ink.token)
      (g := Ink.token) htidy]
    rfl
  have hgaps : ∀ t ∈ ((first :: rest).map Ink.token).tail, ∀ c ∈ t.gap.toList, isBlank c = true := by
    intro t ht c hc
    obtain ⟨ink, hmem, rfl⟩ := List.mem_map.mp ht
    rcases (hneat ink hmem).gap with hgap | hgap
    · simp [Ink.token, hgap] at hc
    · obtain rfl : c = ' ' := by simpa [Ink.token, hgap] using hc
      decide
  rw [← hslice, Token.collapse_slice _ hink hgaps, htokens]

/-! ## Texts -/

/-- The tokens of a text after a gap show the inks. -/
def Reads (gap text : List Char) (inks : List Ink) : Prop :=
  ∀ place : Token.Place, place.gap = gap →
    List.Forall₂ Token.Shows (Token.ofLexemes place (Lexeme.ofText text)).tokens inks

theorem Reads.nil (gap : List Char) : Reads gap [] [] := fun _ _ => List.Forall₂.nil

theorem Reads.ink {gap rest : List Char} (ink : Ink) {inks : List Ink}
    (hkind : IsPlainKind ink.kind) (hcuts : Cuts ink.kind ink.text.toList rest)
    (hgap : ∀ s ∈ ink.gap, s.toList = gap) (hrest : Reads [] rest inks) :
    Reads gap (ink.text.toList ++ rest) (ink :: inks) := by
  intro place hplace
  have htoken : ¬Token.isTrivia ⟨ink.kind, ink.text.toList⟩ = true := by
    rcases hkind with h | h
    · simp [Token.isTrivia, h]
    · simp [Token.isTrivia, h]
  rw [Lexeme.ofText_of_cuts hcuts, Token.ofLexemes, if_neg htoken]
  refine List.Forall₂.cons ⟨rfl, String.ofList_toList, fun s hs => ?_⟩ (hrest _ rfl)
  simp [Token.ofLexeme, hplace, ← hgap s hs]

theorem ofLexemes_blank (place : Token.Place) (text : List Char) (rest : List Lexeme) :
    Token.ofLexemes place (⟨.blank, text⟩ :: rest) =
      Token.ofLexemes (place.pass ⟨.blank, text⟩) rest := rfl

theorem ofLexemes_comment (place : Token.Place) (text : List Char) (rest : List Lexeme) :
    Token.ofLexemes place (⟨.comment, text⟩ :: rest) =
      Token.ofLexemes (place.pass ⟨.comment, text⟩) rest := rfl

/-- A run of white space may be passed over character by character. -/
theorem Reads.gap {gap rest : List Char} {c : Char} {inks : List Ink} (hc : isGap c = true)
    (h : Reads (gap ++ [c]) rest inks) : Reads gap (c :: rest) inks := by
  intro place hplace
  rw [Lexeme.ofText_of_isGap rest hc, ofLexemes_blank]
  have hrest := h (place.pass ⟨.blank, [c]⟩) (by rw [Token.Place.pass, hplace])
  cases rest with
  | nil => exact hrest
  | cons d more =>
    by_cases hd : isGap d = true
    · rw [Lexeme.ofText_of_isGap more hd, ofLexemes_blank] at hrest
      have hplaces : (place.pass ⟨.blank, [c]⟩).pass ⟨.blank, d :: more.takeWhile isGap⟩ =
          place.pass ⟨.blank, c :: (d :: more).takeWhile isGap⟩ := by
        rw [List.takeWhile_cons_of_pos hd]
        simp [Token.Place.pass, List.count_cons]
        omega
      rwa [hplaces, ← List.dropWhile_cons_of_pos hd] at hrest
    · rwa [List.takeWhile_cons_of_neg hd, List.dropWhile_cons_of_neg hd]

theorem isLineEnd_eq_false {c : Char} (h : isLineBreak c = false) :
    Literal.isLineEnd c = false := by
  cases hend : Literal.isLineEnd c with
  | false => rfl
  | true =>
    simp only [Literal.isLineEnd, Bool.or_eq_true, beq_iff_eq] at hend
    rcases hend with rfl | rfl <;> cases h

theorem Reads.comment {gap line rest : List Char} {inks : List Ink} (hline : IsUnbroken line)
    (h : Reads (gap ++ '/' :: '/' :: line) ('\n' :: rest) inks) :
    Reads gap ('/' :: '/' :: line ++ '\n' :: rest) inks := by
  intro place hplace
  have hcuts := Lexeme.cuts_comment rest fun c hc => isLineEnd_eq_false (hline c hc)
  rw [Lexeme.ofText_of_cuts hcuts, ofLexemes_comment]
  exact h _ (by rw [Token.Place.pass, hplace])

/-! ## Pieces of a line -/

/-- The piece is a word or a symbol and ends where the text after it begins.  The end of the line
ends any of them. -/
inductive Stands : LexemeKind → (piece after : List Char) → Prop
  | word {piece after : List Char} : IsWord piece → EndsName after → Stands .word piece after
  | lone {c : Char} {after : List Char} : c ∈ loneSymbols → Stands .symbol [c] after
  | joining {c : Char} {after : List Char} :
    c ∈ joiningSymbols → EndsSymbol after → Stands .symbol [c] after
  | arrow {after : List Char} : Stands .symbol ['=', '>'] after

theorem endsName_append {after rest : List Char} (h : EndsName after) :
    EndsName (after ++ '\n' :: rest) := by
  cases after with
  | nil => exact Lexeme.endsName_cons rest (by decide)
  | cons c after => exact h

theorem endsSymbol_append {after rest : List Char} (h : EndsSymbol after) :
    EndsSymbol (after ++ '\n' :: rest) := by
  cases after with
  | nil => exact Lexeme.endsSymbol_cons rest (by decide)
  | cons c after => exact h

theorem Stands.cuts {kind : LexemeKind} {piece after : List Char} (h : Stands kind piece after)
    (rest : List Char) : Cuts kind piece (after ++ '\n' :: rest) := by
  cases h with
  | word hword hafter => exact Lexeme.cuts_word hword (endsName_append hafter)
  | lone hc => exact Lexeme.cuts_lone _ hc
  | joining hc hafter => exact Lexeme.cuts_joining hc (endsSymbol_append hafter)
  | arrow => exact Lexeme.cuts_arrow _

theorem Stands.isPlainKind {kind : LexemeKind} {piece after : List Char}
    (h : Stands kind piece after) : IsPlainKind kind := by
  cases h with
  | word => exact Or.inl rfl
  | lone => exact Or.inr rfl
  | joining => exact Or.inr rfl
  | arrow => exact Or.inr rfl

theorem Stands.isUnbroken {kind : LexemeKind} {piece after : List Char}
    (h : Stands kind piece after) : IsUnbroken piece := by
  intro c hc
  cases h with
  | word hword hafter =>
    exact Text.isLineBreak_of_isBlank (Text.isBlank_of_isNameChar (hword.isNameChar c hc))
  | lone hd =>
    have hall : (loneSymbols.all fun d => !isLineBreak d) = true := by decide
    simpa [List.mem_singleton.mp hc] using List.all_eq_true.mp hall _ hd
  | joining hd hafter =>
    have hall : (joiningSymbols.all fun d => !isLineBreak d) = true := by decide
    simpa [List.mem_singleton.mp hc] using List.all_eq_true.mp hall _ hd
  | arrow =>
    have hall : (['=', '>'].all fun d => !isLineBreak d) = true := by decide
    simpa using List.all_eq_true.mp hall c hc

/-! ## Lines -/

/-- A line shows the inks, whatever comes before it and after it. -/
structure IsLine (line : String) (inks : List Ink) : Prop where
  isUnbroken : IsUnbroken line.toList
  reads : ∀ rest more, (∀ gap, Reads gap rest more) →
    ∀ gap, Reads gap (line.toList ++ '\n' :: rest) (inks ++ more)

/-- A text from the end of a piece to the end of its line shows the inks. -/
structure Tail (text : List Char) (inks : List Ink) : Prop where
  isUnbroken : IsUnbroken text
  reads : ∀ rest more, (∀ gap, Reads gap rest more) →
    Reads [] (text ++ '\n' :: rest) (inks ++ more)

theorem Reads.newline {rest : List Char} {inks : List Ink} (h : ∀ gap, Reads gap rest inks)
    (gap : List Char) : Reads gap ('\n' :: rest) inks := Reads.gap (by decide) (h _)

theorem Tail.nil : Tail [] [] where
  isUnbroken := fun _ hc => absurd hc List.not_mem_nil
  reads := fun _ _ hrest => Reads.newline hrest []

/-- The first piece of a line. -/
theorem Tail.line (ink : Ink) {text : List Char} {inks : List Ink} {line : String}
    (hline : line.toList = ink.text.toList ++ text) (hgap : ink.gap = none)
    (hink : Stands ink.kind ink.text.toList text) (h : Tail text inks) :
    IsLine line (ink :: inks) where
  isUnbroken := by
    rw [hline]
    exact fun c hc => (List.mem_append.mp hc).elim (hink.isUnbroken c) (h.isUnbroken c)
  reads := by
    intro rest more hrest gap
    rw [hline, List.append_assoc]
    exact Reads.ink ink hink.isPlainKind (hink.cuts rest) (by simp [hgap]) (h.reads rest more hrest)

/-- A piece right after another one. -/
theorem Tail.tight (ink : Ink) {text : List Char} {inks : List Ink}
    (hink : Stands ink.kind ink.text.toList text) (h : Tail text inks) :
    Tail (ink.text.toList ++ text) (ink.after "" :: inks) where
  isUnbroken := fun c hc => (List.mem_append.mp hc).elim (hink.isUnbroken c) (h.isUnbroken c)
  reads := by
    intro rest more hrest
    rw [List.append_assoc]
    exact Reads.ink (ink.after "") hink.isPlainKind (hink.cuts rest) (by simp [Ink.after])
      (h.reads rest more hrest)

/-- A piece after a space. -/
theorem Tail.spaced (ink : Ink) {text : List Char} {inks : List Ink}
    (hink : Stands ink.kind ink.text.toList text) (h : Tail text inks) :
    Tail (' ' :: (ink.text.toList ++ text)) (ink.after " " :: inks) where
  isUnbroken := by
    intro c hc
    rcases List.mem_cons.mp hc with rfl | hc
    · decide
    · exact (List.mem_append.mp hc).elim (hink.isUnbroken c) (h.isUnbroken c)
  reads := by
    intro rest more hrest
    rw [List.cons_append, List.append_assoc]
    exact Reads.gap (by decide) (Reads.ink (ink.after " ") hink.isPlainKind (hink.cuts rest)
      (by simp [Ink.after]) (h.reads rest more hrest))

theorem IsLine.empty : IsLine "" [] where
  isUnbroken := fun _ hc => absurd hc (by simp)
  reads := fun _ _ hrest gap => Reads.newline hrest gap

theorem IsLine.comment {line : String} {text : List Char} (hline : line.toList = '/' :: '/' :: text)
    (htext : IsUnbroken text) : IsLine line [] where
  isUnbroken := by
    rw [hline]
    intro c hc
    rcases List.mem_cons.mp hc with rfl | hc
    · decide
    · rcases List.mem_cons.mp hc with rfl | hc
      · decide
      · exact htext c hc
  reads := by
    intro rest more hrest gap
    rw [hline]
    exact Reads.comment htext (Reads.newline hrest _)

theorem IsLine.step {line : String} {inks : List Ink} (h : IsLine line inks) :
    IsLine (Text.indentStep ++ line) inks := by
  have hstep : (Text.indentStep ++ line).toList = ' ' :: ' ' :: ' ' :: ' ' :: line.toList := by
    simp [Text.indentStep]
  refine ⟨?_, ?_⟩
  · rw [hstep]
    intro c hc
    simp only [List.mem_cons] at hc
    rcases hc with rfl | rfl | rfl | rfl | hc
    · decide
    · decide
    · decide
    · decide
    · exact h.isUnbroken c hc
  · intro rest more hrest gap
    have hline := h.reads rest more hrest
    rw [hstep]
    exact Reads.gap (by decide) (Reads.gap (by decide) (Reads.gap (by decide)
      (Reads.gap (by decide) (hline _))))

theorem IsLine.indent {line : String} {inks : List Ink} (h : IsLine line inks) :
    IsLine (Text.indentLine line) inks := by
  unfold Text.indentLine
  split
  · rename_i hempty
    obtain rfl : line = "" := by simpa using hempty
    exact h
  · exact h.step

/-! ## Lines one under the other -/

/-- The lines show the inks. -/
def Written (lines : List String) (inks : List Ink) : Prop :=
  ∃ parts, List.Forall₂ IsLine lines parts ∧ parts.flatten = inks

theorem Written.nil : Written [] [] := ⟨[], List.Forall₂.nil, rfl⟩

theorem Written.cons {line : String} {lines : List String} {inks more : List Ink}
    (hline : IsLine line inks) (h : Written lines more) :
    Written (line :: lines) (inks ++ more) := by
  obtain ⟨parts, hparts, rfl⟩ := h
  exact ⟨inks :: parts, List.Forall₂.cons hline hparts, rfl⟩

theorem Written.append {lines others : List String} {inks more : List Ink}
    (h : Written lines inks) (hothers : Written others more) :
    Written (lines ++ others) (inks ++ more) := by
  obtain ⟨parts, hparts, rfl⟩ := h
  obtain ⟨rest, hrest, rfl⟩ := hothers
  exact ⟨parts ++ rest, List.rel_append hparts hrest, List.flatten_append⟩

theorem Written.indent {lines : List String} {inks : List Ink} (h : Written lines inks) :
    Written (lines.map Text.indentLine) inks := by
  obtain ⟨parts, hparts, rfl⟩ := h
  exact ⟨parts, List.forall₂_map_left_iff.mpr (hparts.imp fun _ _ hline => hline.indent), rfl⟩

theorem Written.isUnbroken {lines : List String} {inks : List Ink} (h : Written lines inks) :
    ∀ line ∈ lines, IsUnbroken line.toList := by
  obtain ⟨parts, hparts, -⟩ := h
  induction hparts with
  | nil => exact fun line hline => absurd hline List.not_mem_nil
  | cons hline _ ih =>
    intro line hmem
    rcases List.mem_cons.mp hmem with rfl | hmem
    · exact hline.isUnbroken
    · exact ih line hmem

theorem Written.reads {lines : List String} {inks : List Ink} (h : Written lines inks)
    (gap : List Char) : Reads gap (lines.flatMap fun line => line.toList ++ ['\n']) inks := by
  obtain ⟨parts, hparts, rfl⟩ := h
  induction hparts generalizing gap with
  | nil => exact Reads.nil gap
  | cons hline _ ih =>
    rw [List.flatMap_cons, List.flatten_cons, List.append_assoc]
    exact hline.reads _ _ ih gap

end Backfield.CSharp
