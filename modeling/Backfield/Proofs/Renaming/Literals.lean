import Backfield.Proofs.Renaming.Trees
import Backfield.Proofs.CSharp.Flattening
import Backfield.Proofs.Text.Renaming

/-!
# Literals and renaming

Where a literal or a comment ends does not depend on the names at the ends of lines: a scanner
passes over their characters, so that it stops at the same place of what the texts have in common.

* `IsCapitalWord` are the names that are exchanged for each other.
* `PassesInert` says that a scanner passes over characters without a meaning, and
  `PassesInert.endsAlike` that it is then enough to look at the others.
* `endsAlike_afterString` and the lemmas after it are the results for each scanner, and
  `rel_afterPlain?` puts them together.
-/

namespace Backfield.CSharp

open Text (isIdentifierStart isIdentifierContinue)

/-! ## Words -/

/-- A word that is written with the characters of names only, without escapes or an at sign. -/
def IsPlainWord (word : List Char) : Prop :=
  word.head?.any isIdentifierStart = true ∧ word.all isIdentifierContinue = true

instance : DecidablePred IsPlainWord := fun word =>
  inferInstanceAs (Decidable (word.head?.any isIdentifierStart = true ∧
    word.all isIdentifierContinue = true))

theorem nameLength_eq_length_iff {text : List Char} (h : '\\' ∉ text) :
    Lexeme.nameLength 0 text = text.length ↔ ∀ c ∈ text, isIdentifierContinue c = true := by
  induction text with
  | nil => simp [Lexeme.nameLength]
  | cons c text ih =>
    obtain ⟨hc, htext⟩ := not_or.mp (List.mem_cons.not.mp h)
    by_cases hcontinues : isIdentifierContinue c = true
    · rw [Lexeme.nameLength, if_pos hcontinues, List.length_cons, Nat.succ_inj, ih htext,
        List.forall_mem_cons]
      exact (and_iff_right hcontinues).symm
    · rw [Lexeme.nameLength, if_neg hcontinues, Lexeme.escapeLength_eq_zero _ (Ne.symm hc)]
      exact iff_of_false (Nat.zero_ne_add_one _) fun hall => hcontinues (hall c List.mem_cons_self)

theorem isWhole_iff_isPlainWord {word : List Char} (h : '\\' ∉ word) :
    Lexeme.IsWhole word ↔ IsPlainWord word := by
  cases word with
  | nil => exact iff_of_false (fun hwhole => hwhole.1 rfl) fun hplain => absurd hplain.1 (by decide)
  | cons c rest =>
    obtain ⟨hc, hrest⟩ := not_or.mp (List.mem_cons.not.mp h)
    by_cases hstart : isIdentifierStart c = true
    · have hwhole : Lexeme.IsWhole (c :: rest) ↔ Lexeme.nameLength 0 rest = rest.length := by
        simp [Lexeme.IsWhole, Lexeme.wordLength, hstart]
      have hplain : IsPlainWord (c :: rest) ↔ ∀ d ∈ rest, isIdentifierContinue d = true := by
        simp [IsPlainWord, hstart, Lexeme.isIdentifierContinue_of_start hstart]
      rw [hwhole, hplain, nameLength_eq_length_iff hrest]
    · refine iff_of_false (fun hwhole => ?_) fun hplain => hstart hplain.1
      have hlength := hwhole.2
      rw [Lexeme.wordLength, if_neg hstart, Lexeme.escapeLength_eq_zero _ (Ne.symm hc)] at hlength
      cases hlength

/-- A plain word that has no meaning of its own, since it does not begin with a small letter. -/
def IsCapitalWord (word : List Char) : Prop :=
  IsPlainWord word ∧ Keyword.isSmall (String.ofList word) = false

instance : DecidablePred IsCapitalWord := fun word =>
  inferInstanceAs (Decidable (IsPlainWord word ∧ Keyword.isSmall (String.ofList word) = false))

/-- The second text is the first one with other capital words at the ends of some lines. -/
abbrev Renames (text other : List Char) : Prop := Text.Renames IsCapitalWord text other

theorem IsCapitalWord.ne_nil {word : List Char} (h : IsCapitalWord word) : word ≠ [] := by
  rintro rfl
  exact absurd h.1.1 (by decide)

namespace Literal

/-! ## What a scanner passes over -/

/-- Characters that may end a literal or a comment, or open another one within it. -/
def signs : List Char :=
  ['"', '\'', '\\', '\n', '\r', '*', '/', '@', '$', ':', '(', ')', '[', ']', '\x7b', '\x7d']

/-- The character means nothing within a literal. -/
def isInert (c : Char) : Bool := !signs.contains c

theorem isInert_of_continue {c : Char} (h : isIdentifierContinue c = true) : isInert c = true := by
  have hall : (signs.all fun d => !isIdentifierContinue d) = true := by decide
  cases hc : signs.contains c with
  | false => rw [isInert, hc]; rfl
  | true =>
    have hno := List.all_eq_true.mp hall c (List.contains_iff_mem.mp hc)
    rw [h] at hno
    cases hno

theorem ne_of_isInert {c d : Char} (h : isInert c = true) (hd : d ∈ signs) : c ≠ d := by
  rintro rfl
  rw [isInert, List.contains_iff_mem.mpr hd] at h
  cases h

theorem isInert_of_mem_name {name : List Char} (h : IsCapitalWord name) :
    ∀ c ∈ ' ' :: name, isInert c = true := by
  intro c hc
  rcases List.mem_cons.mp hc with rfl | hc
  · decide
  · exact isInert_of_continue (List.all_eq_true.mp h.1.2 c hc)

/-- The scanner passes over all characters without a meaning. -/
def PassesInert {α : Type} (scan : List Char → α) : Prop :=
  ∀ c rest, isInert c = true → scan (c :: rest) = scan rest

theorem PassesInert.append {α : Type} {scan : List Char → α} (h : PassesInert scan)
    {word : List Char} (rest : List Char) (hword : ∀ c ∈ word, isInert c = true) :
    scan (word ++ rest) = scan rest := by
  induction word with
  | nil => rfl
  | cons c word ih =>
    rw [List.cons_append, h _ _ (hword c List.mem_cons_self),
      ih fun d hd => hword d (List.mem_cons_of_mem _ hd)]

theorem PassesInert.name {α : Type} {scan : List Char → α} (h : PassesInert scan)
    {name : List Char} (rest : List Char) (hname : IsCapitalWord name) :
    scan (name ++ rest) = scan rest :=
  h.append rest fun c hc => isInert_of_mem_name hname c (List.mem_cons_of_mem _ hc)

theorem PassesInert.blankName {α : Type} {scan : List Char → α} (h : PassesInert scan)
    {name : List Char} (rest : List Char) (hname : IsCapitalWord name) :
    scan (' ' :: (name ++ rest)) = scan rest := h.append rest (isInert_of_mem_name hname)

/-! ## Scanners -/

/-- Both scanners find no end, or they end in texts that differ in names only. -/
abbrev EndsAlike (found other : Option (List Char)) : Prop := Option.Rel Renames found other

variable {text other : List Char}

/-- It is enough to look at the signs. -/
theorem PassesInert.endsAlike {scan : List Char → Option (List Char)} (hscan : PassesInert scan)
    (hnil : scan [] = none)
    (hsign : ∀ {c : Char} {text other : List Char}, isInert c = false → Renames text other →
      (∀ {rest more : List Char}, rest.length ≤ text.length → Renames rest more →
        EndsAlike (scan rest) (scan more)) → EndsAlike (scan (c :: text)) (scan (c :: other)))
    (h : Renames text other) : EndsAlike (scan text) (scan other) := by
  induction hlength : text.length using Nat.strong_induction_on generalizing text other with
  | _ n ih =>
    subst hlength
    cases h with
    | nil =>
      rw [hnil]
      exact .none
    | @keep c text other h =>
      have hshort : ∀ {rest more : List Char}, rest.length ≤ text.length → Renames rest more →
          EndsAlike (scan rest) (scan more) := fun hle hrest =>
        ih _ (Nat.lt_succ_of_le hle) hrest rfl
      cases hc : isInert c with
      | true =>
        rw [hscan c text hc, hscan c other hc]
        exact hshort (Nat.le_refl _) h
      | false => exact hsign hc h hshort
    | @name first second text other hname hname' hend h =>
      rw [hscan.blankName text hname, hscan.blankName other hname']
      refine ih _ ?_ h rfl
      simp only [List.length_cons, List.length_append]
      omega

theorem afterString_cons {c : Char} (rest : List Char) (hc : c ≠ '\\') :
    afterString (c :: rest) =
      if c == '"' then some rest else if c == '\n' then none else afterString rest := by
  rw [afterString]
  rintro d more rfl
  exact absurd rfl hc

theorem passesInert_afterString : PassesInert afterString := by
  intro c rest hc
  have hne := fun {d : Char} => ne_of_isInert (d := d) hc
  rw [afterString_cons rest (hne (by decide)), if_neg (by simpa using hne (by decide)),
    if_neg (by simpa using hne (by decide))]

/-- A scanner that passes over names goes on alike if the next character is left out. -/
theorem PassesInert.skip {scan : List Char → Option (List Char)} (hscan : PassesInert scan)
    (hnil : scan [] = none) (h : Renames text other)
    (hshort : ∀ {rest more : List Char}, rest.length ≤ text.length → Renames rest more →
      EndsAlike (scan rest) (scan more)) : EndsAlike (scan text.tail) (scan other.tail) := by
  cases h with
  | nil =>
    rw [List.tail_nil, hnil]
    exact .none
  | keep c h => exact hshort (Nat.le_succ _) h
  | name hname hname' hend h =>
    rw [List.tail_cons, List.tail_cons, hscan.name _ hname, hscan.name _ hname']
    refine hshort ?_ h
    simp only [List.length_cons, List.length_append]
    omega

theorem afterString_escape (rest : List Char) :
    afterString ('\\' :: rest) = afterString rest.tail := by
  cases rest with
  | nil => rfl
  | cons c rest => rw [afterString]; rfl

theorem endsAlike_afterString (h : Renames text other) :
    EndsAlike (afterString text) (afterString other) := by
  refine passesInert_afterString.endsAlike rfl (fun {c text other} _ h hshort => ?_) h
  by_cases hc : c = '\\'
  · subst hc
    rw [afterString_escape, afterString_escape]
    exact passesInert_afterString.skip rfl h hshort
  · rw [afterString_cons text hc, afterString_cons other hc]
    split
    · exact .some h
    · split
      · exact .none
      · exact hshort (Nat.le_refl _) h

theorem afterVerbatim_quote (rest : List Char) :
    afterVerbatim ('"' :: rest) =
      if rest.head? = some '"' then afterVerbatim rest.tail else some rest := by
  cases rest with
  | nil => rfl
  | cons c rest =>
    simp only [List.head?_cons, List.tail_cons, Option.some.injEq]
    by_cases hc : c = '"'
    · subst hc
      rw [afterVerbatim, if_pos rfl]
    · rw [afterVerbatim, if_neg hc]
      · rfl
      · rintro more _ ⟨⟩
        exact hc rfl

theorem afterVerbatim_cons {c : Char} (rest : List Char) (hc : c ≠ '"') :
    afterVerbatim (c :: rest) = afterVerbatim rest := by
  rw [afterVerbatim, if_neg (by simpa using hc)]
  rintro more rfl
  exact absurd rfl hc

theorem passesInert_afterVerbatim : PassesInert afterVerbatim := fun _ rest hc =>
  afterVerbatim_cons rest (ne_of_isInert hc (by decide))

theorem endsAlike_afterVerbatim (h : Renames text other) :
    EndsAlike (afterVerbatim text) (afterVerbatim other) := by
  refine passesInert_afterVerbatim.endsAlike rfl (fun {c text other} _ h hshort => ?_) h
  by_cases hc : c = '"'
  · subst hc
    rw [afterVerbatim_quote, afterVerbatim_quote, ← h.head?_eq]
    split
    · exact passesInert_afterVerbatim.skip rfl h hshort
    · exact .some h
  · rw [afterVerbatim_cons text hc, afterVerbatim_cons other hc]
    exact hshort (Nat.le_refl _) h

theorem afterBlockComment_star (rest : List Char) :
    afterBlockComment ('*' :: rest) =
      if rest.head? = some '/' then some rest.tail else afterBlockComment rest := by
  cases rest with
  | nil => rfl
  | cons c rest =>
    simp only [List.head?_cons, List.tail_cons, Option.some.injEq]
    by_cases hc : c = '/'
    · subst hc
      rw [afterBlockComment, if_pos rfl]
    · rw [afterBlockComment, if_neg hc]
      rintro more _ ⟨⟩
      exact hc rfl

theorem afterBlockComment_cons {c : Char} (rest : List Char) (hc : c ≠ '*') :
    afterBlockComment (c :: rest) = afterBlockComment rest := by
  rw [afterBlockComment]
  rintro more rfl
  exact absurd rfl hc

theorem passesInert_afterBlockComment : PassesInert afterBlockComment := fun _ rest hc =>
  afterBlockComment_cons rest (ne_of_isInert hc (by decide))

theorem endsAlike_afterBlockComment (h : Renames text other) :
    EndsAlike (afterBlockComment text) (afterBlockComment other) := by
  refine passesInert_afterBlockComment.endsAlike rfl (fun {c text other} _ h hshort => ?_) h
  by_cases hc : c = '*'
  · subst hc
    rw [afterBlockComment_star, afterBlockComment_star, ← h.head?_eq]
    split
    · rename_i hhead
      exact .some (h.tail (by decide) hhead)
    · exact hshort (Nat.le_refl _) h
  · rw [afterBlockComment_cons text hc, afterBlockComment_cons other hc]
    exact hshort (Nat.le_refl _) h

theorem passesInert_afterEscape : PassesInert afterEscape := by
  intro c rest hc
  have hne := fun {d : Char} => ne_of_isInert (d := d) hc
  rw [afterEscape, if_neg (by simpa using hne (by decide)), if_neg (by simpa using hne (by decide))]

theorem endsAlike_afterEscape (h : Renames text other) :
    EndsAlike (afterEscape text) (afterEscape other) := by
  refine passesInert_afterEscape.endsAlike rfl (fun {c text other} _ h hshort => ?_) h
  rw [afterEscape, afterEscape]
  split
  · exact .some h
  · split
    · exact .none
    · exact hshort (Nat.le_refl _) h

theorem endsAlike_afterQuotes (quotes run : Nat) (h : Renames text other) :
    EndsAlike (afterQuotes quotes run text) (afterQuotes quotes run other) := by
  -- A run of quotes is over at the first other character.
  have hpass : ∀ {word : List Char} (run : Nat) (rest : List Char), word ≠ [] →
      (∀ c ∈ word, isInert c = true) →
      afterQuotes quotes run (word ++ rest) = afterQuotes quotes 0 rest := by
    intro word run rest hne hword
    have hinert : ∀ run c rest, isInert c = true →
        afterQuotes quotes run (c :: rest) = afterQuotes quotes 0 rest := by
      intro run c rest hc
      rw [afterQuotes, if_neg (by simpa using ne_of_isInert hc (by decide))]
    obtain ⟨c, word, rfl⟩ := List.exists_cons_of_ne_nil hne
    rw [List.cons_append, hinert _ _ _ (hword c List.mem_cons_self)]
    exact PassesInert.append (hinert 0) rest fun d hd => hword d (List.mem_cons_of_mem _ hd)
  induction h generalizing run with
  | nil => exact .none
  | keep c h ih =>
    rw [afterQuotes, afterQuotes]
    split
    · split
      · exact .some h
      · exact ih _
    · exact ih 0
  | @name first second text other hname hname' hend h ih =>
    rw [← List.cons_append, ← List.cons_append,
      hpass run text (List.cons_ne_nil _ _) (isInert_of_mem_name hname),
      hpass run other (List.cons_ne_nil _ _) (isInert_of_mem_name hname')]
    exact ih 0

theorem afterChar_escape (rest : List Char) : afterChar ('\\' :: rest) = afterEscape rest.tail := by
  cases rest with
  | nil => rfl
  | cons c rest => rfl

theorem afterChar_cons {c : Char} (rest : List Char) (hc : c ≠ '\\') :
    afterChar (c :: rest) =
      if rest.head? = some '\'' then if c == '\'' || c == '\n' then none else some rest.tail
      else none := by
  rw [afterChar.eq_def]
  split
  · rename_i heq
    exact absurd (List.cons.inj heq).1 hc
  · rename_i heq
    obtain ⟨rfl, rfl⟩ := List.cons.inj heq
    simp
  · rename_i hquote
    rw [if_neg]
    intro hhead
    obtain ⟨more, rfl⟩ := List.head?_eq_some_iff.mp hhead
    exact hquote c more rfl

theorem endsAlike_afterChar (h : Renames text other) :
    EndsAlike (afterChar text) (afterChar other) := by
  have hblank : ∀ {name : List Char} (rest : List Char), IsCapitalWord name →
      afterChar (' ' :: (name ++ rest)) = none := by
    intro name rest hname
    rw [afterChar_cons _ (by decide), if_neg]
    rw [List.head?_append_of_ne_nil _ hname.ne_nil]
    intro hhead
    have hmem := List.mem_cons_of_mem ' ' (List.mem_of_mem_head? hhead)
    exact absurd (isInert_of_mem_name hname _ hmem) (by decide)
  cases h with
  | nil => exact .none
  | name hname hname' hend h =>
    rw [hblank _ hname, hblank _ hname']
    exact .none
  | @keep c text other h =>
    by_cases hc : c = '\\'
    · subst hc
      rw [afterChar_escape, afterChar_escape]
      exact passesInert_afterEscape.skip rfl h fun _ hrest => endsAlike_afterEscape hrest
    · rw [afterChar_cons text hc, afterChar_cons other hc, ← h.head?_eq]
      split
      · rename_i hhead
        split
        · exact .none
        · exact .some (h.tail (by decide) hhead)
      · exact .none

theorem passesInert_afterLine : PassesInert afterLine := by
  intro c rest hc
  have hend : isLineEnd c = false := by
    simp [isLineEnd, ne_of_isInert hc (show '\n' ∈ signs by decide),
      ne_of_isInert hc (show '\r' ∈ signs by decide)]
  rw [afterLine, afterLine, List.dropWhile_cons_of_pos (by simp [hend])]

theorem renames_afterLine (h : Renames text other) :
    Renames (afterLine text) (afterLine other) := by
  induction h with
  | nil => exact .nil
  | keep c h ih =>
    rw [afterLine, afterLine, List.dropWhile_cons, List.dropWhile_cons]
    split
    · exact ih
    · exact .keep c h
  | name hname hname' hend h ih =>
    rw [passesInert_afterLine.blankName _ hname, passesInert_afterLine.blankName _ hname']
    exact ih

theorem runLength_eq {c : Char} (hc : c ≠ ' ') (h : Renames text other) :
    runLength c text = runLength c other := by
  rw [runLength, runLength, h.takeWhile_eq (by simpa using Ne.symm hc)]

theorem renames_drop {c : Char} (hc : c ≠ ' ') {n : Nat} (h : Renames text other)
    (hn : n ≤ runLength c text) : Renames (text.drop n) (other.drop n) :=
  h.drop (by simpa using Ne.symm hc) hn

/-! ## Openings -/

/-- What a text of two characters or more opens with is told by the first two. -/
theorem afterPlain?_cons (c : Char) (rest : List Char) :
    afterPlain? (c :: rest) =
      if c = '"' then
        some (if 3 ≤ runLength '"' (c :: rest) then
          afterQuotes (runLength '"' (c :: rest)) 0 ((c :: rest).drop (runLength '"' (c :: rest)))
        else afterString rest)
      else if c = '\'' then some (afterChar rest)
      else if c = '@' ∧ rest.head? = some '"' then some (afterVerbatim rest.tail)
      else if c = '/' ∧ rest.head? = some '*' then some (afterBlockComment rest.tail)
      else if c = '/' ∧ rest.head? = some '/' then some (some (afterLine rest.tail))
      else none := by
  unfold afterPlain?
  split
  · rename_i heq
    obtain ⟨rfl, rfl⟩ := List.cons.inj heq
    simp
  · rename_i heq
    obtain ⟨rfl, rfl⟩ := List.cons.inj heq
    simp only [if_true]
    split <;> rfl
  · rename_i heq
    obtain ⟨rfl, rfl⟩ := List.cons.inj heq
    simp
  · rename_i heq
    obtain ⟨rfl, rfl⟩ := List.cons.inj heq
    simp
  · rename_i heq
    obtain ⟨rfl, rfl⟩ := List.cons.inj heq
    simp
  · rename_i hverbatim hstring hchar hblock hline
    have hhead : ∀ {d}, rest.head? = some d → ∃ more, rest = d :: more :=
      fun hd => List.head?_eq_some_iff.mp hd
    rw [if_neg, if_neg, if_neg, if_neg, if_neg]
    · rintro ⟨rfl, hd⟩
      obtain ⟨more, rfl⟩ := hhead hd
      exact hline _ rfl
    · rintro ⟨rfl, hd⟩
      obtain ⟨more, rfl⟩ := hhead hd
      exact hblock _ rfl
    · rintro ⟨rfl, hd⟩
      obtain ⟨more, rfl⟩ := hhead hd
      exact hverbatim _ rfl
    · rintro rfl
      exact hchar _ rfl
    · rintro rfl
      exact hstring _ rfl

/-- Both texts open with no literal, or with the same sort of one, and they end alike. -/
theorem rel_afterPlain? (h : Renames text other) :
    Option.Rel EndsAlike (afterPlain? text) (afterPlain? other) := by
  have hnone : ∀ rest : List Char, afterPlain? (' ' :: rest) = none := fun _ => rfl
  cases h with
  | nil => exact .none
  | name hname hname' hend h =>
    rw [hnone, hnone]
    exact .none
  | @keep c text other h =>
    have hwhole : Renames (c :: text) (c :: other) := .keep c h
    rw [afterPlain?_cons, afterPlain?_cons, ← h.head?_eq, ← runLength_eq (by decide) hwhole]
    split_ifs with hquote hlong hchar hverbatim hblock hline
    · exact .some (endsAlike_afterQuotes _ 0 (renames_drop (by decide) hwhole (Nat.le_refl _)))
    · exact .some (endsAlike_afterString h)
    · exact .some (endsAlike_afterChar h)
    · exact .some (endsAlike_afterVerbatim (h.tail (by decide) hverbatim.2))
    · exact .some (endsAlike_afterBlockComment (h.tail (by decide) hblock.2))
    · exact .some (.some (renames_afterLine (h.tail (by decide) hline.2)))
    · exact .none

/-! ## What is left -/

section

variable {rest : List Char}

theorem suffix_afterString (h : afterString text = some rest) : rest <:+ text := by
  fun_induction afterString text with
  | case1 => cases h
  | case2 c more ih => exact (ih h).trans ((List.suffix_cons _ _).trans (List.suffix_cons _ _))
  | case3 c more _ hc =>
    obtain rfl := Option.some.inj h
    exact List.suffix_cons _ _
  | case4 c more _ hc hline => cases h
  | case5 c more _ hc hline ih => exact (ih h).trans (List.suffix_cons _ _)

theorem suffix_afterVerbatim (h : afterVerbatim text = some rest) : rest <:+ text := by
  fun_induction afterVerbatim text with
  | case1 => cases h
  | case2 more ih => exact (ih h).trans ((List.suffix_cons _ _).trans (List.suffix_cons _ _))
  | case3 c more _ hc =>
    obtain rfl := Option.some.inj h
    exact List.suffix_cons _ _
  | case4 c more _ hc ih => exact (ih h).trans (List.suffix_cons _ _)

theorem suffix_afterQuotes {quotes run : Nat} (h : afterQuotes quotes run text = some rest) :
    rest <:+ text := by
  fun_induction afterQuotes quotes run text with
  | case1 => cases h
  | case2 run c more hc hlast =>
    obtain rfl := Option.some.inj h
    exact List.suffix_cons _ _
  | case3 run c more hc hlast ih => exact (ih h).trans (List.suffix_cons _ _)
  | case4 run c more hc ih => exact (ih h).trans (List.suffix_cons _ _)

theorem suffix_afterEscape (h : afterEscape text = some rest) : rest <:+ text := by
  fun_induction afterEscape text with
  | case1 => cases h
  | case2 c more hc =>
    obtain rfl := Option.some.inj h
    exact List.suffix_cons _ _
  | case3 c more hc hline => cases h
  | case4 c more hc hline ih => exact (ih h).trans (List.suffix_cons _ _)

theorem suffix_afterChar (h : afterChar text = some rest) : rest <:+ text := by
  unfold afterChar at h
  split at h
  · exact (suffix_afterEscape h).trans ((List.suffix_cons _ _).trans (List.suffix_cons _ _))
  · split at h
    · cases h
    · obtain rfl := Option.some.inj h
      exact (List.suffix_cons _ _).trans (List.suffix_cons _ _)
  · cases h

theorem suffix_afterBlockComment (h : afterBlockComment text = some rest) : rest <:+ text := by
  obtain ⟨body, rfl⟩ := Lexeme.exists_of_afterBlockComment h
  exact List.suffix_append _ _

theorem suffix_afterLine (text : List Char) : afterLine text <:+ text :=
  List.dropWhile_suffix _

/-- Something of the text has been read. -/
def Advances (text rest : List Char) : Prop := rest <:+ text ∧ rest.length < text.length

theorem advances_cons {c : Char} {text : List Char} (h : rest <:+ text) :
    Advances (c :: text) rest :=
  ⟨h.trans (List.suffix_cons _ _), Nat.lt_succ_of_le h.length_le⟩

theorem advances_drop {n : Nat} (c : Char) (text : List Char) (hn : 0 < n) :
    Advances (c :: text) ((c :: text).drop n) := by
  obtain ⟨m, rfl⟩ := Nat.exists_eq_add_of_lt hn
  rw [Nat.zero_add, List.drop_succ_cons]
  exact advances_cons (List.drop_suffix _ _)

theorem suffix_tail (text : List Char) : text.tail <:+ text := List.tail_suffix text

theorem runLength_pos (c : Char) (text : List Char) : 0 < runLength c (c :: text) := by
  simp [runLength]

theorem advances_afterPlain? (h : afterPlain? text = some (some rest)) : Advances text rest := by
  cases text with
  | nil => cases h
  | cons c text =>
    rw [afterPlain?_cons] at h
    split_ifs at h with hquote hlong hchar hverbatim hblock hline
    · have hsuffix := suffix_afterQuotes (Option.some.inj h)
      obtain ⟨hdrop, hlength⟩ := advances_drop c text (n := runLength '"' (c :: text))
        (hquote ▸ runLength_pos _ _)
      exact ⟨hsuffix.trans hdrop, hsuffix.length_le.trans_lt hlength⟩
    · exact advances_cons (suffix_afterString (Option.some.inj h))
    · exact advances_cons (suffix_afterChar (Option.some.inj h))
    · exact advances_cons ((suffix_afterVerbatim (Option.some.inj h)).trans (suffix_tail _))
    · exact advances_cons ((suffix_afterBlockComment (Option.some.inj h)).trans (suffix_tail _))
    · obtain rfl := Option.some.inj (Option.some.inj h)
      exact advances_cons ((suffix_afterLine _).trans (suffix_tail _))

end

end Literal

end Backfield.CSharp
