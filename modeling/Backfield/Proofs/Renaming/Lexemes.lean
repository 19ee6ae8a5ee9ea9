import Backfield.Proofs.Renaming.Bodies
import Backfield.Proofs.Renaming.Interpolation
import Backfield.Proofs.Renaming.Lengths

/-!
# Tokens and renaming

Texts that differ in the names at the ends of lines have the same tokens but for these.

* `measuresAlike_measure` is the first piece of both texts, where neither begins with white space.
* `Lexeme.alike_ofText` are all pieces, by induction on the length of the first text.
* `problems_ofText_renamed` is the result: such texts are wrong on the same lines.
-/

namespace Backfield.CSharp

open Text (isIdentifierContinue)

namespace Lexeme

variable {text other : List Char}

/-! ## The first piece -/

/-- Pieces of one kind, after which the texts go on alike.  Words and symbols are the same. -/
structure MeasuresAlike (text other : List Char) (found found' : LexemeKind × Nat) : Prop where
  kind : found.1 = found'.1
  pos : 0 < found.2
  pos' : 0 < found'.2
  drop : Renames (text.drop found.2) (other.drop found'.2)
  take : IsPlainKind found.1 → text.take found.2 = other.take found'.2

theorem drop_lengthBefore {rest : List Char} (h : rest <:+ text) :
    text.drop (lengthBefore text rest) = rest := (List.suffix_iff_eq_drop.mp h).symm

/-- Pieces that end where something begins. -/
theorem MeasuresAlike.of_rests {kind : LexemeKind} {rest more : List Char}
    (hkind : ¬IsPlainKind kind) (hrest : Literal.Advances text rest)
    (hmore : Literal.Advances other more) (h : Renames rest more) :
    MeasuresAlike text other (kind, lengthBefore text rest) (kind, lengthBefore other more) where
  kind := rfl
  pos := Nat.sub_pos_of_lt hrest.2
  pos' := Nat.sub_pos_of_lt hmore.2
  drop := by
    rw [drop_lengthBefore hrest.1, drop_lengthBefore hmore.1]
    exact h
  take := fun hplain => absurd hplain hkind

/-- Pieces that are the same. -/
theorem MeasuresAlike.of_le {n : Nat} (kind : LexemeKind) (h : Renames text other) (hpos : 0 < n)
    (hn : n ≤ inkLength text) : MeasuresAlike text other (kind, n) (kind, n) where
  kind := rfl
  pos := hpos
  pos' := hpos
  drop := renames_drop h hn
  take := fun _ => take_eq h hn

/-- Neither text begins with the piece, or both do and go on alike. -/
abbrev FindsAlike (text other : List Char) (found found' : Option (LexemeKind × Nat)) : Prop :=
  Option.Rel (fun a b => ¬IsPlainKind a.1 ∧ MeasuresAlike text other a b) found found'

theorem not_isPlainKind_unclosed : ¬IsPlainKind .unclosed := by simp [IsPlainKind]

/-- A literal that is not closed ends with its line or with the text. -/
theorem measuresAlike_unclosed {c : Char} (h : Renames text other)
    (hc : Literal.isLineEnd c = false) (oneLine : Bool) :
    MeasuresAlike (c :: text) (c :: other)
      (.unclosed, if oneLine then lengthBefore (c :: text) (Literal.afterLine (c :: text))
        else (c :: text).length)
      (.unclosed, if oneLine then lengthBefore (c :: other) (Literal.afterLine (c :: other))
        else (c :: other).length) := by
  have hline : ∀ text, Literal.afterLine (c :: text) = Literal.afterLine text := fun text =>
    List.dropWhile_cons_of_pos (by simp [hc])
  have hadvances : ∀ text, Literal.Advances (c :: text) (Literal.afterLine (c :: text)) :=
    fun text => hline text ▸ Literal.advances_cons (Literal.suffix_afterLine text)
  cases oneLine with
  | true =>
    exact .of_rests not_isPlainKind_unclosed (hadvances text) (hadvances other)
      (Literal.renames_afterLine (.keep c h))
  | false =>
    refine ⟨rfl, Nat.succ_pos _, Nat.succ_pos _, ?_, fun hplain =>
      absurd hplain not_isPlainKind_unclosed⟩
    simp only [Bool.false_eq_true, if_false, List.drop_length]
    exact .nil

theorem isLineEnd_of_afterPlain? {c : Char} {rest : List Char}
    (h : Literal.afterPlain? (c :: rest) ≠ none) : Literal.isLineEnd c = false := by
  refine Bool.eq_false_iff.mpr fun hend => h ?_
  simp only [Literal.isLineEnd, Bool.or_eq_true, beq_iff_eq] at hend
  rcases hend with rfl | rfl <;> rfl

theorem isLineEnd_of_interpolated? {c : Char} {rest : List Char}
    (h : Literal.interpolated? (c :: rest) ≠ none) : Literal.isLineEnd c = false := by
  refine Bool.eq_false_iff.mpr fun hend => h ?_
  simp only [Literal.isLineEnd, Bool.or_eq_true, beq_iff_eq] at hend
  rcases hend with rfl | rfl <;> rfl

theorem findsAlike_plain? (c : Char) (h : Renames text other) :
    FindsAlike (c :: text) (c :: other) (plain? (c :: text)) (plain? (c :: other)) := by
  have hwhole : Renames (c :: text) (c :: other) := .keep c h
  have hrel := Literal.rel_afterPlain? hwhole
  have hopens : Literal.afterPlain? (c :: text) ≠ none → _ := isLineEnd_of_afterPlain?
  have hrest : ∀ rest, Literal.afterPlain? (c :: text) = some (some rest) → _ := fun _ =>
    Literal.advances_afterPlain?
  have hmore : ∀ rest, Literal.afterPlain? (c :: other) = some (some rest) → _ := fun _ =>
    Literal.advances_afterPlain?
  unfold plain?
  dsimp only [List.head?_cons]
  rw [← Literal.runLength_eq (c := '"') (by decide) hwhole]
  generalize Literal.afterPlain? (c :: text) = found at hrel hopens hrest
  generalize Literal.afterPlain? (c :: other) = found' at hrel hmore
  cases hrel with
  | none => exact .none
  | some hends =>
    cases hends with
    | some hafter =>
      have hkind : ¬IsPlainKind (if (some c == some '/') = true then .comment else .literal) := by
        split <;> simp [IsPlainKind]
      exact .some ⟨hkind, .of_rests hkind (hrest _ rfl) (hmore _ rfl) hafter⟩
    | none =>
      exact .some ⟨not_isPlainKind_unclosed, measuresAlike_unclosed h (hopens (by simp)) _⟩

theorem findsAlike_interpolated? (c : Char) (h : Renames text other) :
    FindsAlike (c :: text) (c :: other)
      (interpolated? (c :: text)) (interpolated? (c :: other)) := by
  have hwhole : Renames (c :: text) (c :: other) := .keep c h
  have hrel := Literal.opensAlike_interpolated? hwhole
  have hopens : Literal.interpolated? (c :: text) ≠ none → _ := isLineEnd_of_interpolated?
  have hrest : ∀ style rest, Literal.interpolated? (c :: text) = some (style, rest) → _ :=
    fun _ _ => Literal.advances_interpolated?
  have hmore : ∀ style rest, Literal.interpolated? (c :: other) = some (style, rest) → _ :=
    fun _ _ => Literal.advances_interpolated?
  unfold interpolated?
  generalize Literal.interpolated? (c :: text) = found at hrel hopens hrest
  generalize Literal.interpolated? (c :: other) = found' at hrel hmore
  cases hrel with
  | none => exact .none
  | @some opened opened' hopened =>
    obtain ⟨style, inner⟩ := opened
    obtain ⟨style', inner'⟩ := opened'
    obtain ⟨rfl, hinner⟩ := hopened
    obtain ⟨hadvances, hproper⟩ := hrest _ _ rfl
    obtain ⟨hadvances', -⟩ := hmore _ _ rfl
    have hframes : ∀ frame ∈ [Literal.Frame.text style], frame.IsProper :=
      List.forall_mem_singleton.mpr hproper
    have hends : Literal.EndsAlike (Literal.afterInterpolated style inner)
        (Literal.afterInterpolated style inner') :=
      Literal.closesAlike hframes hinner _ _ (Nat.le_refl _) (Nat.le_refl _)
    have hsuffix : ∀ {inner rest : List Char}, Literal.afterInterpolated style inner = some rest →
        rest <:+ inner := Literal.suffix_afterFrames hframes
    dsimp only
    generalize hafter : Literal.afterInterpolated style inner = after at hends
    generalize hafter' : Literal.afterInterpolated style inner' = after' at hends
    cases hends with
    | some hrests =>
      have hkind : ¬IsPlainKind .literal := by simp [IsPlainKind]
      have hadvance : ∀ {text inner rest : List Char}, Literal.Advances text inner →
          rest <:+ inner → Literal.Advances text rest := fun hinner hrest =>
        ⟨hrest.trans hinner.1, hrest.length_le.trans_lt hinner.2⟩
      exact .some ⟨hkind, .of_rests hkind (hadvance hadvances (hsuffix hafter))
        (hadvance hadvances' (hsuffix hafter')) hrests⟩
    | none =>
      exact .some ⟨not_isPlainKind_unclosed, measuresAlike_unclosed h (hopens (by simp)) _⟩

/-! ## White space and directives -/

/-- White space that words do not contain is the same, but a name may follow it. -/
theorem resumes_dropWhile {test : Char → Bool} (hspace : test ' ' = true)
    (hword : ∀ c, isIdentifierContinue c = true → test c = false) (h : Renames text other) :
    Literal.Resumes (text.dropWhile test) (other.dropWhile test) ∧
      text.takeWhile test = other.takeWhile test := by
  induction h with
  | nil => exact ⟨.same .nil, rfl⟩
  | @keep c text other h ih =>
    by_cases hc : test c = true
    · rw [List.dropWhile_cons_of_pos hc, List.dropWhile_cons_of_pos hc,
        List.takeWhile_cons_of_pos hc, List.takeWhile_cons_of_pos hc, ih.2]
      exact ⟨ih.1, rfl⟩
    · rw [List.dropWhile_cons_of_neg hc, List.dropWhile_cons_of_neg hc,
        List.takeWhile_cons_of_neg hc, List.takeWhile_cons_of_neg hc]
      exact ⟨.same (.keep c h), rfl⟩
  | @name first second text other hname hname' hend h _ =>
    have hstop : ∀ {name : List Char} (rest : List Char), IsCapitalWord name →
        (' ' :: (name ++ rest)).dropWhile test = name ++ rest ∧
          (' ' :: (name ++ rest)).takeWhile test = [' '] := by
      intro name rest hcapital
      obtain ⟨c, more, rfl⟩ := List.exists_cons_of_ne_nil hcapital.ne_nil
      have hc := hword c (List.all_eq_true.mp hcapital.1.2 c List.mem_cons_self)
      rw [List.dropWhile_cons_of_pos hspace, List.takeWhile_cons_of_pos hspace, List.cons_append,
        List.dropWhile_cons_of_neg (by simp [hc]), List.takeWhile_cons_of_neg (by simp [hc])]
      exact ⟨rfl, rfl⟩
    rw [(hstop text hname).1, (hstop other hname').1, (hstop text hname).2, (hstop other hname').2]
    exact ⟨.name hname hname' hend h, rfl⟩

/-- A line that begins with no small letter is nothing for the compiler. -/
theorem directiveKind_of_not_isSmall {rest : List Char}
    (h : Keyword.isSmall (directiveName rest) = false) :
    directiveKind rest = if rest.head? == some '!' then .directive else .stray := by
  unfold directiveKind
  split
  all_goals first | rfl | (rename_i heq; rw [heq] at h; exact absurd h (by decide))

theorem isSmall_takeWhile {name : List Char} (test : Char → Bool) (rest : List Char)
    (h : IsCapitalWord name) :
    Keyword.isSmall (String.ofList ((name ++ rest).takeWhile test)) = false := by
  obtain ⟨c, more, rfl⟩ := List.exists_cons_of_ne_nil h.ne_nil
  have hc := h.2
  rw [Keyword.isSmall, String.toList_ofList] at hc ⊢
  rw [List.cons_append, List.takeWhile_cons]
  split
  · exact hc
  · rfl

theorem directiveKind_eq (h : Renames text other) : directiveKind text = directiveKind other := by
  have hword : ∀ c, isIdentifierContinue c = true → isSpace c = false := by
    intro c hc
    refine Bool.eq_false_iff.mpr fun hspace => ?_
    simp only [isSpace, Bool.or_eq_true, beq_iff_eq] at hspace
    rcases hspace with rfl | rfl <;> exact absurd hc (by decide)
  have hresumes := (resumes_dropWhile (by decide) hword h).1
  have hhead := h.head?_eq
  have hname : directiveName text = directiveName other ∨
      Keyword.isSmall (directiveName text) = false ∧
        Keyword.isSmall (directiveName other) = false := by
    rw [directiveName_eq, directiveName_eq]
    revert hresumes
    generalize text.dropWhile isSpace = line
    generalize other.dropWhile isSpace = line'
    intro hresumes
    cases hresumes with
    | same hline =>
      exact Or.inl (congrArg String.ofList (hline.takeWhile_eq (by decide)))
    | name hname hname' hend hline =>
      exact Or.inr ⟨isSmall_takeWhile _ _ hname, isSmall_takeWhile _ _ hname'⟩
  rcases hname with heq | ⟨hsmall, hsmall'⟩
  · rw [directiveKind, directiveKind, heq, hhead]
  · rw [directiveKind_of_not_isSmall hsmall, directiveKind_of_not_isSmall hsmall', hhead]

theorem isGap_of_continue {c : Char} (hc : isIdentifierContinue c = true) : isGap c = false :=
  isGap_eq_false (not_mem_signs (isNameChar_of_continue hc))

/-! ## Other pieces -/

theorem measure_of_literal {c : Char} {rest : List Char} {kind : LexemeKind} {n : Nat}
    (hgap : isGap c = false)
    (hfound : (plain? (c :: rest)).or (interpolated? (c :: rest)) = some (kind, n)) :
    measure c rest =
      (kind, if kind = .literal then n + stringSuffixLength ((c :: rest).drop n) else n) := by
  rw [measure, hgap, if_neg Bool.false_ne_true, hfound]
  cases kind <;> rfl

theorem measuresAlike_of_literal {c : Char} {found found' : LexemeKind × Nat}
    (hgap : isGap c = false) (hkind : ¬IsPlainKind found.1)
    (hfound : (plain? (c :: text)).or (interpolated? (c :: text)) = some found)
    (hfound' : (plain? (c :: other)).or (interpolated? (c :: other)) = some found')
    (h : MeasuresAlike (c :: text) (c :: other) found found') :
    MeasuresAlike (c :: text) (c :: other) (measure c text) (measure c other) := by
  obtain ⟨kind, n⟩ := found
  obtain ⟨kind', m⟩ := found'
  obtain rfl : kind = kind' := h.kind
  rw [measure_of_literal hgap hfound, measure_of_literal hgap hfound']
  split
  · have hsuffix := isLocal_stringSuffixLength.eq h.drop
    have hle := isLocal_stringSuffixLength.le ((c :: text).drop n)
    refine ⟨rfl, Nat.add_pos_left h.pos _, Nat.add_pos_left h.pos' _, ?_,
      fun hplain => absurd hplain hkind⟩
    dsimp only at hsuffix ⊢
    rw [← List.drop_drop, ← List.drop_drop, ← hsuffix]
    exact renames_drop h.drop hle
  · exact h

theorem measure_sharp_stray {rest : List Char} (h : directiveKind rest = .stray) :
    measure '#' rest = (.stray, 1) := by
  have hliteral : NoLiteral ('#' :: rest) := noLiteral_of_ne rest (by decide) (by simp)
  rw [measure, if_neg (by decide), hliteral.plain, hliteral.interpolated, Option.or_none]
  dsimp only
  rw [if_pos (beq_self_eq_true '#'), h]

theorem measuresAlike_sharp (h : Renames text other) :
    MeasuresAlike ('#' :: text) ('#' :: other) (measure '#' text) (measure '#' other) := by
  have hkind := directiveKind_eq h
  rcases directiveKind_kind text with hstray | hhashed
  · rw [measure_sharp_stray hstray, measure_sharp_stray (hkind ▸ hstray)]
    exact .of_le .stray (.keep '#' h) Nat.one_pos (by rw [inkLength, if_neg (by decide)]; omega)
  · have hne := ne_stray_of_isHashed hhashed
    have hline : ∀ text, Literal.afterLine ('#' :: text) = Literal.afterLine text := fun _ => rfl
    have hadvances : ∀ text, Literal.Advances ('#' :: text) (Literal.afterLine ('#' :: text)) :=
      fun text => hline text ▸ Literal.advances_cons (Literal.suffix_afterLine text)
    rw [measure_sharp hne, measure_sharp (hkind ▸ hne), ← hkind]
    refine .of_rests ?_ (hadvances text) (hadvances other)
      (Literal.renames_afterLine (.keep '#' h))
    rintro (hword | hsymbol)
    · rw [hword] at hhashed
      cases hhashed
    · rw [hsymbol] at hhashed
      cases hhashed

/-- What is not white space at the front of both texts. -/
theorem measuresAlike_measure {c : Char} (hgap : isGap c = false) (h : Renames text other) :
    MeasuresAlike (c :: text) (c :: other) (measure c text) (measure c other) := by
  have hwhole : Renames (c :: text) (c :: other) := .keep c h
  have hfound : FindsAlike (c :: text) (c :: other)
      ((plain? (c :: text)).or (interpolated? (c :: text)))
      ((plain? (c :: other)).or (interpolated? (c :: other))) := by
    have hplain := findsAlike_plain? c h
    have hinterpolated := findsAlike_interpolated? c h
    generalize plain? (c :: text) = found at hplain
    generalize plain? (c :: other) = found' at hplain
    cases hplain with
    | some hrel => exact .some hrel
    | none => exact hinterpolated
  generalize hliteral : (plain? (c :: text)).or (interpolated? (c :: text)) = found at hfound
  generalize hliteral' : (plain? (c :: other)).or (interpolated? (c :: other)) = found' at hfound
  cases hfound with
  | some hrel => exact measuresAlike_of_literal hgap hrel.1 hliteral hliteral' hrel.2
  | none =>
    by_cases hsharp : c = '#'
    · subst hsharp
      exact measuresAlike_sharp h
    · rw [Option.or_eq_none_iff] at hliteral hliteral'
      rw [measure_of_opens hgap hsharp ⟨hliteral.1, hliteral.2⟩,
        measure_of_opens hgap hsharp ⟨hliteral'.1, hliteral'.2⟩,
        ← isLocal_wordLength.eq hwhole, ← isLocal_wordLength.eq h,
        ← isLocal_numberLength.eq hwhole, ← isLocal_symbolLength.eq hwhole]
      have hspace : c ≠ ' ' := by
        rintro rfl
        cases hgap
      have hlength : inkLength (c :: text) = inkLength text + 1 := by rw [inkLength, if_neg hspace]
      split_ifs with hword hat hnumber hsymbol
      · exact .of_le _ hwhole hword (isLocal_wordLength.le _)
      · exact .of_le _ hwhole (Nat.succ_pos _)
          (hlength ▸ Nat.succ_le_succ (isLocal_wordLength.le text))
      · exact .of_le _ hwhole hnumber (isLocal_numberLength.le _)
      · exact .of_le _ hwhole hsymbol (isLocal_symbolLength.le _)
      · exact .of_le _ hwhole Nat.one_pos (hlength ▸ Nat.succ_le_succ (Nat.zero_le _))

/-! ## All pieces -/

/-- The lexemes are the same but for names and what is within literals and comments. -/
structure Alike (l l' : Lexeme) : Prop where
  kind : l.kind = l'.kind
  count : l.text.count '\n' = l'.text.count '\n'
  word : l.kind = .word → Keyword.mask (String.ofList l.text) = Keyword.mask (String.ofList l'.text)
  symbol : l.kind = .symbol → l.text = l'.text

theorem count_eq_zero {name : List Char} (h : IsCapitalWord name) : name.count '\n' = 0 := by
  refine List.count_eq_zero.mpr fun hmem => ?_
  exact absurd (List.all_eq_true.mp h.1.2 _ hmem) (by decide)

theorem count_eq (h : Renames text other) : text.count '\n' = other.count '\n' := by
  induction h with
  | nil => rfl
  | keep c h ih => rw [List.count_cons, List.count_cons, ih]
  | name hname hname' hend h ih =>
    rw [List.count_cons, List.count_cons, List.count_append, List.count_append,
      count_eq_zero hname, count_eq_zero hname', ih]

theorem isWord_of_isCapitalWord {name : List Char} (h : IsCapitalWord name) : IsWord name := by
  refine Or.inl ((isWhole_iff_isPlainWord fun hescape => ?_).mpr h.1)
  exact absurd (List.all_eq_true.mp h.1.2 _ hescape) (by decide)

theorem mask_of_isCapitalWord {name : List Char} (h : IsCapitalWord name) :
    Keyword.mask (String.ofList name) = "" := by
  rw [Keyword.mask, h.2]
  rfl

theorem ofText_of_measure {c : Char} {rest : List Char} {kind : LexemeKind} {n : Nat}
    (h : measure c rest = (kind, n)) (hpos : 0 < n) :
    ofText (c :: rest) = ⟨kind, (c :: rest).take n⟩ :: ofText ((c :: rest).drop n) := by
  obtain ⟨n, rfl⟩ := Nat.exists_eq_add_of_lt hpos
  have hshort : (rest.drop n).length ≤ rest.length := by
    rw [List.length_drop]
    exact Nat.sub_le _ _
  rw [Nat.zero_add] at h ⊢
  rw [ofText, List.length_cons, cut, h]
  dsimp only
  rw [Nat.add_sub_cancel, List.take_succ_cons, List.drop_succ_cons,
    cut_fuel hshort (Nat.le_refl _)]
  rfl

theorem ofText_gap {c : Char} (rest : List Char) (hc : isGap c = true) :
    ofText (c :: rest) =
      ⟨.blank, (c :: rest).takeWhile isGap⟩ :: ofText ((c :: rest).dropWhile isGap) := by
  rw [ofText_of_isGap rest hc, List.takeWhile_cons_of_pos hc, List.dropWhile_cons_of_pos hc]

theorem length_dropWhile_lt {c : Char} {test : Char → Bool} (rest : List Char)
    (hc : test c = true) : ((c :: rest).dropWhile test).length < (c :: rest).length := by
  rw [List.dropWhile_cons_of_pos hc]
  exact Nat.lt_succ_of_le (List.dropWhile_suffix _).length_le

theorem alike_word {name name' : List Char} (h : IsCapitalWord name) (h' : IsCapitalWord name') :
    Alike ⟨.word, name⟩ ⟨.word, name'⟩ where
  kind := rfl
  count := by rw [count_eq_zero h, count_eq_zero h']
  word := fun _ => by rw [mask_of_isCapitalWord h, mask_of_isCapitalWord h']
  symbol := nofun

/-- What is left has as many lines in both texts, and so has what is taken. -/
theorem MeasuresAlike.alike {found found' : LexemeKind × Nat}
    (h : MeasuresAlike text other found found') (hwhole : Renames text other) :
    Alike ⟨found.1, text.take found.2⟩ ⟨found'.1, other.take found'.2⟩ where
  kind := h.kind
  count := by
    have hcount : ∀ (text : List Char) (n : Nat),
        (text.take n).count '\n' + (text.drop n).count '\n' = text.count '\n' :=
      fun text n => by rw [← List.count_append, List.take_append_drop]
    have hsplit := hcount text found.2
    have hsplit' := hcount other found'.2
    have hall := count_eq hwhole
    have hrest := count_eq h.drop
    dsimp only
    omega
  word := fun hkind =>
    congrArg (fun piece => Keyword.mask (String.ofList piece)) (h.take (Or.inl hkind))
  symbol := fun hkind => h.take (Or.inr hkind)

/-- The lexemes of texts that differ in names are alike. -/
theorem alike_ofText (h : Renames text other) :
    List.Forall₂ Alike (ofText text) (ofText other) := by
  induction hlength : text.length using Nat.strong_induction_on generalizing text other with
  | _ n ih =>
    subst hlength
    have hresumes : ∀ {rest more : List Char}, rest.length < text.length →
        Literal.Resumes rest more → List.Forall₂ Alike (ofText rest) (ofText more) := by
      intro rest more hlt hrest
      cases hrest with
      | same hrest => exact ih _ hlt hrest rfl
      | @name first second rest more hname hname' hend hrest =>
        have hends : ∀ {after : List Char}, Text.BeginsLineEnd after → EndsName after :=
          fun hafter c hc => hafter c hc ▸ by decide
        have hend' : Text.BeginsLineEnd more := fun c hc => hend c (hrest.head?_eq ▸ hc)
        rw [ofText_of_cuts (cuts_word (isWord_of_isCapitalWord hname) (hends hend)),
          ofText_of_cuts (cuts_word (isWord_of_isCapitalWord hname') (hends hend'))]
        exact .cons (alike_word hname hname')
          (ih _ ((List.suffix_append _ _).length_le.trans_lt hlt) hrest rfl)
    -- White space is the same in both texts.
    have hblank : ∀ {c : Char} {rest more : List Char}, isGap c = true → text = c :: rest →
        other = c :: more → List.Forall₂ Alike (ofText text) (ofText other) := by
      rintro c rest more hc rfl rfl
      obtain ⟨hafter, hgap⟩ := resumes_dropWhile (by decide) (fun _ => isGap_of_continue) h
      rw [ofText_gap rest hc, ofText_gap more hc, hgap]
      exact .cons ⟨rfl, rfl, nofun, nofun⟩ (hresumes (length_dropWhile_lt rest hc) hafter)
    cases h with
    | nil => exact .nil
    | name => exact hblank (by decide) rfl rfl
    | @keep c text other h =>
      cases hgap : isGap c with
      | true => exact hblank hgap rfl rfl
      | false =>
        have hmeasures := measuresAlike_measure hgap h
        have hlt : ((c :: text).drop (measure c text).2).length < (c :: text).length := by
          rw [List.length_drop]
          exact Nat.sub_lt (Nat.succ_pos _) hmeasures.pos
        rw [ofText_of_measure rfl hmeasures.pos, ofText_of_measure rfl hmeasures.pos']
        exact .cons (hmeasures.alike (.keep c h)) (ih _ hlt hmeasures.drop rfl)

end Lexeme

/-! ## Tokens -/

namespace Token

theorem isTrivia_eq {l l' : Lexeme} (h : l.Alike l') : isTrivia l = isTrivia l' := by
  rw [isTrivia, isTrivia, h.kind]

theorem mask_ofLexeme {place place' : Place} {l l' : Lexeme} (h : l.Alike l')
    (hline : place.line = place'.line) (hmissed : place.missedLine = place'.missedLine) :
    (ofLexeme place l).mask = (ofLexeme place' l').mask := by
  obtain ⟨kind, text⟩ := l
  obtain ⟨kind', text'⟩ := l'
  obtain ⟨rfl, -, hword, hsymbol⟩ := h
  cases kind <;> simp_all [ofLexeme, mask]

theorem mask_ofLexemes {lexemes lexemes' : List Lexeme}
    (h : List.Forall₂ Lexeme.Alike lexemes lexemes') {place place' : Place}
    (hline : place.line = place'.line) (hmissed : place.missedLine = place'.missedLine) :
    (ofLexemes place lexemes).mask = (ofLexemes place' lexemes').mask := by
  induction h generalizing place place' with
  | nil => rw [ofLexemes, ofLexemes, hmissed]
  | @cons l l' lexemes lexemes' hl hrest ih =>
    have hnext : place.line + l.text.count '\n' = place'.line + l'.text.count '\n' := by
      rw [hline, hl.count]
    rw [ofLexemes, ofLexemes, isTrivia_eq hl]
    split
    · refine ih hnext ?_
      simp only [Place.pass, hl.kind, hmissed, hnext]
    · have htokens := @ih (place.passToken l) (place'.passToken l') hnext hnext
      rw [TokenList.mask, TokenList.mask, TokenList.mk.injEq] at htokens ⊢
      exact ⟨by rw [List.map_cons, List.map_cons, htokens.1, mask_ofLexeme hl hline hmissed],
        htokens.2⟩

end Token

/-- Texts that differ in the names at the ends of lines are wrong on the same lines. -/
theorem problems_ofText_renamed {text other : String} (h : Text.Renamed IsCapitalWord text other) :
    (SourceUnit.ofText text).problems = (SourceUnit.ofText other).problems :=
  problems_ofText_congr (Token.mask_ofLexemes (Lexeme.alike_ofText h) rfl rfl)

end Backfield.CSharp
