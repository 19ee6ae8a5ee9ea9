import Mathlib.Data.Bool.AllAny
import Backfield.Proofs.CSharp.Flattening
import Backfield.Proofs.Text.Visible

/-!
# What stands between two tokens

White space and comments, and the lines for the compiler.  So the first visible character between
two tokens, if there is one, is a sign that belongs to no token.

* `opensWithSign_gap` is that statement.
* `tokens_ofText_closed` says that comments between `/*` and `*/` do not touch what follows them.
-/

namespace Backfield.CSharp

open Lexeme (isGap gaps mem_gaps tokens separates isLineBound measure_separates)
open Text (isBlank visible)

/-- With these something begins between two tokens that is not blank: a byte order mark, a comment
or a line for the compiler. -/
def gapSigns : List Char := [Char.ofNat 0xfeff, '/', '#']

theorem isNameChar_sign : ∀ c ∈ gapSigns, Lexeme.isNameChar c = false :=
  List.all_iff_forall_prop.mp (by decide +kernel)

/-- The first visible character, if there is one, is a sign. -/
def OpensWithSign (gap : List Char) : Prop := ∀ c ∈ (visible gap).head?, c ∈ gapSigns

theorem OpensWithSign.append {gap more : List Char} (h : OpensWithSign gap)
    (hmore : OpensWithSign more) : OpensWithSign (gap ++ more) := by
  intro c hc
  rw [Text.visible_append, List.head?_append, Option.mem_def, Option.or_eq_some_iff] at hc
  rcases hc with hc | ⟨-, hc⟩
  · exact h c hc
  · exact hmore c hc

theorem mem_gapSigns_of_isGap {c : Char} (hgap : isGap c = true) (hink : isBlank c = false) :
    c ∈ gapSigns := by
  have hall : (gaps.all fun d => isBlank d || gapSigns.contains d) = true := by decide +kernel
  have hc := List.all_eq_true.mp hall c (mem_gaps hgap)
  rw [hink, Bool.false_or] at hc
  exact List.contains_iff_mem.mp hc

namespace Lexeme

theorem opensWithSign_cons {c : Char} (rest : List Char) (hc : c ∈ gapSigns)
    (hink : isBlank c = false) : OpensWithSign (c :: rest) := by
  intro d hd
  rw [Text.visible_cons_ink rest hink] at hd
  obtain rfl : c = d := Option.some.inj hd
  exact hc

/-- So it is with each piece that only separates tokens. -/
theorem opensWithSign_of_separates {fuel : Nat} {text : List Char} {l : Lexeme}
    (h : l ∈ cut fuel text) (hl : separates l = true) : OpensWithSign l.text := by
  obtain ⟨c, rest, n, hmeasure, htext⟩ := exists_measure_of_mem_cut h
  obtain ⟨hblank, hcomment, hhashed⟩ := measure_separates hmeasure
  rcases separates_iff.mp hl with hkind | hkind | hkind
  · have hgap := hblank hkind
    rw [measure_of_isGap rest hgap] at hmeasure
    have hall : ∀ x ∈ l.text, isGap x = true := by
      rw [htext, ← (Prod.mk.inj hmeasure).2, Nat.add_sub_cancel]
      refine List.forall_mem_cons.mpr ⟨hgap, fun x hx => ?_⟩
      rw [← List.prefix_iff_eq_take.mp (List.takeWhile_prefix isGap)] at hx
      exact List.mem_takeWhile_imp hx
    intro x hx
    obtain ⟨hmem, hink⟩ := Text.mem_visible.mp (List.mem_of_mem_head? hx)
    exact mem_gapSigns_of_isGap (hall x hmem) hink
  · rw [htext, (plain?_comment (hcomment hkind)).1]
    exact opensWithSign_cons _ (by decide) (by decide)
  · rw [htext, (hhashed hkind).1]
    exact opensWithSign_cons _ (by decide) (by decide)

end Lexeme

namespace Token

theorem opensWithSign_of_mem_ofLexemes {place : Place} {lexemes : List Lexeme} {t : Token}
    (hplace : OpensWithSign place.gap)
    (hlexemes : ∀ l ∈ lexemes, isTrivia l = true → OpensWithSign l.text)
    (h : t ∈ (ofLexemes place lexemes).tokens) : OpensWithSign t.gap.toList := by
  induction lexemes generalizing place with
  | nil => cases h
  | cons l rest ih =>
    have hrest : ∀ l ∈ rest, isTrivia l = true → OpensWithSign l.text :=
      fun l hl => hlexemes l (List.mem_cons_of_mem _ hl)
    rw [ofLexemes] at h
    split at h
    · rename_i htrivia
      exact ih (hplace.append (hlexemes l List.mem_cons_self htrivia)) hrest h
    · rcases List.mem_cons.mp h with rfl | h
      · rw [ofLexeme, String.toList_ofList]
        exact hplace
      · exact ih (by rintro c ⟨⟩) hrest h

/-- What stands before a token begins with a sign. -/
theorem opensWithSign_gap {text : String} {t : Token} (h : t ∈ (ofText text).tokens) :
    OpensWithSign t.gap.toList := by
  refine opensWithSign_of_mem_ofLexemes (by rintro c ⟨⟩) (fun l hl htrivia => ?_) h
  exact Lexeme.opensWithSign_of_separates hl (by rw [separates, htrivia, Bool.true_or])

end Token

namespace Lexeme

/-! ## Comments that are closed -/

/-- The text is nothing but white space and comments between `/*` and `*/`. -/
def IsClosed (text : List Char) : Prop :=
  ∀ l ∈ ofText text, separates l = true ∧ isLineBound l = false

instance : DecidablePred IsClosed := fun text =>
  inferInstanceAs (Decidable (∀ l ∈ ofText text, separates l = true ∧ isLineBound l = false))

theorem not_isClosed_of_isLineBound {text : List Char} {l : Lexeme} {lexemes : List Lexeme}
    (hfirst : ofText text = l :: lexemes) (hline : isLineBound l = true) : ¬IsClosed text := by
  intro h
  have hl := (h l (hfirst ▸ List.mem_cons_self)).2
  rw [hline] at hl
  cases hl

theorem afterBlockComment_append {inner after : List Char} (rest : List Char)
    (h : Literal.afterBlockComment inner = some after) :
    Literal.afterBlockComment (inner ++ rest) = some (after ++ rest) := by
  fun_induction Literal.afterBlockComment inner with
  | case1 => cases h
  | case2 more =>
    obtain rfl := Option.some.inj h
    rfl
  | case3 c more hopen ih =>
    rw [List.cons_append, Literal.afterBlockComment]
    · exact ih h
    · intro more' hc hmore
      cases more with
      | nil => cases h
      | cons d more =>
        rw [List.cons_append] at hmore
        obtain ⟨rfl, -⟩ := List.cons.inj hmore
        exact hopen _ hc rfl

/-- A comment between `/*` and `*/` does not touch what follows it. -/
theorem cuts_block_append {inner after : List Char} (rest : List Char)
    (h : Literal.afterBlockComment inner = some after) :
    ∃ body, inner = body ++ after ∧ Cuts .comment ('/' :: '*' :: body) (after ++ rest) := by
  obtain ⟨body, rfl, -⟩ := cuts_block h
  obtain ⟨body', hbody, hcuts⟩ := cuts_block (afterBlockComment_append rest h)
  rw [List.append_assoc] at hbody
  exact ⟨body, rfl, List.append_cancel_right hbody ▸ hcuts⟩

/-- A comment between `/*` and `*/` separates what follows it from what stands before it. -/
theorem tokens_ofText_block {inner after : List Char} (rest : List Char)
    (h : Literal.afterBlockComment inner = some after) :
    tokens (ofText ('/' :: '*' :: inner ++ rest)) = tokens (ofText (after ++ rest)) := by
  obtain ⟨body, rfl, hcuts⟩ := cuts_block_append rest h
  rw [List.cons_append, List.cons_append, List.append_assoc, ← List.cons_append,
    ← List.cons_append, ofText_of_cuts hcuts]
  rfl

/-- Closed comments only separate what follows them from what stands before them. -/
theorem tokens_ofText_closed {text : List Char} (rest : List Char) (h : IsClosed text) :
    tokens (ofText (text ++ rest)) = tokens (ofText rest) := by
  have hpieces : Pieces text := pieces_of_isOrdinary fun l hl => .inr (h l hl).1
  induction hpieces with
  | nil => rfl
  | @gap c more hc _ ih =>
    have hall : ∀ x ∈ c :: more.takeWhile isGap, isGap x = true :=
      List.forall_mem_cons.mpr ⟨hc, fun x hx => List.mem_takeWhile_imp hx⟩
    have hsplit : c :: more = c :: more.takeWhile isGap ++ more.dropWhile isGap := by
      rw [List.cons_append, List.takeWhile_append_dropWhile]
    have hmore : IsClosed (more.dropWhile isGap) := fun l hl =>
      h l (ofText_of_isGap more hc ▸ List.mem_cons_of_mem _ hl)
    rw [hsplit, List.append_assoc, tokens_ofText_append _ hall, ih hmore]
  | @plain kind piece after hcuts hkind _ _ =>
    have hpiece := (h ⟨kind, piece⟩ (ofText_of_cuts hcuts ▸ List.mem_cons_self)).1
    rw [separates_eq_false hkind] at hpiece
    cases hpiece
  | block hinner _ ih =>
    obtain ⟨body, hfirst⟩ := exists_ofText_block hinner
    rw [tokens_ofText_block rest hinner,
      ih fun l hl => h l (hfirst ▸ List.mem_cons_of_mem _ hl)]
  | lineComment inner =>
    obtain ⟨l, lexemes, hfirst, hline⟩ := exists_ofText_lineComment inner
    exact absurd h (not_isClosed_of_isLineBound hfirst hline)
  | hashed hrest =>
    obtain ⟨l, lexemes, hfirst, hline⟩ := exists_ofText_hashed hrest
    exact absurd h (not_isClosed_of_isLineBound hfirst hline)

end Lexeme

end Backfield.CSharp
