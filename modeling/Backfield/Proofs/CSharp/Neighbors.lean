import Backfield.CSharp.Declaration.Parser
import Backfield.Proofs.CSharp.Ink

/-!
# Inks that go together

No token lacks its operand, and no operator is missing, in a text of names and symbols in which a
name follows every symbol that asks for one.
-/

namespace Backfield.CSharp

namespace Ink

/-- A word has to follow. -/
def asksForWord (ink : Ink) : Bool :=
  ink.kind == .symbol && (Neighbors.openEnded ++ [".", "::", ",", "("]).contains ink.text

/-- A symbol, or a word that does not stand for a type. -/
def isQuiet (ink : Ink) : Bool :=
  ink.kind == .symbol || (ink.kind == .word && !Keyword.isType ink.text)

/-- Every symbol that asks for a word is followed by one.  `asked` tells whether the symbol before
asks. -/
def goTogether : (asked : Bool) → List Ink → Bool
  | asked, [] => !asked
  | asked, ink :: rest =>
    ink.isQuiet && (!asked || ink.kind == .word) && goTogether ink.asksForWord rest

/-- A word may stand anywhere. -/
theorem goTogether_word (asked : Bool) {text : String} (gap : Option String) (rest : List Ink)
    (h : Keyword.isType text = false) :
    goTogether asked (⟨.word, text, gap⟩ :: rest) = goTogether false rest := by
  have hquiet : isQuiet ⟨.word, text, gap⟩ = true := by simp [isQuiet, h]
  have hword : (LexemeKind.word == LexemeKind.word) = true := rfl
  rw [goTogether, hquiet, hword, Bool.or_true]
  rfl

theorem goTogether_append {asked : Bool} {inks more : List Ink}
    (h : goTogether asked inks = true) (hmore : goTogether false more = true) :
    goTogether asked (inks ++ more) = true := by
  induction inks generalizing asked with
  | nil =>
    obtain rfl : asked = false := by simpa [goTogether] using h
    exact hmore
  | cons ink rest ih =>
    simp only [goTogether, Bool.and_eq_true] at h
    simp only [List.cons_append, goTogether, Bool.and_eq_true]
    exact ⟨h.1, ih h.2⟩

end Ink

/-! ## Tokens -/

namespace Token

theorem kind_of_isQuiet {t : Token} {ink : Ink} (ht : t.Shows ink) (h : ink.isQuiet = true) :
    t.kind = .symbol ∨ (t.kind = .word ∧ Keyword.isType t.text = false) := by
  simpa [Ink.isQuiet, ← ht.kind, ← ht.text] using h

theorem isLiteral_eq_false {t : Token} {ink : Ink} (ht : t.Shows ink) (h : ink.isQuiet = true) :
    Neighbors.isLiteral t = false := by
  rcases kind_of_isQuiet ht h with hkind | ⟨hkind, -⟩
  · simp [Neighbors.isLiteral, hkind]
  · simp [Neighbors.isLiteral, hkind]

theorem lacksOperand_eq_false {a b : Token} {ink : Ink} (ha : a.Shows ink)
    (h : ink.asksForWord = true → b.kind = .word) : Neighbors.lacksOperand a b = false := by
  have hasks : ∀ symbols, (∀ s ∈ symbols, s ∈ Neighbors.openEnded ++ [".", "::", ",", "("]) →
      Neighbors.isSymbolOf a symbols = true → b.kind = .word := by
    intro symbols hsub ha'
    simp only [Neighbors.isSymbolOf, Bool.and_eq_true, beq_iff_eq, List.contains_iff_mem] at ha'
    refine h ?_
    simp only [Ink.asksForWord, ← ha.kind, ← ha.text, Bool.and_eq_true, beq_iff_eq,
      List.contains_iff_mem]
    exact ⟨ha'.1, hsub _ ha'.2⟩
  have hno : ∀ symbols, b.kind = .word → Neighbors.isSymbolOf b symbols = false := by
    intro symbols hb
    simp [Neighbors.isSymbolOf, hb]
  by_cases hb : b.kind = .word
  · simp [Neighbors.lacksOperand, hno, hb]
  · have hsymbols : ∀ symbols, (∀ s ∈ symbols, s ∈ Neighbors.openEnded ++ [".", "::", ",", "("]) →
        Neighbors.isSymbolOf a symbols = false := fun symbols hsub =>
      Bool.eq_false_iff.mpr fun ha' => hb (hasks symbols hsub ha')
    rw [Neighbors.lacksOperand, hsymbols _ fun s hs => List.mem_append_left _ hs,
      hsymbols [".", "::"] (by decide), hsymbols [","] (by decide), hsymbols ["("] (by decide)]
    rfl

/-- Inks that go together are no problem. -/
theorem problems_eq_nil {tokens : List Token} {inks : List Ink} {asked : Bool}
    (h : List.Forall₂ Token.Shows tokens inks) (hgo : Ink.goTogether asked inks = true) :
    Neighbors.problems tokens = [] := by
  induction h generalizing asked with
  | nil => rfl
  | @cons a ink tokens inks ha hrest ih =>
    simp only [Ink.goTogether, Bool.and_eq_true] at hgo
    have hmore := ih hgo.2
    cases hrest with
    | nil => rfl
    | @cons b next _ _ hb _ =>
      have hnext := hgo.2
      simp only [Ink.goTogether, Bool.and_eq_true, Bool.or_eq_true, Bool.not_eq_true', beq_iff_eq,
        ← hb.kind] at hnext
      have hword : ink.asksForWord = true → b.kind = .word := fun hasks =>
        hnext.1.2.resolve_left (by simp [hasks])
      have hend : Neighbors.lacksEnd a b = false := by
        rcases kind_of_isQuiet hb hnext.1.1 with hkind | ⟨-, htype⟩
        · simp [Neighbors.lacksEnd, hkind]
        · simp [Neighbors.lacksEnd, htype]
      have hoperator : Neighbors.lacksOperator a b = false := by
        simp [Neighbors.lacksOperator, isLiteral_eq_false ha hgo.1.1,
          isLiteral_eq_false hb hnext.1.1]
      rw [Neighbors.problems, lacksOperand_eq_false ha hword, hend, hoperator, hmore]
      rfl

/-- Words and symbols have their place in a text. -/
theorem filterMap_problem?_eq_nil {tokens : List Token} {inks : List Ink} {asked : Bool}
    (h : List.Forall₂ Token.Shows tokens inks) (hgo : Ink.goTogether asked inks = true) :
    tokens.filterMap (·.problem?) = [] := by
  induction h generalizing asked with
  | nil => rfl
  | @cons t ink tokens inks ht _ ih =>
    simp only [Ink.goTogether, Bool.and_eq_true] at hgo
    have hplace : t.problem? = none := by
      rcases kind_of_isQuiet ht hgo.1.1 with hkind | ⟨hkind, -⟩
      · simp [Token.problem?, hkind]
      · simp [Token.problem?, hkind]
    rw [List.filterMap_cons_none hplace, ih hgo.2]

end Token

end Backfield.CSharp
