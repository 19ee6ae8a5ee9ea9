import Mathlib.Data.List.Infix
import Backfield.CSharp.Tree

/-!
# The tokens of a forest

Grouping tokens into trees neither makes a token up nor changes their order; only closing
brackets and `#endif`s that close nothing are dropped.

* `Building.tokens` are the tokens that a state of building holds.
* `sublist_tokens_add` is the step: one more token at the end, or none.
* `sublist_tokens_ofTokens` is the result for a whole text.
-/

namespace Backfield.CSharp

namespace Tree

@[simp] theorem tokensOf_nil : tokensOf [] = [] := rfl

@[simp] theorem tokensOf_cons (tree : Tree) (rest : List Tree) :
    tokensOf (tree :: rest) = tree.tokens ++ tokensOf rest := rfl

@[simp] theorem tokens_leaf (t : Token) : (leaf t).tokens = [t] := rfl

@[simp] theorem tokens_group (opener closer : Token) (items : List Tree) :
    (group opener items closer).tokens = opener :: (tokensOf items ++ [closer]) := rfl

@[simp] theorem tokens_unclosed (opener : Token) (items : List Tree) :
    (unclosed opener items).tokens = opener :: tokensOf items := rfl

@[simp] theorem tokensOf_append (trees more : List Tree) :
    tokensOf (trees ++ more) = tokensOf trees ++ tokensOf more := by
  induction trees with
  | nil => rfl
  | cons tree rest ih => simp [ih]

/-- The tokens of some of the trees are some of the tokens. -/
theorem sublist_tokensOf {trees more : List Tree} (h : trees.Sublist more) :
    (tokensOf trees).Sublist (tokensOf more) := by
  induction h with
  | slnil => exact List.Sublist.refl _
  | cons tree _ ih => exact ih.trans (List.sublist_append_right _ _)
  | cons_cons tree _ ih => exact (List.Sublist.refl tree.tokens).append ih

/-! ## States of building -/

/-- The tokens of the open levels, of which the innermost one is the first. -/
def tokensOfLevels : List Level → List Token
  | [] => []
  | level :: levels =>
    tokensOfLevels levels ++ (tokensOf level.before.reverse ++ [level.opener])

/-- The tokens that have been taken in, in order. -/
def Building.tokens (b : Building) : List Token :=
  tokensOfLevels b.levels ++ tokensOf b.here.reverse

theorem tokens_giveUp (line : Nat) (level : Level) (levels : List Level) (b : Building)
    (hlevels : b.levels = level :: levels) : (giveUp line level levels b).tokens = b.tokens := by
  simp [Building.tokens, giveUp, hlevels, tokensOfLevels]

theorem tokens_giveUpWhile (test : Level → Bool) (line : Nat) (levels : List Level)
    (b : Building) (hlevels : b.levels = levels) :
    (giveUpWhile test line levels b).tokens = b.tokens := by
  induction levels generalizing b with
  | nil => rfl
  | cons level levels ih =>
    rw [giveUpWhile]
    split
    · rw [ih (giveUp line level levels b) rfl, tokens_giveUp line level levels b hlevels]
    · rfl

theorem tokens_push (b : Building) (t : Token) : (b.push t).tokens = b.tokens ++ [t] := by
  simp [Building.tokens, Building.push]

/-- Closing a level adds the closing bracket; without a level nothing happens. -/
theorem sublist_tokens_closeLevel (t : Token) (b : Building) :
    (closeLevel t b).tokens.Sublist (b.tokens ++ [t]) := by
  unfold closeLevel
  split
  · exact List.sublist_append_left _ _
  · rename_i level levels heq
    simp [Building.tokens, heq, tokensOfLevels]

/-- Taking in a token adds it at the end, or drops it. -/
theorem sublist_tokens_add (b : Building) (t : Token) :
    (b.add t).tokens.Sublist (b.tokens ++ [t]) := by
  have hkeep : ∀ test line, (giveUpWhile test line b.levels b).tokens = b.tokens :=
    fun test line => tokens_giveUpWhile test line b.levels b rfl
  unfold Building.add
  split
  · simp [Building.tokens, tokensOfLevels]
  · split
    · dsimp only
      split
      · rw [← hkeep (fun _ => true) t.missedLine]
        exact sublist_tokens_closeLevel t _
      · have hsame := hkeep (fun _ => true) t.missedLine
        simp only [Building.tokens] at hsame ⊢
        rw [hsame]
        exact List.sublist_append_left _ _
    · split
      · split
        · rename_i opening _ _
          rw [← hkeep (fun level => !level.opener.isSymbol opening) t.missedLine]
          exact sublist_tokens_closeLevel t _
        · exact List.sublist_append_left _ _
      · split
        · rw [tokens_push, hkeep]
        · rw [tokens_push]

theorem tokens_finish (lastLine : Nat) (levels : List Level) (b : Building)
    (hlevels : b.levels = levels) : (Building.finish lastLine levels b).tokens = b.tokens := by
  induction levels generalizing b with
  | nil => rfl
  | cons level levels ih =>
    rw [Building.finish]
    split
    · rw [ih _ rfl, tokens_giveUp lastLine level levels b hlevels]
    · rw [ih _ rfl]
      simp [Building.tokens, hlevels, tokensOfLevels]

theorem levels_finish (lastLine : Nat) (levels : List Level) (b : Building)
    (hlevels : b.levels = levels) : (Building.finish lastLine levels b).levels = [] := by
  induction levels generalizing b with
  | nil => exact hlevels
  | cons level levels ih =>
    rw [Building.finish]
    split
    · exact ih _ rfl
    · exact ih _ rfl

/-- All tokens in turn: what is held is what was there and some of the tokens. -/
theorem sublist_tokens_foldl (tokens : List Token) (b : Building) :
    (tokens.foldl Building.add b).tokens.Sublist (b.tokens ++ tokens) := by
  induction tokens generalizing b with
  | nil => simp
  | cons t rest ih =>
    have hstep := (ih (b.add t)).trans ((sublist_tokens_add b t).append (List.Sublist.refl rest))
    simpa using hstep

end Tree

/-- The tokens of a forest are tokens of its text, in their order. -/
theorem Forest.sublist_tokens_ofTokens (list : TokenList) :
    (Tree.tokensOf (Forest.ofTokens list).trees).Sublist list.tokens := by
  have hread := Tree.sublist_tokens_foldl list.tokens {}
  have hfinish := Tree.tokens_finish list.lastLine _ (list.tokens.foldl Tree.Building.add {}) rfl
  have hlevels := Tree.levels_finish list.lastLine _ (list.tokens.foldl Tree.Building.add {}) rfl
  rw [← hfinish, Tree.Building.tokens, hlevels] at hread
  simpa [Forest.ofTokens, Tree.tokensOfLevels, Tree.Building.tokens] using hread

end Backfield.CSharp
