import Backfield.Proofs.CSharp.Forest
import Backfield.Proofs.CSharp.Ink

/-!
# Sketches of trees

What the trees of a text look like if it is written with matching brackets.  A `Sketch` is a tree
of inks, and a tree fits it if its tokens show them.

* `add_word`, `add_symbol`, `add_opener` and `add_closer` say what one more token does.
* `Builds` is what it does together with its kin: building takes in some tokens and has trees with
  these tokens instead.
* `Forest.exists_fits` is the result: a text that shows the inks of sound sketches has fitting
  trees, and its brackets match.
-/

namespace Backfield.CSharp

/-- A tree of inks. -/
inductive Sketch
  | leaf (ink : Ink)
  | group (opener : Ink) (items : List Sketch) (closer : Ink)
  deriving Repr

namespace Sketch

mutual

/-- The inks of a sketch, in order. -/
def inks : Sketch → List Ink
  | leaf ink => [ink]
  | group opener items closer => opener :: (inksOf items ++ [closer])
termination_by structural sketch => sketch

/-- The inks of successive sketches. -/
def inksOf : List Sketch → List Ink
  | [] => []
  | sketch :: rest => sketch.inks ++ inksOf rest
termination_by structural sketches => sketches

end

@[simp] theorem inksOf_nil : inksOf [] = [] := rfl

@[simp] theorem inksOf_cons (sketch : Sketch) (rest : List Sketch) :
    inksOf (sketch :: rest) = sketch.inks ++ inksOf rest := rfl

@[simp] theorem inks_leaf (ink : Ink) : (leaf ink).inks = [ink] := rfl

@[simp] theorem inks_group (opener closer : Ink) (items : List Sketch) :
    (group opener items closer).inks = opener :: (inksOf items ++ [closer]) := rfl

@[simp] theorem inksOf_append (sketches more : List Sketch) :
    inksOf (sketches ++ more) = inksOf sketches ++ inksOf more := by
  induction sketches with
  | nil => rfl
  | cons sketch rest ih => simp [ih]

@[simp] theorem inksOf_map_leaf (inks : List Ink) : inksOf (inks.map leaf) = inks := by
  induction inks with
  | nil => rfl
  | cons ink rest ih => simp [ih]

/-! ## Brackets -/

/-- The ink is no bracket and, within parentheses, no semicolon. -/
def isPlain (round : Bool) (ink : Ink) : Bool :=
  ink.kind == .word || (ink.kind == .symbol &&
    !(["(", ")", "[", "]", "\x7b", "\x7d"].contains ink.text) && !(round && ink.text == ";"))

/-- The inks are a pair of parentheses or of braces. -/
def isPair (opener closer : Ink) : Bool :=
  opener.kind == .symbol && closer.kind == .symbol &&
    [("(", ")"), ("\x7b", "\x7d")].contains (opener.text, closer.text)

mutual

/-- Brackets are where groups begin and end.  `round` tells whether the sketch stands directly
within parentheses. -/
def isSound (round : Bool) : Sketch → Bool
  | leaf ink => isPlain round ink
  | group opener items closer =>
    isPair opener closer && areSound (opener.text == "(") items
termination_by structural sketch => sketch

def areSound (round : Bool) : List Sketch → Bool
  | [] => true
  | sketch :: rest => sketch.isSound round && areSound round rest
termination_by structural sketches => sketches

end

theorem areSound_append (round : Bool) (sketches more : List Sketch) :
    areSound round (sketches ++ more) = (areSound round sketches && areSound round more) := by
  induction sketches with
  | nil => rfl
  | cons sketch rest ih => rw [List.cons_append, areSound, areSound, ih, Bool.and_assoc]

theorem areSound_map_leaf (round : Bool) (inks : List Ink) :
    areSound round (inks.map leaf) = inks.all (isPlain round) := by
  induction inks with
  | nil => rfl
  | cons ink rest ih => rw [List.map_cons, areSound, isSound, ih, List.all_cons]

end Sketch

/-- What is related to two lists one after the other splits in the same way. -/
theorem exists_append_of_forall₂ {α β : Type} {r : α → β → Prop} {as : List α} {bs cs : List β}
    (h : List.Forall₂ r as (bs ++ cs)) :
    ∃ front back, as = front ++ back ∧ List.Forall₂ r front bs ∧ List.Forall₂ r back cs :=
  ⟨_, _, (List.take_append_drop bs.length as).symm, List.forall₂_take_append as bs cs h,
    List.forall₂_drop_append as bs cs h⟩

/-- What has been taken from a list is found by what is left of it. -/
theorem take_length_sub {α : Type} (front back : List α) :
    (front ++ back).take ((front ++ back).length - back.length) = front := by
  simp

theorem exists_singleton_of_forall₂ {α β : Type} {r : α → β → Prop} {as : List α} {b : β}
    (h : List.Forall₂ r as [b]) : ∃ a, as = [a] ∧ r a b := by
  obtain ⟨a, rest, ha, hrest, rfl⟩ := List.forall₂_cons_right_iff.mp h
  obtain rfl := List.forall₂_nil_right_iff.mp hrest
  exact ⟨a, rfl, ha⟩

theorem exists_pair_of_forall₂ {α β : Type} {r : α → β → Prop} {as : List α} {b b' : β}
    (h : List.Forall₂ r as [b, b']) : ∃ a a', as = [a, a'] ∧ r a b ∧ r a' b' := by
  obtain ⟨a, rest, ha, hrest, rfl⟩ := List.forall₂_cons_right_iff.mp h
  obtain ⟨a', rfl, ha'⟩ := exists_singleton_of_forall₂ hrest
  exact ⟨a, a', rfl, ha, ha'⟩

open Backfield.CSharp.Tree (Level Building isRound isOpener opening? giveUpWhile closeLevel canClose)

/-- The tokens of the tree show the inks of the sketch, and its groups are the same. -/
inductive Tree.Fits : Tree → Sketch → Prop
  | leaf {t : Token} {ink : Ink} : t.Shows ink → Fits (.leaf t) (.leaf ink)
  | group {opener closer : Token} {items : List Tree} {first last : Ink}
      {sketches : List Sketch} :
    opener.Shows first → List.Forall₂ Fits items sketches → closer.Shows last →
      Fits (.group opener items closer) (.group first sketches last)

namespace Tree

/-! ## Building -/

/-- The innermost level is one of parentheses only if `round` is set. -/
def IsWithin (round : Bool) (b : Building) : Prop :=
  round = false → ∀ level ∈ b.levels.head?, isRound level.opener = false

theorem add_word {t : Token} (b : Building) (ht : t.kind = .word) : b.add t = b.push t := by
  have hsymbol : ∀ symbol, t.isSymbol symbol = false := fun symbol => by
    simp [Token.isSymbol, ht]
  have hopener : ¬isOpener t = true := by simp [isOpener, isRound, hsymbol, ht]
  have hopening : opening? t = none := by simp [opening?, hsymbol]
  rw [Building.add, if_neg hopener, if_neg (by simp [ht]), hopening]
  dsimp only
  rw [if_neg (by simp [hsymbol])]

theorem isSymbol_of_kind {t : Token} (ht : t.kind = .symbol) (symbol : String) :
    t.isSymbol symbol = (t.text == symbol) := by
  simp [Token.isSymbol, ht]

theorem add_symbol {t : Token} {b : Building} {round : Bool} (ht : t.kind = .symbol)
    (hplain : ["(", ")", "[", "]", "\x7b", "\x7d"].contains t.text = false)
    (hsemicolon : round = true → t.text ≠ ";") (hb : IsWithin round b) : b.add t = b.push t := by
  simp only [List.contains_cons, List.contains_nil, Bool.or_false, Bool.or_eq_false_iff] at hplain
  have hopener : ¬isOpener t = true := by
    simp [isOpener, isRound, isSymbol_of_kind ht, hplain, ht]
  have hopening : opening? t = none := by simp [opening?, isSymbol_of_kind ht, hplain]
  rw [Building.add, if_neg hopener, if_neg (by simp [ht]), hopening]
  dsimp only
  split
  · -- A semicolon gives up parentheses, and here are none to give up.
    rename_i hend
    have hround : round = false := by
      cases round with
      | false => rfl
      | true => exact absurd (by simpa [isSymbol_of_kind ht] using hend) (hsemicolon rfl)
    cases hlevels : b.levels with
    | nil => rw [giveUpWhile]
    | cons level levels =>
      have hlevel := hb hround level (by rw [hlevels]; rfl)
      rw [giveUpWhile, if_neg (by simp [hlevel])]
  · rfl

theorem add_opener {t : Token} (b : Building) (ht : t.kind = .symbol)
    (htext : t.text = "(" ∨ t.text = "\x7b") :
    b.add t = { b with here := [], levels := ⟨t, b.here⟩ :: b.levels } := by
  have hopener : isOpener t = true := by
    rcases htext with h | h
    · simp [isOpener, isRound, isSymbol_of_kind ht, h]
    · simp [isOpener, isRound, isSymbol_of_kind ht, h]
  rw [Building.add, if_pos hopener]

theorem add_closer {opener closer : Token} {b : Building} {before : List Tree}
    {levels : List Level} (hlevels : b.levels = ⟨opener, before⟩ :: levels)
    (hopener : opener.kind = .symbol) (hcloser : closer.kind = .symbol)
    (htexts : (opener.text, closer.text) ∈ [("(", ")"), ("\x7b", "\x7d")]) :
    b.add closer = { b with here := group opener b.here.reverse closer :: before, levels } := by
  have hmatch : ¬isOpener closer = true ∧ opening? closer = some opener.text := by
    simp only [List.mem_cons, Prod.mk.injEq, List.not_mem_nil, or_false] at htexts
    rcases htexts with ⟨ho, hc⟩ | ⟨ho, hc⟩
    · simp [isOpener, isRound, opening?, isSymbol_of_kind hcloser, hc, hcloser, ho]
    · simp [isOpener, isRound, opening?, isSymbol_of_kind hcloser, hc, hcloser, ho]
  have hsame : opener.isSymbol opener.text = true := by simp [isSymbol_of_kind hopener]
  rw [Building.add, if_neg hmatch.1, if_neg (by simp [hcloser]), hmatch.2]
  dsimp only
  rw [hlevels, if_pos (by simp [canClose, hsame]), giveUpWhile, if_neg (by simp [hsame]),
    closeLevel, hlevels]

/-! ## Fitting trees -/

open Sketch (inks inksOf isSound areSound isPlain isPair)

/-- Building takes in the tokens that show a sketch and has a fitting tree instead. -/
def Builds (round : Bool) (tokens : List Token) (trees : List Tree) : Prop :=
  tokensOf trees = tokens ∧ ∀ b, IsWithin round b →
    tokens.foldl Building.add b = { b with here := trees.reverse ++ b.here }

theorem Builds.append {round : Bool} {tokens more : List Token} {trees others : List Tree}
    (h : Builds round tokens trees) (hmore : Builds round more others) :
    Builds round (tokens ++ more) (trees ++ others) := by
  refine ⟨by rw [tokensOf_append, h.1, hmore.1], fun b hb => ?_⟩
  rw [List.foldl_append, h.2 b hb, hmore.2 { b with here := trees.reverse ++ b.here } hb]
  simp

theorem builds_leaf {round : Bool} {t : Token} {ink : Ink} (hplain : isPlain round ink = true)
    (ht : t.Shows ink) : Builds round [t] [leaf t] := by
  refine ⟨rfl, fun b hb => ?_⟩
  simp only [isPlain, Bool.or_eq_true, beq_iff_eq, Bool.and_eq_true, Bool.not_eq_true',
    ← ht.kind, ← ht.text] at hplain
  rcases hplain with hword | ⟨⟨hsymbol, hbracket⟩, hsemicolon⟩
  · exact add_word b hword
  · refine add_symbol hsymbol hbracket (fun hround htext => ?_) hb
    rw [hround, htext] at hsemicolon
    cases hsemicolon

theorem builds_group {round : Bool} {opener closer : Token} {first last : Ink}
    {tokens : List Token} {items : List Tree} (hpair : isPair first last = true)
    (hopener : opener.Shows first) (hcloser : closer.Shows last)
    (hitems : Builds (first.text == "(") tokens items) :
    Builds round (opener :: (tokens ++ [closer])) [group opener items closer] := by
  simp only [isPair, Bool.and_eq_true, beq_iff_eq, List.contains_iff_mem, ← hopener.kind,
    ← hopener.text, ← hcloser.kind, ← hcloser.text] at hpair
  obtain ⟨⟨hfirst, hlast⟩, htexts⟩ := hpair
  have htext : opener.text = "(" ∨ opener.text = "\x7b" := by
    simp only [List.mem_cons, Prod.mk.injEq, List.not_mem_nil, or_false] at htexts
    exact htexts.imp And.left And.left
  refine ⟨by simp [hitems.1], fun b _ => ?_⟩
  have hwithin : IsWithin (first.text == "(")
      { b with here := [], levels := ⟨opener, b.here⟩ :: b.levels } := by
    rintro hround level ⟨⟩
    rw [← hopener.text] at hround
    have hbrace := htext.resolve_left (by simpa using hround)
    simp [isRound, isSymbol_of_kind hfirst, hbrace]
  rw [List.foldl_cons, List.foldl_append, add_opener b hfirst htext, hitems.2 _ hwithin,
    List.foldl_cons, List.foldl_nil, add_closer rfl hfirst hlast htexts]
  simp

mutual

/-- Tokens that show a sound sketch are those of a tree that fits it. -/
theorem exists_fits (round : Bool) :
    ∀ (sketch : Sketch) (tokens : List Token), sketch.isSound round = true →
      List.Forall₂ Token.Shows tokens sketch.inks →
        ∃ tree, Fits tree sketch ∧ Builds round tokens [tree]
  | .leaf ink, tokens, hsound, hshows => by
    obtain ⟨t, rfl, ht⟩ := exists_singleton_of_forall₂ hshows
    exact ⟨leaf t, Fits.leaf ht, builds_leaf hsound ht⟩
  | .group first sketches last, tokens, hsound, hshows => by
    simp only [isSound, Bool.and_eq_true] at hsound
    obtain ⟨opener, rest, hopener, hrest, rfl⟩ := List.forall₂_cons_right_iff.mp hshows
    obtain ⟨inside, outside, rfl, hinside, houtside⟩ := exists_append_of_forall₂ hrest
    obtain ⟨closer, rfl, hcloser⟩ := exists_singleton_of_forall₂ houtside
    obtain ⟨items, hfits, hbuilds⟩ :=
      exists_forall₂_fits (first.text == "(") sketches inside hsound.2 hinside
    exact ⟨group opener items closer, Fits.group hopener hfits hcloser,
      builds_group hsound.1 hopener hcloser hbuilds⟩

/-- Tokens that show sound sketches are those of trees that fit them. -/
theorem exists_forall₂_fits (round : Bool) :
    ∀ (sketches : List Sketch) (tokens : List Token), areSound round sketches = true →
      List.Forall₂ Token.Shows tokens (inksOf sketches) →
        ∃ trees, List.Forall₂ Fits trees sketches ∧ Builds round tokens trees
  | [], tokens, _, hshows => by
    obtain rfl := List.forall₂_nil_right_iff.mp hshows
    exact ⟨[], List.Forall₂.nil, rfl, fun _ _ => rfl⟩
  | sketch :: rest, tokens, hsound, hshows => by
    simp only [areSound, Bool.and_eq_true] at hsound
    obtain ⟨front, back, rfl, hfront, hback⟩ := exists_append_of_forall₂ hshows
    obtain ⟨tree, hfits, hbuilds⟩ := exists_fits round sketch front hsound.1 hfront
    obtain ⟨trees, hall, hmore⟩ := exists_forall₂_fits round rest back hsound.2 hback
    exact ⟨tree :: trees, List.Forall₂.cons hfits hall, hbuilds.append hmore⟩

end

/-- What holds of each tree that fits an ink holds of all trees that fit the inks. -/
theorem forall_mem_of_leaves {p : Tree → Prop} {trees : List Tree} {inks : List Ink}
    (h : List.Forall₂ Fits trees (inks.map Sketch.leaf))
    (hp : ∀ tree, ∀ ink ∈ inks, Fits tree (.leaf ink) → p tree) : ∀ tree ∈ trees, p tree := by
  rw [List.forall₂_map_right_iff] at h
  induction h with
  | nil => exact fun tree htree => absurd htree List.not_mem_nil
  | @cons first ink _ _ hfirst _ ih =>
    intro tree htree
    rcases List.mem_cons.mp htree with rfl | htree
    · exact hp _ ink List.mem_cons_self hfirst
    · exact ih (fun other more hmore => hp other more (List.mem_cons_of_mem _ hmore)) tree htree

/-- The tokens of fitting trees show the inks. -/
theorem shows_tokensOf_leaves {trees : List Tree} {inks : List Ink}
    (h : List.Forall₂ Fits trees (inks.map Sketch.leaf)) :
    List.Forall₂ Token.Shows (tokensOf trees) inks := by
  induction inks generalizing trees with
  | nil =>
    obtain rfl := List.forall₂_nil_right_iff.mp h
    exact List.Forall₂.nil
  | cons ink rest ih =>
    obtain ⟨tree, others, htree, hothers, rfl⟩ := List.forall₂_cons_right_iff.mp h
    cases htree with
    | leaf ht => exact List.Forall₂.cons ht (ih hothers)

end Tree

/-- A text that shows the inks of sound sketches has fitting trees, and its brackets match. -/
theorem Forest.exists_fits {list : TokenList} {sketches : List Sketch}
    (hsound : Sketch.areSound false sketches = true)
    (h : List.Forall₂ Token.Shows list.tokens (Sketch.inksOf sketches)) :
    ∃ trees, List.Forall₂ Tree.Fits trees sketches ∧ Forest.ofTokens list = ⟨trees, []⟩ := by
  obtain ⟨trees, hfits, -, hbuilds⟩ := Tree.exists_forall₂_fits false sketches _ hsound h
  have hread := hbuilds {} fun _ _ hlevel => by cases hlevel
  refine ⟨trees, hfits, ?_⟩
  rw [Forest.ofTokens, hread]
  simp [Tree.Building.finish]

end Backfield.CSharp
