import Mathlib.Tactic.SplitIfs
import Backfield.Proofs.CSharp.Remainder

/-!
# Trees without their names

The parser tells words apart only if they have a meaning of their own, and all of these begin with a
small letter.  `Token.mask` leaves out what the parser does not look at: the other words, what is
written in numbers and literals, and the gaps between tokens.

* `Keyword.contains_mask` says that no list of words with a meaning tells a word from its mask.
* The other lemmas about `mask` say, for each function that reads a token or a tree, that it gives
  the same of the mask, or the mask of what it gives.
* `Forest.ofTokens_mask` is the result for the trees that tokens are put together to.
-/

namespace Backfield.CSharp

/-! ## Words -/

namespace Keyword

/-- The word begins with a small ASCII letter, as all words do that have a meaning. -/
def isSmall (word : String) : Bool := word.toList.head?.any fun c => 'a' ≤ c && c ≤ 'z'

/-- The word, if it may have a meaning. -/
def mask (word : String) : String := if isSmall word then word else ""

variable {words : List String}

theorem mask_eq_iff (word : String) {other : String} (h : isSmall other = true) :
    mask word = other ↔ word = other := by
  rw [mask]
  split
  · exact Iff.rfl
  · rename_i hword
    refine iff_of_false ?_ ?_
    · rintro rfl
      cases h
    · rintro rfl
      exact hword h

theorem contains_mask (h : words.all isSmall = true) (word : String) :
    words.contains (mask word) = words.contains word := by
  rw [Bool.eq_iff_iff, List.contains_iff_mem, List.contains_iff_mem]
  have hiff : ∀ other ∈ words, mask word = other ↔ word = other := fun other hother =>
    mask_eq_iff word (List.all_eq_true.mp h other hother)
  constructor
  · intro hmem
    exact (hiff _ hmem).mp rfl ▸ hmem
  · intro hmem
    rwa [(hiff _ hmem).mpr rfl]

@[simp] theorem isType_mask (word : String) : isType (mask word) = isType word :=
  contains_mask (by decide) word

@[simp] theorem isReservedModifier_mask (word : String) :
    isReservedModifier (mask word) = isReservedModifier word :=
  contains_mask (by decide) word

@[simp] theorem isContextualModifier_mask (word : String) :
    isContextualModifier (mask word) = isContextualModifier word :=
  contains_mask (by decide) word

@[simp] theorem isReserved_mask (word : String) : isReserved (mask word) = isReserved word := by
  rw [isReserved, isType_mask, isReservedModifier_mask,
    contains_mask (show otherReserved.all Keyword.isSmall = true by decide)]
  rfl

end Keyword

/-! ## Tokens -/

namespace Token

/-- What the parser looks at of a token.  The source text from one token to another is not kept. -/
def mask (t : Token) : Token :=
  { t with
    text :=
      match t.kind with
      | .word => Keyword.mask t.text
      | .symbol => t.text
      | _ => ""
    gap := "" }

variable (t : Token)

@[simp] theorem kind_mask : t.mask.kind = t.kind := rfl

@[simp] theorem line_mask : t.mask.line = t.line := rfl

@[simp] theorem missedLine_mask : t.mask.missedLine = t.missedLine := rfl

@[simp] theorem isSymbol_mask (symbol : String) : t.mask.isSymbol symbol = t.isSymbol symbol := by
  rw [isSymbol, isSymbol, kind_mask]
  cases h : t.kind with
  | symbol => simp [mask, h]
  | _ => rfl

theorem text_mask (h : t.kind = .word) : t.mask.text = Keyword.mask t.text := by
  simp [mask, h]

/-- Words of a list with a meaning are told apart as before. -/
theorem contains_mask {words : List String} (hwords : words.all Keyword.isSmall = true) :
    (t.kind == .word && words.contains t.mask.text) =
      (t.kind == .word && words.contains t.text) := by
  cases h : t.kind with
  | word => rw [text_mask t h, Keyword.contains_mask hwords]
  | _ => rfl

@[simp] theorem isWord_mask {word : String} (hword : Keyword.isSmall word = true) :
    t.mask.isWord word = t.isWord word := by
  rw [isWord, isWord, kind_mask]
  cases h : t.kind with
  | word =>
    rw [text_mask t h, Bool.eq_iff_iff]
    simp [Keyword.mask_eq_iff _ hword]
  | _ => rfl

@[simp] theorem problem?_mask : t.mask.problem? = t.problem? := rfl

end Token

/-! ## Trees -/

namespace Tree

mutual

def mask : Tree → Tree
  | leaf t => leaf t.mask
  | group opener items closer => group opener.mask (maskAll items) closer.mask
  | unclosed opener items => unclosed opener.mask (maskAll items)
termination_by structural tree => tree

def maskAll : List Tree → List Tree
  | [] => []
  | tree :: rest => tree.mask :: maskAll rest
termination_by structural trees => trees

end

@[simp] theorem mask_leaf (t : Token) : (leaf t).mask = leaf t.mask := rfl

@[simp] theorem mask_group (opener closer : Token) (items : List Tree) :
    (group opener items closer).mask = group opener.mask (maskAll items) closer.mask := rfl

@[simp] theorem mask_unclosed (opener : Token) (items : List Tree) :
    (unclosed opener items).mask = unclosed opener.mask (maskAll items) := rfl

theorem maskAll_eq_map (trees : List Tree) : maskAll trees = trees.map mask := by
  induction trees with
  | nil => rfl
  | cons tree rest ih => rw [maskAll, ih, List.map_cons]

@[simp] theorem maskAll_nil : maskAll [] = [] := rfl

@[simp] theorem maskAll_cons (tree : Tree) (rest : List Tree) :
    maskAll (tree :: rest) = tree.mask :: maskAll rest := rfl

@[simp] theorem maskAll_append (trees others : List Tree) :
    maskAll (trees ++ others) = maskAll trees ++ maskAll others := by
  simp [maskAll_eq_map]

@[simp] theorem maskAll_reverse (trees : List Tree) :
    maskAll trees.reverse = (maskAll trees).reverse := by simp [maskAll_eq_map]

@[simp] theorem length_maskAll (trees : List Tree) : (maskAll trees).length = trees.length := by
  simp [maskAll_eq_map]

@[simp] theorem isEmpty_maskAll (trees : List Tree) : (maskAll trees).isEmpty = trees.isEmpty := by
  cases trees <;> rfl

theorem drop_maskAll (n : Nat) (trees : List Tree) :
    (maskAll trees).drop n = maskAll (trees.drop n) := by simp [maskAll_eq_map]

theorem take_maskAll (n : Nat) (trees : List Tree) :
    (maskAll trees).take n = maskAll (trees.take n) := by simp [maskAll_eq_map]

theorem getLast?_maskAll (trees : List Tree) :
    (maskAll trees).getLast? = trees.getLast?.map mask := by
  simp [maskAll_eq_map, List.getLast?_map]

/-- A test that does not look at names passes over the same trees. -/
theorem dropWhile_maskAll {test : Tree → Bool} (h : ∀ tree, test tree.mask = test tree)
    (trees : List Tree) : (maskAll trees).dropWhile test = maskAll (trees.dropWhile test) := by
  induction trees with
  | nil => rfl
  | cons tree rest ih =>
    rw [maskAll_cons, List.dropWhile_cons, List.dropWhile_cons, h, ih]
    split <;> rfl

theorem takeWhile_maskAll {test : Tree → Bool} (h : ∀ tree, test tree.mask = test tree)
    (trees : List Tree) : (maskAll trees).takeWhile test = maskAll (trees.takeWhile test) := by
  induction trees with
  | nil => rfl
  | cons tree rest ih =>
    rw [maskAll_cons, List.takeWhile_cons, List.takeWhile_cons, h, ih]
    split <;> rfl

theorem filter_maskAll {test : Tree → Bool} (h : ∀ tree, test tree.mask = test tree)
    (trees : List Tree) : (maskAll trees).filter test = maskAll (trees.filter test) := by
  rw [maskAll_eq_map, maskAll_eq_map, List.filter_map]
  congr 1
  exact List.filter_congr fun tree _ => h tree

theorem any_maskAll {test : Tree → Bool} (h : ∀ tree, test tree.mask = test tree)
    (trees : List Tree) : (maskAll trees).any test = trees.any test := by
  rw [maskAll_eq_map, List.any_map]
  exact congrArg trees.any (funext h)

theorem all_maskAll {test : Tree → Bool} (h : ∀ tree, test tree.mask = test tree)
    (trees : List Tree) : (maskAll trees).all test = trees.all test := by
  rw [maskAll_eq_map, List.all_map]
  exact congrArg trees.all (funext h)

theorem head?_any_maskAll {test : Tree → Bool} (h : ∀ tree, test tree.mask = test tree)
    (trees : List Tree) : (maskAll trees).head?.any test = trees.head?.any test := by
  cases trees with
  | nil => rfl
  | cons tree rest => exact h tree

theorem getLast?_any_maskAll {test : Tree → Bool} (h : ∀ tree, test tree.mask = test tree)
    (trees : List Tree) : (maskAll trees).getLast?.any test = trees.getLast?.any test := by
  rw [getLast?_maskAll, Option.any_map]
  exact congrArg (Option.any · _) (funext h)

/-! ### One tree -/

section

variable (tree : Tree)

@[simp] theorem first_mask : tree.mask.first = tree.first.mask := by cases tree <;> rfl

@[simp] theorem token?_mask : tree.mask.token? = tree.token?.map Token.mask := by
  cases tree <;> rfl

@[simp] theorem isSymbol_mask (symbol : String) :
    tree.mask.isSymbol symbol = tree.isSymbol symbol := by
  simp [isSymbol, Option.any_map]

@[simp] theorem isWord_mask {word : String} (h : Keyword.isSmall word = true) :
    tree.mask.isWord word = tree.isWord word := by
  simp [isWord, Option.any_map, h]

@[simp] theorem word?_mask : tree.mask.word? = tree.word?.map Keyword.mask := by
  cases tree with
  | leaf t =>
    rw [word?, word?, mask_leaf, token?, token?, Option.bind_some, Option.bind_some,
      Token.kind_mask]
    cases h : t.kind with
    | word => exact congrArg some (Token.text_mask t h)
    | _ => rfl
  | group opener items closer => rfl
  | unclosed opener items => rfl

@[simp] theorem groupItems?_mask (opening : String) :
    tree.mask.groupItems? opening = (tree.groupItems? opening).map maskAll := by
  cases tree with
  | leaf t => rfl
  | group opener items closer =>
    rw [mask_group, groupItems?, groupItems?, Token.isSymbol_mask]
    split <;> rfl
  | unclosed opener items => rfl

@[simp] theorem isGroup_mask (opening : String) :
    tree.mask.isGroup opening = tree.isGroup opening := by
  simp [isGroup]

/-- A test of the word does not look at names. -/
theorem word?_any_mask {test : String → Bool} (h : ∀ word, test (Keyword.mask word) = test word) :
    tree.mask.word?.any test = tree.word?.any test := by
  rw [word?_mask, Option.any_map]
  exact congrArg (Option.any · _) (funext h)

theorem word?_any_contains_mask {words : List String} (h : words.all Keyword.isSmall = true) :
    tree.mask.word?.any words.contains = tree.word?.any words.contains :=
  word?_any_mask tree (Keyword.contains_mask h)

@[simp] theorem isSome_word?_mask : tree.mask.word?.isSome = tree.word?.isSome := by simp

end

/-! ### Building -/

def Level.mask (level : Level) : Level := ⟨level.opener.mask, maskAll level.before⟩

def Building.mask (b : Building) : Building :=
  { b with here := maskAll b.here, levels := b.levels.map Level.mask }

@[simp] theorem isRound_mask (t : Token) : isRound t.mask = isRound t := by simp [isRound]

@[simp] theorem isOpener_mask (t : Token) : isOpener t.mask = isOpener t := by simp [isOpener]

@[simp] theorem opening?_mask (t : Token) : opening? t.mask = opening? t := by simp [opening?]

theorem holdsSemicolons_mask (level : Level) :
    holdsSemicolons level.mask = holdsSemicolons level := by
  simp only [holdsSemicolons, Level.mask, Token.isSymbol_mask]
  rw [head?_any_maskAll fun tree => isWord_mask tree (by decide)]

theorem giveUp_mask (line : Nat) (level : Level) (levels : List Level) (b : Building) :
    giveUp line level.mask (levels.map Level.mask) b.mask = (giveUp line level levels b).mask := by
  simp [giveUp, Building.mask, Level.mask]

theorem giveUpWhile_mask {test : Level → Bool} (h : ∀ level, test level.mask = test level)
    (line : Nat) (levels : List Level) (b : Building) :
    giveUpWhile test line (levels.map Level.mask) b.mask =
      (giveUpWhile test line levels b).mask := by
  induction levels generalizing b with
  | nil => rfl
  | cons level levels ih =>
    rw [List.map_cons, giveUpWhile, giveUpWhile, h, giveUp_mask, ih]
    simp only [Level.mask, isRound_mask]
    split <;> rfl

theorem canClose_mask (opening : String) (levels : List Level) :
    canClose opening (levels.map Level.mask) = canClose opening levels := by
  induction levels with
  | nil => rfl
  | cons level levels ih => simp [canClose, ih, Level.mask]

theorem closeLevel_mask (closer : Token) (b : Building) :
    closeLevel closer.mask b.mask = (closeLevel closer b).mask := by
  obtain ⟨here, levels, problems⟩ := b
  cases levels with
  | nil => rfl
  | cons level levels => simp [closeLevel, Building.mask, Level.mask]

theorem push_mask (b : Building) (t : Token) : b.mask.push t.mask = (b.push t).mask := rfl

theorem atConditional_mask (b : Building) : atConditional b.mask = atConditional b := by
  obtain ⟨here, levels, problems⟩ := b
  cases levels <;> rfl

theorem add_mask (b : Building) (t : Token) : b.mask.add t.mask = (b.add t).mask := by
  have hlevels : b.mask.levels = b.levels.map Level.mask := rfl
  have hproblems : b.mask.problems = b.problems := rfl
  rw [Building.add, Building.add, isOpener_mask, Token.kind_mask, opening?_mask, hlevels]
  split
  · rfl
  · split
    · dsimp only
      rw [Token.missedLine_mask, giveUpWhile_mask fun _ => rfl, atConditional_mask, closeLevel_mask]
      split <;> rfl
    · cases opening? t with
      | some opening =>
        dsimp only
        rw [canClose_mask, Token.missedLine_mask,
          giveUpWhile_mask fun level => by simp [Level.mask], closeLevel_mask]
        split <;> rfl
      | none =>
        dsimp only
        rw [Token.isSymbol_mask, Token.missedLine_mask,
          giveUpWhile_mask fun level => congrArg not (holdsSemicolons_mask level), push_mask,
          push_mask]
        split <;> rfl

theorem finish_mask (lastLine : Nat) (levels : List Level) (b : Building) :
    Building.finish lastLine (levels.map Level.mask) b.mask =
      (Building.finish lastLine levels b).mask := by
  induction levels generalizing b with
  | nil => rfl
  | cons level levels ih =>
    rw [List.map_cons, Building.finish, Building.finish, giveUp_mask, ih]
    simp only [Level.mask, isRound_mask]
    split
    · rfl
    · rw [← ih]
      simp [Building.mask]

theorem foldl_add_mask (tokens : List Token) (b : Building) :
    (tokens.map Token.mask).foldl Building.add b.mask = (tokens.foldl Building.add b).mask := by
  induction tokens generalizing b with
  | nil => rfl
  | cons t tokens ih => rw [List.map_cons, List.foldl_cons, add_mask, ih, List.foldl_cons]

end Tree

/-- The tokens without their names, on the same lines. -/
def TokenList.mask (list : TokenList) : TokenList :=
  { list with tokens := list.tokens.map Token.mask }

theorem Forest.ofTokens_mask (list : TokenList) :
    Forest.ofTokens list.mask =
      ⟨Tree.maskAll (Forest.ofTokens list).trees, (Forest.ofTokens list).problems⟩ := by
  have hread := Tree.foldl_add_mask list.tokens {}
  have hstart : Tree.Building.mask {} = {} := rfl
  rw [hstart] at hread
  rw [Forest.ofTokens, Forest.ofTokens, TokenList.mask]
  dsimp only
  rw [hread]
  have hlevels : ∀ b : Tree.Building, b.mask.levels = b.levels.map Tree.Level.mask := fun _ => rfl
  rw [hlevels, Tree.finish_mask, Tree.maskAll_reverse]
  rfl

end Backfield.CSharp
