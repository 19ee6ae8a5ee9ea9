import Backfield.Proofs.Renaming.Trees

/-!
# Types and statements without their names

What the parser finds in trees that it only reads over: types, tokens that cannot stand side by
side, and statements.

* `TypeName.ofTrees?_mask` and `TypeName.dotted?_mask` are the results for types.  Both come from
  `TypeName.masks`, by induction on the fuel that the functions for the parts of a type share.
* `Neighbors.problems_mask`, `Statements.problemsOfMember_mask` and
  `Statements.problemsOfStatement_mask` say that what is wrong is wrong on the same lines.
-/

namespace Backfield.CSharp

/-! ## Types -/

open Backfield.CSharp.Tree (mask maskAll)

def Reading.mask (r : Reading) : Reading := { r with rest := maskAll r.rest }

namespace TypeName

variable (mode : Mode) (last : Nat)

@[simp] theorem missedLine_mask (trees : List Tree) :
    missedLine last (maskAll trees) = missedLine last trees := by
  cases trees with
  | nil => rfl
  | cons tree rest => simp [missedLine]

@[simp] theorem isName_mask (tree : Tree) : isName tree.mask = isName tree :=
  tree.word?_any_mask fun word => by simp

@[simp] theorem isTypeWord_mask (tree : Tree) : isTypeWord tree.mask = isTypeWord tree :=
  tree.word?_any_mask fun word => by simp

theorem isRank_mask (items : List Tree) : isRank (maskAll items) = isRank items :=
  Tree.all_maskAll (fun tree => tree.isSymbol_mask ",") items

theorem afterMarks_mask (trees : List Tree) :
    afterMarks mode last (maskAll trees) = (afterMarks mode last trees).mask := by
  induction trees with
  | nil => rfl
  | cons tree rest ih =>
    have hrank : (tree.mask.groupItems? "[").any isRank = (tree.groupItems? "[").any isRank := by
      rw [Tree.groupItems?_mask, Option.any_map]
      exact congrArg (Option.any · _) (funext isRank_mask)
    rw [Tree.maskAll_cons, afterMarks, afterMarks, hrank, ih, missedLine_mask]
    simp only [Tree.isSymbol_mask]
    split_ifs <;> rfl

theorem withMarks_mask (r : Reading) :
    Reading.withMarks mode last r.mask = (Reading.withMarks mode last r).mask := by
  simp [Reading.withMarks, Reading.mask, afterMarks_mask]

theorem afterReference_mask (trees : List Tree) :
    afterReference (maskAll trees) = maskAll (afterReference trees) := by
  have hword : ∀ {tree : Tree} {word : String}, Keyword.isSmall word = true →
      tree.mask.isWord word = tree.isWord word := fun h => Tree.isWord_mask _ h
  match trees with
  | [] => rfl
  | [a] => rfl
  | [a, b] =>
    simp only [Tree.maskAll_cons, Tree.maskAll_nil, afterReference,
      hword (show Keyword.isSmall "ref" = true by decide)]
    split <;> rfl
  | a :: b :: c :: rest =>
    simp only [Tree.maskAll_cons, afterReference,
      hword (show Keyword.isSmall "ref" = true by decide),
      hword (show Keyword.isSmall "scoped" = true by decide),
      hword (show Keyword.isSmall "readonly" = true by decide), isTypeWord_mask,
      isName_mask]
    split_ifs <;> rfl

theorem missingEnd?_mask (r : Reading) :
    missingEnd? mode last r.mask = (missingEnd? mode last r).map Reading.mask := by
  cases mode with
  | strict => rfl
  | lenient => simp [missingEnd?, Reading.mask]

theorem missingType?_mask (trees : List Tree) :
    missingType? mode last (maskAll trees) = (missingType? mode last trees).map Reading.mask := by
  rw [missingType?, missingType?, missedLine_mask, Tree.head?_any_maskAll fun tree => by simp]
  split <;> rfl

/-- The functions that read a type and its parts do not look at names. -/
structure Masks (fuel : Nat) : Prop where
  type? : ∀ trees, type? mode last fuel (maskAll trees) =
    (type? mode last fuel trees).map Reading.mask
  name? : ∀ trees, name? mode last fuel (maskAll trees) =
    (name? mode last fuel trees).map Reading.mask
  arguments? : ∀ trees, arguments? mode last fuel (maskAll trees) =
    (arguments? mode last fuel trees).map Reading.mask
  argumentList? : ∀ trees, argumentList? mode last fuel (maskAll trees) =
    (argumentList? mode last fuel trees).map Reading.mask
  functionPointer? : ∀ trees, functionPointer? mode last fuel (maskAll trees) =
    (functionPointer? mode last fuel trees).map Reading.mask

variable {mode last} {fuel : Nat}

theorem map_withMarks (found : Option Reading) :
    (found.map Reading.mask).map (Reading.withMarks mode last) =
      (found.map (Reading.withMarks mode last)).map Reading.mask := by
  cases found with
  | none => rfl
  | some r => exact congrArg some (withMarks_mask mode last r)

theorem Masks.type?_succ (h : Masks mode last fuel) (trees : List Tree) :
    TypeName.type? mode last (fuel + 1) (maskAll trees) =
      (TypeName.type? mode last (fuel + 1) trees).map Reading.mask := by
  rw [TypeName.type?, TypeName.type?, afterReference_mask]
  cases afterReference trees with
  | nil => rfl
  | cons tree rest =>
    dsimp only [Tree.maskAll_cons]
    rw [Tree.isGroup_mask, tree.isWord_mask (by decide), isTypeWord_mask,
      Tree.head?_any_maskAll fun tree => tree.isSymbol_mask "*", Tree.drop_maskAll,
      h.functionPointer?, ← Tree.maskAll_cons, h.name?, map_withMarks]
    split_ifs
    · exact congrArg some (withMarks_mask mode last ⟨rest, []⟩)
    · rfl
    · rfl
    · rfl

theorem Masks.ownArguments? (h : Masks mode last fuel) (trees : List Tree) :
    TypeName.ownArguments? mode last fuel (maskAll trees) =
      (TypeName.ownArguments? mode last fuel trees).map Reading.mask := by
  cases trees with
  | nil => rfl
  | cons next rest =>
    rw [Tree.maskAll_cons, TypeName.ownArguments?, TypeName.ownArguments?, Tree.isSymbol_mask,
      h.arguments?]
    split <;> rfl

theorem Masks.afterPart? (h : Masks mode last fuel) (r : Reading) :
    TypeName.afterPart? mode last fuel r.mask =
      (TypeName.afterPart? mode last fuel r).map Reading.mask := by
  obtain ⟨rest, problems⟩ := r
  cases rest with
  | nil => rfl
  | cons dot more =>
    dsimp only [TypeName.afterPart?, Reading.mask, Tree.maskAll_cons]
    rw [Tree.isSymbol_mask, Tree.isSymbol_mask, h.name?, missedLine_mask,
      Tree.head?_any_maskAll fun tree => tree.isSome_word?_mask]
    cases TypeName.name? mode last fuel more with
    | none => split_ifs <;> rfl
    | some r => dsimp only [Option.map_some]; split <;> rfl

theorem Masks.name?_succ (h : Masks mode last fuel) (trees : List Tree) :
    TypeName.name? mode last (fuel + 1) (maskAll trees) =
      (TypeName.name? mode last (fuel + 1) trees).map Reading.mask := by
  cases trees with
  | nil => rfl
  | cons tree rest =>
    rw [Tree.maskAll_cons, name?_cons, name?_cons, isTypeWord_mask, h.ownArguments?]
    split
    · rfl
    · cases TypeName.ownArguments? mode last fuel rest with
      | none => rfl
      | some r => exact h.afterPart? r

theorem Masks.arguments?_succ (h : Masks mode last fuel) (trees : List Tree) :
    TypeName.arguments? mode last (fuel + 1) (maskAll trees) =
      (TypeName.arguments? mode last (fuel + 1) trees).map Reading.mask := by
  rw [TypeName.arguments?, TypeName.arguments?,
    Tree.dropWhile_maskAll fun tree => tree.isSymbol_mask ","]
  cases trees.dropWhile (·.isSymbol ",") with
  | nil => rfl
  | cons close rest =>
    dsimp only [Tree.maskAll_cons]
    rw [Tree.isSymbol_mask, h.argumentList?]
    split <;> rfl

theorem Masks.argumentList?_succ (h : Masks mode last fuel) (trees : List Tree) :
    TypeName.argumentList? mode last (fuel + 1) (maskAll trees) =
      (TypeName.argumentList? mode last (fuel + 1) trees).map Reading.mask := by
  have hor : ∀ found other : Option Reading,
      (found.map Reading.mask).or (other.map Reading.mask) = (found.or other).map Reading.mask := by
    intro found other
    cases found <;> rfl
  rw [TypeName.argumentList?, TypeName.argumentList?, h.type?, missingType?_mask, hor]
  cases (TypeName.type? mode last fuel trees).or (missingType? mode last trees) with
  | none => rfl
  | some r =>
    have hmissing := missingEnd?_mask mode last r
    obtain ⟨rest, problems⟩ := r
    cases rest with
    | nil => exact hmissing
    | cons next rest =>
      dsimp only [Option.map_some, Option.bind_eq_bind, Option.bind_some, Reading.mask,
        Tree.maskAll_cons] at hmissing ⊢
      rw [Tree.isSymbol_mask, Tree.isSymbol_mask, h.argumentList?, hmissing]
      split_ifs
      · rfl
      · cases TypeName.argumentList? mode last fuel rest <;> rfl
      · rfl

theorem Masks.functionPointer?_succ (h : Masks mode last fuel) (trees : List Tree) :
    TypeName.functionPointer? mode last (fuel + 1) (maskAll trees) =
      (TypeName.functionPointer? mode last (fuel + 1) trees).map Reading.mask := by
  rw [TypeName.functionPointer?, TypeName.functionPointer?,
    Tree.dropWhile_maskAll fun tree => by simp]
  cases trees.dropWhile fun tree => isName tree || tree.isGroup "[" with
  | nil => rfl
  | cons bracket rest =>
    dsimp only [Tree.maskAll_cons]
    rw [Tree.isSymbol_mask, h.argumentList?, map_withMarks]
    split <;> rfl

theorem masks (mode : Mode) (last fuel : Nat) : Masks mode last fuel := by
  induction fuel with
  | zero =>
    exact ⟨fun _ => rfl, fun _ => rfl, fun _ => rfl, fun _ => rfl, fun _ => rfl⟩
  | succ fuel ih =>
    exact ⟨ih.type?_succ, ih.name?_succ, ih.arguments?_succ, ih.argumentList?_succ,
      ih.functionPointer?_succ⟩

theorem ofTrees?_mask (mode : Mode) (last : Nat) (trees : List Tree) :
    ofTrees? mode last (maskAll trees) = (ofTrees? mode last trees).map Reading.mask := by
  rw [ofTrees?, ofTrees?, Tree.length_maskAll, (masks mode last _).type?]

theorem dotted?_mask (last : Nat) (trees : List Tree) :
    dotted? last (maskAll trees) = (dotted? last trees).map Reading.mask := by
  rw [dotted?, dotted?, Tree.length_maskAll, (masks .lenient last _).name?]

end TypeName

/-! ## Neighbors -/

namespace Neighbors

variable (a b : Token)

theorem isSymbolOf_mask (symbols : List String) :
    isSymbolOf a.mask symbols = isSymbolOf a symbols := by
  rw [isSymbolOf, isSymbolOf, Token.kind_mask]
  cases h : a.kind with
  | symbol => simp [Token.mask, h]
  | _ => rfl

@[simp] theorem isLiteral_mask : isLiteral a.mask = isLiteral a := rfl

theorem lacksOperand_mask : lacksOperand a.mask b.mask = lacksOperand a b := by
  simp only [lacksOperand, isSymbolOf_mask, Token.kind_mask]

theorem lacksOperator_mask : lacksOperator a.mask b.mask = lacksOperator a b := by
  have hafter : (b.kind == .word && !afterLiteral.contains b.mask.text) =
      (b.kind == .word && !afterLiteral.contains b.text) := by
    cases h : b.kind with
    | word => rw [Token.text_mask b h, Keyword.contains_mask (by decide)]
    | _ => rfl
  have hbefore : (a.kind == .word && !beforeLiteral.contains a.mask.text) =
      (a.kind == .word && !beforeLiteral.contains a.text) := by
    cases h : a.kind with
    | word => rw [Token.text_mask a h, Keyword.contains_mask (by decide)]
    | _ => rfl
  simp only [lacksOperator, isLiteral_mask, Token.kind_mask, hafter, hbefore]

theorem lacksEnd_mask : lacksEnd a.mask b.mask = lacksEnd a b := by
  rw [lacksEnd, lacksEnd, Token.kind_mask, Token.kind_mask]
  by_cases ha : a.kind = .word
  · by_cases hb : b.kind = .word
    · rw [Token.text_mask a ha, Token.text_mask b hb, Keyword.isReserved_mask, Keyword.isType_mask,
        Keyword.contains_mask (by decide)]
    · have hother : (b.kind == .word) = false := beq_eq_false_iff_ne.mpr hb
      simp [hother]
  · have hother : (a.kind == .word) = false := beq_eq_false_iff_ne.mpr ha
    simp [hother]

theorem problems_mask (tokens : List Token) :
    problems (tokens.map Token.mask) = problems tokens := by
  match tokens with
  | [] => rfl
  | [a] => rfl
  | a :: b :: rest =>
    have ih := problems_mask (b :: rest)
    rw [List.map_cons] at ih
    rw [List.map_cons, List.map_cons, problems, problems, ih, lacksOperand_mask, lacksEnd_mask,
      lacksOperator_mask]
    rfl

end Neighbors

/-! ## Statements -/

namespace Statements

theorem isNamesOnly_mask (before : List Tree) : isNamesOnly (maskAll before) = isNamesOnly before :=
  Tree.all_maskAll (fun tree => by
    have hsymbol : tree.mask.isSymbol = tree.isSymbol := funext tree.isSymbol_mask
    rw [Tree.isSome_word?_mask, Tree.isGroup_mask, hsymbol]) before

theorem isAccessorStart_mask (before : List Tree) :
    isAccessorStart (maskAll before) = isAccessorStart before :=
  Tree.all_maskAll (fun tree => by
    rw [tree.word?_any_mask Keyword.isReservedModifier_mask, Tree.isGroup_mask]) before

theorem extend_mask (before : List Tree) (tree : Tree) :
    extend (maskAll before) tree.mask = maskAll (extend before tree) := by
  rw [extend, extend, isAccessorStart_mask, Tree.isEmpty_maskAll, Tree.isGroup_mask,
    tree.word?_any_contains_mask (by decide), tree.word?_any_contains_mask (by decide),
    tree.isWord_mask (by decide),
    Tree.head?_any_maskAll fun tree =>
      tree.word?_any_contains_mask (show headWords.all Keyword.isSmall = true by decide),
    Tree.head?_any_maskAll fun tree => tree.isWord_mask (by decide),
    Tree.getLast?_any_maskAll fun tree => tree.isWord_mask (by decide)]
  split <;> rfl

theorem isLabel_mask (before : List Tree) : isLabel (maskAll before) = isLabel before := by
  have hlast : (maskAll before).getLast?.any
      (fun tree => tree.isWord "case" || tree.isWord "default") =
        before.getLast?.any fun tree => tree.isWord "case" || tree.isWord "default" :=
    Tree.getLast?_any_maskAll (fun tree => by
      rw [tree.isWord_mask (by decide), tree.isWord_mask (by decide)]) before
  match before with
  | [] => rfl
  | [tree] => exact tree.isSome_word?_mask
  | tree :: next :: rest => exact hlast

theorem startsFunction_mask (before : List Tree) :
    startsFunction (maskAll before) = startsFunction before := by
  cases before with
  | nil => rfl
  | cons tree rest =>
    rw [Tree.maskAll_cons, startsFunction, startsFunction, Tree.isSymbol_mask, Tree.isGroup_mask,
      tree.isWord_mask (by decide), Tree.head?_any_maskAll fun tree => tree.isWord_mask (by decide)]

theorem any_isWord_mask {words : List String} (h : words.all Keyword.isSmall = true) (tree : Tree) :
    words.any tree.mask.isWord = words.any tree.isWord := by
  rw [Bool.eq_iff_iff, List.any_eq_true, List.any_eq_true]
  refine exists_congr fun word => and_congr_right fun hword => ?_
  rw [tree.isWord_mask (List.all_eq_true.mp h word hword)]

theorem givesValue_mask (before : List Tree) : givesValue (maskAll before) = givesValue before := by
  have hsymbol : ∀ tree : Tree, assigning.any tree.mask.isSymbol = assigning.any tree.isSymbol :=
    fun tree => congrArg assigning.any (funext tree.isSymbol_mask)
  rw [givesValue, givesValue, Tree.any_maskAll hsymbol,
    Tree.getLast?_any_maskAll fun tree =>
      tree.word?_any_contains_mask (show valueWords.all Keyword.isSmall = true by decide),
    Tree.head?_any_maskAll fun tree => any_isWord_mask (by decide) tree,
    Tree.any_maskAll fun tree => tree.isWord_mask (by decide),
    Tree.any_maskAll fun tree => tree.isWord_mask (by decide)]

theorem opens_mask (before : List Tree) : opens (maskAll before) = opens before := by
  rw [opens, opens, Tree.isEmpty_maskAll, startsFunction_mask, givesValue_mask, isNamesOnly_mask,
    Tree.head?_any_maskAll fun tree => tree.isWord_mask (by decide)]

theorem isBareValue_mask (before : List Tree) :
    isBareValue (maskAll before) = isBareValue before := by
  match before with
  | [] => rfl
  | [tree] =>
    have htoken : ∀ t : Token,
        ((t.mask.kind == .word && !loneWords.contains t.mask.text) || Neighbors.isLiteral t.mask) =
          ((t.kind == .word && !loneWords.contains t.text) || Neighbors.isLiteral t) := by
      intro t
      rw [Token.kind_mask, Neighbors.isLiteral_mask]
      cases h : t.kind with
      | word => rw [Token.text_mask t h, Keyword.contains_mask (by decide)]
      | _ => rfl
    simp only [Tree.maskAll_cons, Tree.maskAll_nil, isBareValue, Tree.token?_mask, Option.any_map]
    exact congrArg (Option.any · _) (funext htoken)
  | tree :: next :: rest => rfl

mutual

theorem problemsOfTree_mask (block : Bool) :
    ∀ tree : Tree, problemsOfTree block tree.mask = problemsOfTree block tree
  | .leaf _ => rfl
  | .group _ items closer => problemsOf_mask block closer.missedLine [] items
  | .unclosed _ _ => rfl

theorem problemsOf_mask (block : Bool) (last : Nat) : ∀ (before trees : List Tree),
    problemsOf block last (maskAll before) (maskAll trees) = problemsOf block last before trees
  | before, [] => by
    rw [Tree.maskAll_nil, problemsOf, problemsOf, Tree.isEmpty_maskAll]
  | before, tree :: rest => by
    have hrest : ∀ before, problemsOf block last (maskAll before) (maskAll rest) =
        problemsOf block last before rest := fun before => problemsOf_mask block last before rest
    have hstart : problemsOf block last [] (maskAll rest) = problemsOf block last [] rest :=
      hrest []
    have hnext : problemsOf block last (tree.mask :: maskAll before) (maskAll rest) =
        problemsOf block last (tree :: before) rest := hrest (tree :: before)
    have htree := fun block => problemsOfTree_mask block tree
    rw [Tree.maskAll_cons, problemsOf, problemsOf]
    simp only [Tree.isSymbol_mask, Tree.isGroup_mask, Tree.first_mask, Token.kind_mask,
      Token.missedLine_mask, isBareValue_mask, isLabel_mask, opens_mask, startsFunction_mask,
      extend_mask, hrest, hstart, hnext, htree]

end

theorem problemsOfMember_mask (before trees : List Tree) :
    problemsOfMember (maskAll before) (maskAll trees) = problemsOfMember before trees := by
  induction trees generalizing before with
  | nil => rfl
  | cons tree rest ih =>
    have hnext := ih (tree :: before)
    rw [Tree.maskAll_cons] at hnext
    rw [Tree.maskAll_cons, problemsOfMember, problemsOfMember, hnext, Tree.isGroup_mask,
      startsFunction_mask, problemsOfTree_mask,
      Tree.any_maskAll fun tree => by rw [Tree.isSymbol_mask, Tree.isSymbol_mask]]

theorem lastPart_mask (trees : List Tree) :
    lastPart (maskAll trees) = maskAll (lastPart trees) := by
  have hall : ∀ before, (maskAll trees).foldl extend (maskAll before) =
      maskAll (trees.foldl extend before) := by
    induction trees with
    | nil => exact fun _ => rfl
    | cons tree rest ih =>
      intro before
      rw [Tree.maskAll_cons, List.foldl_cons, extend_mask, ih, List.foldl_cons]
  exact hall []

theorem problemsOfStatement_mask (trees : List Tree) :
    problemsOfStatement (maskAll trees) = problemsOfStatement trees := by
  have hdrop : (maskAll trees).dropLast = maskAll trees.dropLast := by
    rw [Tree.maskAll_eq_map, Tree.maskAll_eq_map, List.map_dropLast]
  rw [problemsOfStatement, problemsOfStatement, Tree.getLast?_maskAll, hdrop, lastPart_mask,
    isBareValue_mask, opens_mask]
  cases trees.getLast? with
  | none => rfl
  | some tree =>
    dsimp only [Option.map_some]
    rw [Tree.isSymbol_mask, Tree.isGroup_mask, Tree.first_mask, Token.missedLine_mask]

end Statements

end Backfield.CSharp
