import Backfield.Proofs.Renaming.Heads

/-!
# Members without their names

Fields, using directives and members that are not looked into are read alike of trees and of their
masks.

* `afterExpression_mask` passes over an initialiser, `masks_declarators` reads the variables of a
  field, and `afterMember_mask` finds the end of any other member.
* `Member.Masks` says that a member is the same but for its names.  The names that are declared are
  not compared, only what is left to read and what is wrong.
-/

namespace Backfield.CSharp.Declaration

open Backfield.CSharp.TypeName (missedLine isName isTypeWord isName_mask isTypeWord_mask
  missedLine_mask)
open Backfield.CSharp.Tree (maskAll)

/-! ## Initialisers -/

theorem followsArguments_mask (trees : List Tree) :
    followsArguments (maskAll trees) = followsArguments trees := by
  cases trees with
  | nil => rfl
  | cons tree rest =>
    rw [Tree.maskAll_cons, followsArguments, followsArguments, any_isSymbol_mask, Tree.isGroup_mask,
      Tree.isGroup_mask, Tree.isGroup_mask]

theorem expectsType_mask (before : List Tree) :
    expectsType (maskAll before) = expectsType before := by
  rw [expectsType, expectsType, Tree.dropWhile_maskAll fun tree => by
    rw [isTypeWord_mask, Tree.isSymbol_mask, Tree.isSymbol_mask]]
  cases before.dropWhile fun tree =>
      isTypeWord tree || tree.isSymbol "." || tree.isSymbol "::" with
  | nil => rfl
  | cons tree rest =>
    dsimp only [Tree.maskAll_cons]
    rw [tree.isWord_mask (by decide), tree.isWord_mask (by decide), tree.isWord_mask (by decide)]

theorem afterTypeArguments?_mask (before rest : List Tree) :
    afterTypeArguments? (maskAll before) (maskAll rest) =
      (afterTypeArguments? before rest).map maskAll := by
  rw [afterTypeArguments?, afterTypeArguments?, Tree.length_maskAll,
    (TypeName.masks .strict 0 _).arguments?]
  cases TypeName.arguments? .strict 0 (4 * rest.length + 4) rest with
  | none => rfl
  | some r =>
    dsimp only [Option.map_some, Reading.mask]
    rw [followsArguments_mask, expectsType_mask]
    split <;> rfl

theorem endsOperand_mask (tree : Tree) : endsOperand tree.mask = endsOperand tree := by
  rw [endsOperand, endsOperand, Tree.isGroup_mask, isName_mask,
    tree.word?_any_contains_mask (by decide), Tree.token?_mask, Option.any_map]
  rfl

theorem startsDeclaration_mask (before : List Tree) (tree : Tree) :
    startsDeclaration (maskAll before) tree.mask = startsDeclaration before tree := by
  rw [startsDeclaration, startsDeclaration, Tree.head?_any_maskAll endsOperand_mask]
  refine tree.word?_any_mask fun word => ?_
  have hword : ∀ {other : String}, Keyword.isSmall other = true →
      (Keyword.mask word != other) = (word != other) := by
    intro other h
    rw [Bool.eq_iff_iff, bne_iff_ne, bne_iff_ne, ne_eq, Keyword.mask_eq_iff word h]
  rw [Keyword.isReservedModifier_mask, Keyword.isType_mask, hword (by decide), hword (by decide),
    Keyword.contains_mask (by decide)]

theorem afterExpression_mask (fuel : Nat) (before trees : List Tree) :
    afterExpression fuel (maskAll before) (maskAll trees) =
      maskAll (afterExpression fuel before trees) := by
  induction fuel generalizing before trees with
  | zero => rfl
  | succ fuel ih =>
    cases trees with
    | nil => rfl
    | cons tree rest =>
      have hnext : ∀ after, afterExpression fuel (tree.mask :: maskAll before) (maskAll after) =
          maskAll (afterExpression fuel (tree :: before) after) :=
        fun after => ih (tree :: before) after
      rw [Tree.maskAll_cons, afterExpression.eq_def, afterExpression.eq_def (fuel + 1) before]
      dsimp only
      rw [Tree.isSymbol_mask, Tree.isSymbol_mask, Tree.isSymbol_mask, startsDeclaration_mask,
        afterTypeArguments?_mask]
      split
      · rfl
      · split
        · cases afterTypeArguments? before rest with
          | none => exact hnext rest
          | some after => exact hnext after
        · cases tree with
          | leaf t => exact hnext rest
          | group opener items closer => exact hnext rest
          | unclosed opener items => rfl

/-! ## Fields -/

/-- The same variables but for their names. -/
structure Declarators.Masks (masked found : Declarators) : Prop where
  rest : masked.rest = maskAll found.rest
  problems : masked.problems = found.problems

/-- The initialiser of a variable is passed over. -/
def afterValue (trees : List Tree) : List Tree :=
  match trees with
  | equals :: rest => if equals.isSymbol "=" then afterExpression rest.length [] rest else trees
  | [] => []

theorem afterValue_mask (trees : List Tree) :
    afterValue (maskAll trees) = maskAll (afterValue trees) := by
  cases trees with
  | nil => rfl
  | cons equals rest =>
    have hrest := afterExpression_mask rest.length [] rest
    rw [Tree.maskAll_nil] at hrest
    rw [Tree.maskAll_cons, afterValue, afterValue, Tree.isSymbol_mask, Tree.length_maskAll, hrest]
    split <;> rfl

theorem afterVariable_cons (size : Tree) (rest : List Tree) :
    afterVariable (size :: rest) = afterValue (if size.isGroup "[" then rest else size :: rest) :=
  rfl

theorem afterVariable_mask (trees : List Tree) :
    afterVariable (maskAll trees) = maskAll (afterVariable trees) := by
  cases trees with
  | nil => rfl
  | cons size rest =>
    rw [Tree.maskAll_cons, afterVariable_cons, afterVariable_cons, Tree.isGroup_mask,
      ← afterValue_mask]
    split <;> rfl

/-- The variable that the trees begin with, and what follows its name. -/
def firstVariable (last : Nat) (trees : List Tree) : List String × List Nat × List Tree :=
  match trees with
  | tree :: rest =>
    if isName tree then (tree.word?.toList, [], rest) else ([], [tree.first.missedLine], trees)
  | [] => ([], [last], [])

theorem firstVariable_mask (last : Nat) (trees : List Tree) :
    (firstVariable last (maskAll trees)).2 = (firstVariable last trees).2.map id maskAll := by
  cases trees with
  | nil => rfl
  | cons tree rest =>
    rw [Tree.maskAll_cons, firstVariable, firstVariable, isName_mask, Tree.first_mask,
      Token.missedLine_mask]
    split <;> rfl

theorem declarators_succ (last fuel : Nat) (trees : List Tree) :
    declarators last (fuel + 1) trees =
      let found := firstVariable last trees
      match afterVariable found.2.2 with
      | [] => { names := found.1, problems := found.2.1 ++ [last] }
      | tree :: rest =>
        if tree.isSymbol "," then
          let others := declarators last fuel rest
          { others with
            names := found.1 ++ others.names
            problems := found.2.1 ++ others.problems }
        else if tree.isSymbol ";" then { names := found.1, rest, problems := found.2.1 }
        else
          { names := found.1, rest := tree :: rest
            problems := found.2.1 ++ [tree.first.missedLine] } :=
  rfl

theorem masks_declarators (last fuel : Nat) (trees : List Tree) :
    (declarators last fuel (maskAll trees)).Masks (declarators last fuel trees) := by
  induction fuel generalizing trees with
  | zero => exact ⟨rfl, rfl⟩
  | succ fuel ih =>
    rw [declarators_succ, declarators_succ]
    dsimp only
    rw [firstVariable_mask]
    dsimp only [Prod.map, id]
    rw [afterVariable_mask]
    cases afterVariable (firstVariable last trees).2.2 with
    | nil => exact ⟨rfl, rfl⟩
    | cons tree rest =>
      have hmore := ih rest
      dsimp only [Tree.maskAll_cons]
      rw [Tree.isSymbol_mask, Tree.isSymbol_mask, Tree.first_mask, Token.missedLine_mask]
      split_ifs
      · exact ⟨hmore.rest, by rw [hmore.problems]⟩
      · exact ⟨rfl, rfl⟩
      · exact ⟨rfl, rfl⟩

theorem continuesField_mask (trees : List Tree) :
    continuesField (maskAll trees) = continuesField trees := by
  cases trees with
  | nil => rfl
  | cons tree rest =>
    rw [Tree.maskAll_cons, continuesField, continuesField, Tree.isGroup_mask, opensBody_mask,
      any_isSymbol_mask]

theorem afterType_mask (trees : List Tree) : afterType (maskAll trees) = afterType trees := by
  cases trees with
  | nil => rfl
  | cons tree rest =>
    rw [Tree.maskAll_cons, afterType, afterType, isName_mask, continuesField_mask,
      Tree.isSymbol_mask, Tree.isSymbol_mask, Tree.isSymbol_mask]

/-! ## Using directives -/

theorem afterUsingWords_mask (trees : List Tree) :
    afterUsingWords (maskAll trees) = (afterUsingWords trees).map maskAll := by
  have hhead : ∀ {word : String} (trees : List Tree), Keyword.isSmall word = true →
      (maskAll trees).head?.any (·.isWord word) = trees.head?.any (·.isWord word) :=
    fun trees h => Tree.head?_any_maskAll (fun tree => tree.isWord_mask h) trees
  have hdrop : ∀ {word : String} (trees : List Tree), Keyword.isSmall word = true →
      (if (maskAll trees).head?.any (·.isWord word) then (maskAll trees).drop 1
        else maskAll trees) =
        maskAll (if trees.head?.any (·.isWord word) then trees.drop 1 else trees) := by
    intro word trees h
    rw [hhead trees h, Tree.drop_maskAll]
    split <;> rfl
  rw [afterUsingWords, afterUsingWords]
  rw [hdrop trees (by decide)]
  generalize (if trees.head?.any (·.isWord "global") then trees.drop 1 else trees) = trees
  cases trees with
  | nil => rfl
  | cons tree rest =>
    dsimp only [Tree.maskAll_cons]
    rw [tree.isWord_mask (by decide), hdrop rest (by decide), hdrop _ (by decide)]
    split <;> rfl

theorem usingTarget_mask (last : Nat) (trees : List Tree) :
    usingTarget last (maskAll trees) = (usingTarget last trees).map Reading.mask := by
  match trees with
  | [] => exact TypeName.dotted?_mask last []
  | [tree] => exact TypeName.dotted?_mask last [tree]
  | name :: equals :: rest =>
    have hall := TypeName.dotted?_mask last (name :: equals :: rest)
    have htype := TypeName.ofTrees?_mask .lenient last (equals :: rest)
    dsimp only [Tree.maskAll_cons, usingTarget] at hall htype ⊢
    rw [isName_mask, Tree.isSymbol_mask, Tree.isSymbol_mask, TypeName.ofTrees?_mask, htype, hall,
      Tree.first_mask, Token.missedLine_mask]
    split_ifs
    · rfl
    · cases TypeName.ofTrees? .lenient last (equals :: rest) <;> rfl
    · rfl

/-! ## Members -/

/-- The outline without names.  What is declared is not kept. -/
inductive Outline.Masks : Outline → Outline → Prop
  | plain (masked found : Declaration) : Outline.Masks (.plain masked) (.plain found)
  | type (masked found : TypeHead) (body : List Tree) (last start : Nat) :
    Outline.Masks (.type masked (maskAll body) last start) (.type found body last start)
  | space (masked found : String) (body : List Tree) (last : Nat) :
    Outline.Masks (.space masked (maskAll body) last) (.space found body last)
  | conditional (body : List Tree) (last : Nat) :
    Outline.Masks (.conditional (maskAll body) last) (.conditional body last)

/-- The same member but for its names. -/
structure Member.Masks (masked found : Member) : Prop where
  outline : masked.outline.Masks found.outline
  rest : masked.rest = maskAll found.rest
  problems : masked.problems = found.problems
  breaksType : masked.breaksType = found.breaksType

/-- Both readings fail, or they give the same member but for its names. -/
inductive MasksAll : Option Member → Option Member → Prop
  | none : MasksAll none none
  | some {masked found : Member} (h : masked.Masks found) : MasksAll (some masked) (some found)

theorem masks_usingDirective? (last : Nat) (trees : List Tree) :
    MasksAll (usingDirective? last (maskAll trees)) (usingDirective? last trees) := by
  rw [usingDirective?.eq_def, usingDirective?.eq_def, afterUsingWords_mask]
  cases afterUsingWords trees with
  | none => exact .none
  | some rest =>
    dsimp only [Option.map_some, Option.bind_eq_bind, Option.bind_some]
    rw [usingTarget_mask, Tree.head?_any_maskAll fun tree => tree.isSymbol_mask ";",
      Tree.drop_maskAll, missedLine_mask, Tree.isEmpty_maskAll]
    cases usingTarget last rest with
    | none =>
      dsimp only [Option.map_none]
      split_ifs
      · exact .some ⟨.plain _ _, rfl, rfl, rfl⟩
      · exact .some ⟨.plain _ _, rfl, rfl, rfl⟩
      · exact .none
    | some r =>
      obtain ⟨left, problems⟩ := r
      cases left with
      | nil => exact .some ⟨.plain _ _, rfl, rfl, rfl⟩
      | cons tree more =>
        dsimp only [Option.map_some, Reading.mask, Tree.maskAll_cons]
        rw [Tree.isSymbol_mask, isName_mask, Tree.first_mask, Token.missedLine_mask]
        split_ifs
        · exact .some ⟨.plain _ _, rfl, rfl, rfl⟩
        · exact .none
        · exact .some ⟨.plain _ _, rfl, rfl, rfl⟩

theorem afterMember_mask (givesValue : Bool) (trees : List Tree) :
    afterMember givesValue (maskAll trees) = (afterMember givesValue trees).map maskAll id := by
  induction trees generalizing givesValue with
  | nil => rfl
  | cons tree rest ih =>
    cases tree with
    | unclosed opener items => rfl
    | group opener items closer =>
      rw [Tree.maskAll_cons, Tree.mask_group, afterMember, afterMember, Token.isSymbol_mask,
        Tree.head?_any_maskAll fun tree => tree.isSymbol_mask "=", ih, ih]
      split_ifs <;> rfl
    | leaf t =>
      rw [Tree.maskAll_cons, Tree.mask_leaf, afterMember, afterMember, Token.isSymbol_mask,
        Token.isSymbol_mask, Token.isSymbol_mask, ih]
      split <;> rfl

theorem memberHead_mask (trees : List Tree) :
    memberHead (maskAll trees) = maskAll (memberHead trees) :=
  Tree.takeWhile_maskAll (fun tree => by
    rw [Tree.isSymbol_mask, Tree.isSymbol_mask, Tree.isSymbol_mask, opensBody_mask]) trees

theorem isProperty_mask (last : Nat) (trees : List Tree) :
    isProperty last (maskAll trees) = isProperty last trees := by
  rw [isProperty, isProperty, TypeName.ofTrees?_mask]
  cases TypeName.ofTrees? .lenient last trees with
  | none => rfl
  | some r =>
    dsimp only [Option.map_some, Reading.mask]
    rw [TypeName.dotted?_mask]
    cases TypeName.dotted? last r.rest with
    | none => rfl
    | some name =>
      obtain ⟨rest, problems⟩ := name
      cases rest with
      | nil => rfl
      | cons tree rest =>
        dsimp only [Option.map_some, Reading.mask, Tree.maskAll_cons]
        rw [opensBody_mask, Tree.isSymbol_mask]

theorem hasIndex_mask (trees : List Tree) : hasIndex (maskAll trees) = hasIndex trees := by
  match trees with
  | [] => rfl
  | [a] => rfl
  | a :: b :: rest =>
    have ih := hasIndex_mask (b :: rest)
    rw [Tree.maskAll_cons] at ih
    rw [Tree.maskAll_cons, Tree.maskAll_cons, hasIndex, hasIndex, ih, a.isWord_mask (by decide),
      Tree.isGroup_mask]

theorem isOtherMember_mask (trees : List Tree) :
    isOtherMember (maskAll trees) = isOtherMember trees := by
  rw [isOtherMember, isOtherMember, memberHead_mask, hasIndex_mask,
    Tree.head?_any_maskAll fun tree => by
      rw [Tree.isSome_word?_mask, Tree.isSymbol_mask, Tree.isGroup_mask],
    Tree.any_maskAll fun tree => by rw [Tree.isGroup_mask, Tree.isSymbol_mask],
    Tree.any_maskAll fun tree => tree.isWord_mask (by decide),
    Tree.head?_any_maskAll fun tree => tree.isWord_mask (by decide)]

theorem missingNames_mask (last : Nat) (trees : List Tree) :
    missingNames last (maskAll trees) = missingNames last trees := by
  match trees with
  | [] => rfl
  | [tree] => rfl
  | first :: next :: rest =>
    have htype := TypeName.ofTrees?_mask .lenient last (next :: rest)
    dsimp only [Tree.maskAll_cons, missingNames] at htype ⊢
    rw [first.word?_any_mask Keyword.isType_mask, Tree.isGroup_mask, first.isWord_mask (by decide),
      htype, Tree.first_mask, Token.missedLine_mask]
    cases TypeName.ofTrees? .lenient last (next :: rest) with
    | none => rfl
    | some r =>
      dsimp only [Option.map_some, Reading.mask]
      rw [Tree.head?_any_maskAll isName_mask, missedLine_mask]

/-! ## Accessors -/

theorem accessorProblems_mask (last : Nat) (state : AccessorState) (trees : List Tree) :
    accessorProblems last state (maskAll trees) = accessorProblems last state trees := by
  induction trees generalizing state with
  | nil => cases state <;> rfl
  | cons tree rest ih =>
    cases state with
    | before =>
      rw [Tree.maskAll_cons, accessorProblems, accessorProblems, Tree.isGroup_mask, Tree.first_mask,
        Token.kind_mask, Token.line_mask, tree.word?_any_mask Keyword.isReservedModifier_mask,
        tree.word?_any_contains_mask (by decide), ih, ih]
    | named =>
      rw [Tree.maskAll_cons, accessorProblems, accessorProblems, Tree.isGroup_mask,
        Tree.isSymbol_mask, Tree.isSymbol_mask, Tree.first_mask, Token.missedLine_mask, ih, ih]
    | giving =>
      rw [Tree.maskAll_cons, accessorProblems, accessorProblems, Tree.isSymbol_mask, ih]

theorem accessorListProblems_mask (last : Nat) (trees : List Tree) :
    accessorListProblems last (maskAll trees) = accessorListProblems last trees := by
  rw [accessorListProblems, accessorListProblems, memberHead_mask, isProperty_mask, hasIndex_mask,
    Tree.head?_any_maskAll fun tree => tree.isWord_mask (by decide), Tree.length_maskAll,
    Tree.drop_maskAll]
  split
  · match trees.drop (memberHead trees).length with
    | [] => rfl
    | .leaf t :: rest => rfl
    | .unclosed opener items :: rest => rfl
    | .group opener items closer :: rest =>
      dsimp only [Tree.maskAll_cons, Tree.mask_group]
      rw [Token.isSymbol_mask, Token.missedLine_mask, accessorProblems_mask]
  · rfl

end Backfield.CSharp.Declaration
