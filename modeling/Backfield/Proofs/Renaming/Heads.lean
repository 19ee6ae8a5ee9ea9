import Backfield.Proofs.Renaming.Types
import Backfield.Proofs.CSharp.Members

/-!
# Heads of declarations without their names

Attributes, modifiers and what stands before the body of a type are read alike of trees and of their
masks.

* `masks_attributes`, `modifiers_mask`, `typeKind?_mask`, `masks_typeParameters` and `headRest_mask`
  are the results, one for each function that reads a part of a head.
-/

namespace Backfield.CSharp.Declaration

open Backfield.CSharp.TypeName (missedLine isName isTypeWord isName_mask isTypeWord_mask
  missedLine_mask)
open Backfield.CSharp.Tree (maskAll)

/-! ## Attributes -/

theorem dropTarget_mask (trees : List Tree) :
    dropTarget (maskAll trees) = ((dropTarget trees).map maskAll id) := by
  match trees with
  | [] => rfl
  | [tree] => rfl
  | target :: colon :: rest =>
    simp only [Tree.maskAll_cons, dropTarget, Tree.isSome_word?_mask, Tree.isSymbol_mask,
      Tree.first_mask, Token.line_mask,
      target.word?_any_contains_mask (show attributeTargets.all Keyword.isSmall = true by decide)]
    split <;> rfl

theorem afterArguments_mask (trees : List Tree) :
    afterArguments (maskAll trees) = maskAll (afterArguments trees) := by
  cases trees with
  | nil => rfl
  | cons tree rest =>
    rw [Tree.maskAll_cons, afterArguments, afterArguments, Tree.isGroup_mask]
    split <;> rfl

/-- The same attributes but for their names. -/
structure Attributes.Masks (masked found : Attributes) : Prop where
  length : masked.names.length = found.names.length
  rest : masked.rest = maskAll found.rest
  problems : masked.problems = found.problems

namespace Attributes.Masks

variable {masked found : Attributes}

theorem isEmpty (h : masked.Masks found) : masked.names.isEmpty = found.names.isEmpty := by
  rw [Bool.eq_iff_iff, List.isEmpty_iff, List.isEmpty_iff, ← List.length_eq_zero_iff, h.length,
    List.length_eq_zero_iff]

end Attributes.Masks

/-- The attribute that the trees begin with, and what follows it. -/
def attributeItem (last : Nat) (trees : List Tree) : Attributes :=
  match TypeName.dotted? last trees with
  | some r =>
    { names := [Tree.text (r.taken trees)], rest := afterArguments r.rest, problems := r.problems }
  | none => { rest := trees }

theorem attributeItems_cons (last fuel : Nat) (tree : Tree) (rest : List Tree) :
    attributeItems last (fuel + 1) (tree :: rest) =
      match (attributeItem last (tree :: rest)).rest with
      | [] => attributeItem last (tree :: rest)
      | next :: more =>
        let item := attributeItem last (tree :: rest)
        if next.isSymbol "," && !item.names.isEmpty then
          let others := attributeItems last fuel more
          { others with
            names := item.names ++ others.names
            problems := item.problems ++ others.problems }
        else
          let others :=
            attributeItems last fuel (((next :: more).dropWhile (!·.isSymbol ",")).drop 1)
          { others with
            names := item.names ++ others.names
            problems := item.problems ++ next.first.line :: others.problems } := rfl

theorem masks_attributeItem (last : Nat) (trees : List Tree) :
    (attributeItem last (maskAll trees)).Masks (attributeItem last trees) := by
  rw [attributeItem, attributeItem, TypeName.dotted?_mask]
  cases TypeName.dotted? last trees with
  | none => exact ⟨rfl, rfl, rfl⟩
  | some r => exact ⟨rfl, afterArguments_mask r.rest, rfl⟩

theorem masks_attributeItems (last fuel : Nat) (trees : List Tree) :
    (attributeItems last fuel (maskAll trees)).Masks (attributeItems last fuel trees) := by
  induction fuel generalizing trees with
  | zero => exact ⟨rfl, rfl, rfl⟩
  | succ fuel ih =>
    cases trees with
    | nil => exact ⟨rfl, rfl, rfl⟩
    | cons tree rest =>
      have hitem := masks_attributeItem last (tree :: rest)
      rw [Tree.maskAll_cons] at hitem ⊢
      rw [attributeItems_cons, attributeItems_cons, hitem.rest]
      cases hleft : (attributeItem last (tree :: rest)).rest with
      | nil => exact hitem
      | cons next more =>
        have hcomma : ((maskAll (next :: more)).dropWhile (!·.isSymbol ",")).drop 1 =
            maskAll (((next :: more).dropWhile (!·.isSymbol ",")).drop 1) := by
          rw [Tree.dropWhile_maskAll fun tree => by rw [Tree.isSymbol_mask], Tree.drop_maskAll]
        rw [Tree.maskAll_cons] at hcomma
        have hmore := ih more
        have hothers := ih (((next :: more).dropWhile (!·.isSymbol ",")).drop 1)
        dsimp only [Tree.maskAll_cons]
        rw [hcomma, Tree.isSymbol_mask, hitem.isEmpty, Tree.first_mask, Token.line_mask]
        split
        · exact ⟨by simp [hitem.length, hmore.length], hmore.rest,
            by rw [hitem.problems, hmore.problems]⟩
        · exact ⟨by rw [List.length_append, List.length_append, hitem.length, hothers.length],
            hothers.rest, by rw [hitem.problems, hothers.problems]⟩

theorem masks_attributeList (last : Nat) (items : List Tree) :
    (attributeList last (maskAll items)).Masks (attributeList last items) := by
  rw [attributeList, attributeList, dropTarget_mask]
  obtain ⟨left, problems⟩ := dropTarget items
  dsimp only [Prod.map]
  have hfound := masks_attributeItems last left.length left
  rw [Tree.isEmpty_maskAll, Tree.length_maskAll]
  split
  · exact ⟨rfl, rfl, rfl⟩
  · exact ⟨hfound.length, hfound.rest, by rw [hfound.problems]; rfl⟩

theorem masks_openAttributeList (last fuel : Nat) (trees : List Tree) :
    (openAttributeList last fuel (maskAll trees)).Masks (openAttributeList last fuel trees) := by
  induction fuel generalizing trees with
  | zero => exact ⟨rfl, rfl, rfl⟩
  | succ fuel ih =>
    rw [openAttributeList, openAttributeList, TypeName.dotted?_mask]
    cases TypeName.dotted? last trees with
    | none => exact ⟨rfl, rfl, by simp⟩
    | some r =>
      dsimp only [Option.map_some, Reading.mask]
      rw [afterArguments_mask]
      cases afterArguments r.rest with
      | nil => exact ⟨rfl, rfl, rfl⟩
      | cons next rest =>
        have hmore := ih rest
        dsimp only [Tree.maskAll_cons]
        rw [Tree.isSymbol_mask, Tree.first_mask, Token.missedLine_mask]
        split
        · exact ⟨by simp [hmore.length], hmore.rest, by rw [hmore.problems]⟩
        · exact ⟨rfl, rfl, rfl⟩

theorem isConditionalAttributes_mask (tree : Tree) :
    isConditionalAttributes tree.mask = isConditionalAttributes tree := by
  cases tree with
  | leaf t => rfl
  | unclosed opener items => rfl
  | group opener items closer =>
    rw [Tree.mask_group, isConditionalAttributes, isConditionalAttributes, Token.kind_mask,
      Tree.any_maskAll fun tree => tree.isGroup_mask "[",
      Tree.all_maskAll fun tree => by
        rw [Tree.isGroup_mask, Tree.token?_mask, Option.any_map]
        rfl]

theorem isFileAttribute_mask (tree : Tree) : isFileAttribute tree.mask = isFileAttribute tree := by
  rw [isFileAttribute, isFileAttribute, Tree.groupItems?_mask]
  match tree.groupItems? "[" with
  | none => rfl
  | some [] => rfl
  | some [item] => rfl
  | some (target :: colon :: rest) =>
    simp only [Option.map_some, Tree.maskAll_cons, Tree.isSymbol_mask,
      target.isWord_mask (show Keyword.isSmall "assembly" = true by decide),
      target.isWord_mask (show Keyword.isSmall "module" = true by decide)]

/-- The attributes of the list that the trees begin with, if they do with one. -/
def firstAttributes? (last : Nat) (tree : Tree) (rest : List Tree) : Option Attributes :=
  match tree with
  | .group opener items closer =>
    if opener.isSymbol "[" then some { attributeList closer.missedLine items with rest }
    else if isConditionalAttributes tree then some { rest }
    else none
  | .leaf t => if t.isSymbol "[" then some (openAttributeList last rest.length rest) else none
  | _ => none

theorem attributes_cons (last fuel : Nat) (tree : Tree) (rest : List Tree) :
    attributes last (fuel + 1) (tree :: rest) =
      match firstAttributes? last tree rest with
      | none => { rest := tree :: rest }
      | some found =>
        let others := attributes last fuel found.rest
        { others with
          names := found.names ++ others.names
          problems := found.problems ++ others.problems } := rfl

theorem firstAttributes?_mask (last : Nat) (tree : Tree) (rest : List Tree) :
    (firstAttributes? last tree rest = none ∧
        firstAttributes? last tree.mask (maskAll rest) = none) ∨
      ∃ found masked, firstAttributes? last tree rest = some found ∧
        firstAttributes? last tree.mask (maskAll rest) = some masked ∧ masked.Masks found := by
  cases tree with
  | unclosed opener items => exact Or.inl ⟨rfl, rfl⟩
  | leaf t =>
    rw [Tree.mask_leaf, firstAttributes?, firstAttributes?, Token.isSymbol_mask,
      Tree.length_maskAll]
    split
    · exact Or.inr ⟨_, _, rfl, rfl, masks_openAttributeList last _ rest⟩
    · exact Or.inl ⟨rfl, rfl⟩
  | group opener items closer =>
    have hconditional := isConditionalAttributes_mask (.group opener items closer)
    rw [Tree.mask_group] at hconditional
    rw [Tree.mask_group, firstAttributes?, firstAttributes?, Token.isSymbol_mask, hconditional,
      Token.missedLine_mask]
    have hlist := masks_attributeList closer.missedLine items
    split_ifs
    · exact Or.inr ⟨_, _, rfl, rfl, hlist.length, rfl, hlist.problems⟩
    · exact Or.inr ⟨_, _, rfl, rfl, rfl, rfl, rfl⟩
    · exact Or.inl ⟨rfl, rfl⟩

theorem masks_attributes (last fuel : Nat) (trees : List Tree) :
    (attributes last fuel (maskAll trees)).Masks (attributes last fuel trees) := by
  induction fuel generalizing trees with
  | zero => exact ⟨rfl, rfl, rfl⟩
  | succ fuel ih =>
    cases trees with
    | nil => exact ⟨rfl, rfl, rfl⟩
    | cons tree rest =>
      rw [Tree.maskAll_cons, attributes_cons, attributes_cons]
      rcases firstAttributes?_mask last tree rest with
        ⟨hfound, hmasked⟩ | ⟨found, masked, hfound, hmasked, h⟩
      · rw [hfound, hmasked]
        exact ⟨rfl, rfl, rfl⟩
      · rw [hfound, hmasked]
        dsimp only
        rw [h.rest]
        have hothers := ih found.rest
        exact ⟨by rw [List.length_append, List.length_append, h.length, hothers.length],
          hothers.rest, by rw [h.problems, hothers.problems]⟩

/-! ## Modifiers -/

theorem opensBody_mask (tree : Tree) : opensBody tree.mask = opensBody tree := by
  cases tree with
  | unclosed opener items => exact opener.isSymbol_mask "\x7b"
  | leaf t => rfl
  | group opener items closer => exact (Tree.group opener items closer).isGroup_mask "\x7b"

theorem any_isSymbol_mask (symbols : List String) (tree : Tree) :
    symbols.any tree.mask.isSymbol = symbols.any tree.isSymbol :=
  congrArg symbols.any (funext tree.isSymbol_mask)

theorem endsName_mask (trees : List Tree) : endsName (maskAll trees) = endsName trees := by
  cases trees with
  | nil => rfl
  | cons tree rest =>
    rw [Tree.maskAll_cons, endsName, endsName, any_isSymbol_mask, Tree.isGroup_mask,
      Tree.isGroup_mask]

theorem isModifier_mask (word : String) (rest : List Tree) :
    isModifier (Keyword.mask word) (maskAll rest) = isModifier word rest := by
  cases rest with
  | nil => simp only [isModifier, Tree.maskAll_nil, Keyword.isReservedModifier_mask,
      Keyword.isContextualModifier_mask]
  | cons next rest =>
    simp only [isModifier, Tree.maskAll_cons, Keyword.isReservedModifier_mask,
      Keyword.isContextualModifier_mask, Tree.isGroup_mask, Tree.isSome_word?_mask, isName_mask,
      endsName_mask]

theorem modifiers_mask (trees : List Tree) :
    modifiers (maskAll trees) = (modifiers trees).map (List.map Keyword.mask) maskAll := by
  induction trees with
  | nil => rfl
  | cons tree rest ih =>
    rw [Tree.maskAll_cons, modifiers, modifiers, Tree.word?_mask]
    cases tree.word? with
    | none => rfl
    | some word =>
      dsimp only [Option.map_some]
      rw [isModifier_mask, ih]
      split <;> rfl

/-! ## Heads of types -/

theorem startsRecord_mask (trees : List Tree) :
    typeKind?.startsRecord (maskAll trees) = typeKind?.startsRecord trees := by
  cases trees with
  | nil => rfl
  | cons tree rest =>
    rw [Tree.maskAll_cons, typeKind?.startsRecord, typeKind?.startsRecord, any_isSymbol_mask,
      Tree.isGroup_mask, opensBody_mask]

/-- A word with a meaning is kept, so that the same case of the reader applies. -/
theorem typeKind?_mask_of_isSmall {tree : Tree} {word : String} (rest : List Tree)
    (hword : tree.word? = some word) (hsmall : Keyword.isSmall word = true) :
    typeKind? (maskAll (tree :: rest)) = (typeKind? (tree :: rest)).map (Prod.map id maskAll) := by
  have hpartial : (maskAll rest).dropWhile (·.isWord "partial") =
      maskAll (rest.dropWhile (·.isWord "partial")) :=
    Tree.dropWhile_maskAll (fun tree => tree.isWord_mask (by decide)) rest
  have hstruct : ∀ trees : List Tree, (maskAll trees).head?.any (·.isWord "struct") =
      trees.head?.any (·.isWord "struct") :=
    Tree.head?_any_maskAll fun tree => tree.isWord_mask (by decide)
  rw [typeKind?.eq_def, typeKind?.eq_def]
  dsimp only [Tree.maskAll_cons]
  rw [Tree.word?_mask, hword, Option.map_some, Keyword.mask, if_pos hsmall]
  split
  · rfl
  · rfl
  · rfl
  · rfl
  · rw [hpartial, hstruct, Tree.drop_maskAll]
    split <;> rfl
  · rw [Tree.head?_any_maskAll fun tree => tree.isSymbol_mask "*"]
    split <;> rfl
  · cases rest with
    | nil => rfl
    | cons next more =>
      dsimp only [Tree.maskAll_cons]
      rw [next.isWord_mask (by decide), next.isWord_mask (by decide), isName_mask,
        startsRecord_mask, opensBody_mask]
      split_ifs <;> rfl
  · rfl

theorem typeKind?_mask (trees : List Tree) :
    typeKind? (maskAll trees) = (typeKind? trees).map (Prod.map id maskAll) := by
  cases trees with
  | nil => rfl
  | cons tree rest =>
    cases hword : tree.word? with
    | none =>
      rw [typeKind?.eq_def, typeKind?.eq_def]
      dsimp only [Tree.maskAll_cons]
      rw [Tree.word?_mask, hword]
      rfl
    | some word =>
      by_cases hsmall : Keyword.isSmall word = true
      · exact typeKind?_mask_of_isSmall rest hword hsmall
      · have hall : (typeWords.all Keyword.isSmall) = true := by decide
        have hmasked : tree.mask.word? = some "" := by
          rw [Tree.word?_mask, hword, Option.map_some, Keyword.mask, if_neg hsmall]
        rw [Tree.maskAll_cons, typeKind?_eq_none "" _ hmasked (by decide),
          typeKind?_eq_none word _ hword fun hmem => hsmall (List.all_eq_true.mp hall word hmem)]
        rfl

theorem stopsParameters_mask (tree : Tree) : stopsParameters tree.mask = stopsParameters tree := by
  rw [stopsParameters, stopsParameters, opensBody_mask, Tree.isGroup_mask, Tree.isSymbol_mask,
    Tree.isSymbol_mask, tree.isWord_mask (by decide)]

theorem parametersFrom_mask (depth : Nat) (trees : List Tree) :
    parametersFrom depth (maskAll trees) =
      (parametersFrom depth trees).map maskAll (Prod.map maskAll id) := by
  induction trees generalizing depth with
  | nil => rfl
  | cons tree rest ih =>
    rw [Tree.maskAll_cons]
    simp only [parametersFrom, stopsParameters_mask, Tree.isSymbol_mask, ih]
    split
    · rfl
    · split <;> rfl

theorem missingParameters_mask (trees : List Tree) :
    missingParameters (maskAll trees) = missingParameters trees := by
  match trees with
  | [] => rfl
  | [a] => rfl
  | a :: b :: rest =>
    have ih := missingParameters_mask (b :: rest)
    rw [Tree.maskAll_cons] at ih
    simp only [Tree.maskAll_cons, missingParameters, Tree.isSymbol_mask, Tree.first_mask,
      Token.missedLine_mask, ih]

/-- The same list of type parameters but for its text. -/
structure Parameters.Masks (masked found : Parameters) : Prop where
  rest : masked.rest = maskAll found.rest
  problems : masked.problems = found.problems

theorem masks_typeParameters (last : Nat) (trees : List Tree) :
    (typeParameters last (maskAll trees)).Masks (typeParameters last trees) := by
  cases trees with
  | nil => exact ⟨rfl, rfl⟩
  | cons tree rest =>
    rw [Tree.maskAll_cons, typeParameters, typeParameters, Tree.isSymbol_mask, parametersFrom_mask]
    obtain ⟨taken, left, closed⟩ := parametersFrom 0 rest
    dsimp only [Prod.map, id]
    have hmissing := missingParameters_mask (tree :: taken)
    rw [Tree.maskAll_cons] at hmissing
    split
    · exact ⟨rfl, by rw [hmissing, missedLine_mask]⟩
    · exact ⟨rfl, rfl⟩

theorem lacksType_mask (tree : Tree) (rest : List Tree) :
    lacksType tree.mask (maskAll rest) = lacksType tree rest := by
  cases rest with
  | nil => simp only [lacksType, Tree.maskAll_nil, Tree.isSymbol_mask]
  | cons next rest =>
    simp only [lacksType, Tree.maskAll_cons, Tree.isSymbol_mask, isTypeWord_mask, opensBody_mask,
      next.isWord_mask (show Keyword.isSmall "new" = true by decide),
      next.isWord_mask (show Keyword.isSmall "class" = true by decide),
      next.isWord_mask (show Keyword.isSmall "struct" = true by decide),
      next.isWord_mask (show Keyword.isSmall "default" = true by decide)]

theorem junkAfterName_mask (trees : List Tree) :
    junkAfterName (maskAll trees) = junkAfterName trees := by
  cases trees with
  | nil => rfl
  | cons tree rest =>
    rw [Tree.maskAll_cons, junkAfterName, junkAfterName, opensBody_mask, Tree.isGroup_mask,
      tree.isWord_mask (by decide), any_isSymbol_mask, Tree.first_mask, Token.line_mask]

theorem isStrayBase_mask (tree : Tree) (rest : List Tree) :
    isStrayBase tree.mask (maskAll rest) = isStrayBase tree rest := by
  rw [isStrayBase, isStrayBase, isName_mask, tree.isWord_mask (by decide),
    tree.isWord_mask (by decide),
    Tree.head?_any_maskAll fun next => by rw [isTypeWord_mask, next.isWord_mask (by decide)]]

/-- The end of a head without names. -/
def HeadEnd.mask : HeadEnd → HeadEnd
  | .body items closer => .body (maskAll items) closer.mask
  | .semicolon => .semicolon
  | .missing => .missing
  | .unclosed => .unclosed

def HeadRest.mask (h : HeadRest) : HeadRest :=
  { h with ending := h.ending.mask, rest := maskAll h.rest }

theorem headRest_mask (last : Nat) (trees : List Tree) :
    headRest last (maskAll trees) = (headRest last trees).mask := by
  induction trees with
  | nil => rfl
  | cons tree rest ih =>
    cases tree with
    | unclosed opener items => rfl
    | group opener items closer =>
      rw [Tree.maskAll_cons, Tree.mask_group, headRest, headRest, Token.isSymbol_mask, ih]
      split <;> rfl
    | leaf t =>
      have hlines : ((maskAll rest).take 1).map (·.first.line) =
          (rest.take 1).map (·.first.line) := by
        cases rest with
        | nil => rfl
        | cons next rest => simp
      have hlacks := lacksType_mask (.leaf t) rest
      have hstray := isStrayBase_mask (.leaf t) rest
      rw [Tree.mask_leaf] at hlacks hstray
      rw [Tree.maskAll_cons, Tree.mask_leaf, headRest, headRest]
      dsimp only
      rw [Token.isSymbol_mask, ih, hlacks, hstray, missedLine_mask, hlines]
      split_ifs <;> rfl

end Backfield.CSharp.Declaration
