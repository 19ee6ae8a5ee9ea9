import Backfield.Proofs.Renaming.Members

/-!
# Bodies without their names

What is wrong with a text does not depend on the names in it.

* `masks_skipped` to `masks_spaceMember` follow the parser through each kind of member, and
  `masks_memberOf` is the step over one of them.
* `masks_bodyOf` is the run over a body, by induction on its fuel.
* `problems_ofText_congr` is the result: texts with the same masked tokens are wrong on the same
  lines.
-/

namespace Backfield.CSharp

namespace Declaration

open Backfield.CSharp.TypeName (missedLine isName isName_mask missedLine_mask)
open Backfield.CSharp.Tree (maskAll)

/-! ## Members that are passed over -/

theorem afterSemicolon_mask (trees : List Tree) :
    afterSemicolon (maskAll trees) = maskAll (afterSemicolon trees) := by
  cases trees with
  | nil => rfl
  | cons tree rest =>
    rw [Tree.maskAll_cons, afterSemicolon, afterSemicolon, Tree.isSymbol_mask]
    split <;> rfl

theorem masks_skipped (start last : Nat) (trees : List Tree) :
    (skipped start last (maskAll trees)).Masks (skipped start last trees) := by
  have hproblems : ∀ rest : List Tree, Statements.problemsOfMember []
      ((maskAll trees).take ((maskAll trees).length - (maskAll rest).length)) =
        Statements.problemsOfMember [] (trees.take (trees.length - rest.length)) := by
    intro rest
    rw [Tree.length_maskAll, Tree.length_maskAll, Tree.take_maskAll]
    exact Statements.problemsOfMember_mask [] _
  rw [skipped, skipped, afterMember_mask]
  obtain ⟨rest, ending⟩ := afterMember false trees
  dsimp only [Prod.map, id]
  rw [hproblems]
  cases ending with
  | closed => exact ⟨.plain _ _, rfl, rfl, rfl⟩
  | missing => exact ⟨.plain _ _, rfl, rfl, rfl⟩
  | unclosed => exact ⟨.plain _ _, rfl, rfl, rfl⟩

theorem masks_statement (start last : Nat) (trees : List Tree) :
    (statement start last (maskAll trees)).Masks (statement start last trees) := by
  have h := masks_skipped start last trees
  refine ⟨h.outline, h.rest, ?_, h.breaksType⟩
  rw [statement, statement]
  dsimp only
  rw [h.rest, h.problems, Tree.length_maskAll, Tree.length_maskAll, Tree.take_maskAll,
    Statements.problemsOfStatement_mask]

theorem masks_junk (trees : List Tree) : (junk (maskAll trees)).Masks (junk trees) := by
  cases trees with
  | nil => exact ⟨.plain _ _, rfl, rfl, rfl⟩
  | cons tree rest =>
    rw [Tree.maskAll_cons, junk, junk, Tree.first_mask, Token.line_mask]
    exact ⟨.plain _ _, rfl, rfl, rfl⟩

/-! ## Delegates and fields -/

theorem lacksParameters_mask (trees : List Tree) :
    delegate.lacksParameters (maskAll trees) = delegate.lacksParameters trees := by
  cases trees with
  | nil => rfl
  | cons tree rest =>
    rw [Tree.maskAll_cons, delegate.lacksParameters, delegate.lacksParameters, Tree.isGroup_mask,
      Tree.isSymbol_mask, Tree.first_mask, Token.missedLine_mask]

/-- The name of a type that the trees begin with, what follows it, and what is wrong with it. -/
def headName (last : Nat) (trees : List Tree) : String × List Tree × List Nat :=
  match trees with
  | tree :: rest =>
    if isName tree then (tree.word?.getD "", rest, [])
    else ("", tree :: rest, [tree.first.missedLine])
  | [] => ("", [], [last])

theorem headName_mask (last : Nat) (trees : List Tree) :
    (headName last (maskAll trees)).2.1 = maskAll (headName last trees).2.1 ∧
      (headName last (maskAll trees)).2.2 = (headName last trees).2.2 := by
  cases trees with
  | nil => exact ⟨rfl, rfl⟩
  | cons tree rest =>
    rw [Tree.maskAll_cons, headName, headName, isName_mask, Tree.first_mask, Token.missedLine_mask]
    split <;> exact ⟨rfl, rfl⟩

theorem delegate_eq (start last : Nat) (words : List String) (trees : List Tree) :
    delegate start last words trees =
      match TypeName.ofTrees? .lenient last trees with
      | none => { skipped start last trees with problems := [missedLine last trees] }
      | some r =>
        let found := headName last r.rest
        let parameters := typeParameters last found.2.1
        let after := skipped start last parameters.rest
        { outline := .plain (.type ⟨.isDelegate, words, found.1, parameters.text⟩ [])
          rest := after.rest
          problems := r.problems ++ found.2.2 ++ parameters.problems ++
            delegate.lacksParameters parameters.rest ++ after.problems } :=
  rfl

theorem masks_delegate (start last : Nat) (words others : List String) (trees : List Tree) :
    (delegate start last words (maskAll trees)).Masks (delegate start last others trees) := by
  rw [delegate_eq, delegate_eq, TypeName.ofTrees?_mask]
  cases TypeName.ofTrees? .lenient last trees with
  | none =>
    have h := masks_skipped start last trees
    exact ⟨h.outline, h.rest, congrArg ([·]) (missedLine_mask last trees), h.breaksType⟩
  | some r =>
    dsimp only [Option.map_some, Reading.mask]
    obtain ⟨hrest, hproblems⟩ := headName_mask last r.rest
    have hparameters := masks_typeParameters last (headName last r.rest).2.1
    have hskipped := masks_skipped start last (typeParameters last (headName last r.rest).2.1).rest
    rw [hrest, hproblems, hparameters.rest, hparameters.problems, lacksParameters_mask,
      hskipped.problems]
    exact ⟨.plain _ _, hskipped.rest, rfl, rfl⟩

/-- A member that is not looked into, or something that has no place in a body. -/
def otherMember (start last : Nat) (trees : List Tree) : Member :=
  if isOtherMember trees || isProperty last trees then
    let member := skipped start last trees
    { member with
      problems := missingNames last trees ++ accessorListProblems last trees ++ member.problems }
  else junk trees

theorem masks_otherMember (start last : Nat) (trees : List Tree) :
    (otherMember start last (maskAll trees)).Masks (otherMember start last trees) := by
  have h := masks_skipped start last trees
  rw [otherMember, otherMember, isOtherMember_mask, isProperty_mask]
  split
  · refine ⟨h.outline, h.rest, ?_, h.breaksType⟩
    dsimp only
    rw [missingNames_mask, accessorListProblems_mask, h.problems]
  · exact masks_junk trees

theorem plainMember_eq (start last : Nat) (names : List String) (trees : List Tree) :
    plainMember start last names trees =
      match TypeName.ofTrees? .lenient last trees with
      | none => otherMember start last trees
      | some r =>
        match afterType r.rest with
        | .otherMember => otherMember start last trees
        | .noMember => { problems := [last] }
        | .nameless => { skipped start last r.rest with breaksType := true }
        | .field =>
          let found := declarators last r.rest.length r.rest
          let typeText := if r.problems.isEmpty then some (Tree.text (r.taken trees)) else none
          let read := trees.take (trees.length - found.rest.length)
          { outline := .plain (.field ⟨names, typeText, found.names⟩)
            rest := found.rest
            problems := r.problems ++ found.problems ++ Statements.problemsOfMember [] read } :=
  rfl

theorem masks_plainMember (start last : Nat) (names others : List String) (trees : List Tree) :
    (plainMember start last names (maskAll trees)).Masks (plainMember start last others trees) := by
  have hother := masks_otherMember start last trees
  rw [plainMember_eq, plainMember_eq, TypeName.ofTrees?_mask]
  cases TypeName.ofTrees? .lenient last trees with
  | none => exact hother
  | some r =>
    dsimp only [Option.map_some, Reading.mask]
    rw [afterType_mask]
    cases afterType r.rest with
    | otherMember => exact hother
    | noMember => exact ⟨.plain _ _, rfl, rfl, rfl⟩
    | nameless =>
      have h := masks_skipped start last r.rest
      exact ⟨h.outline, h.rest, h.problems, rfl⟩
    | field =>
      have h := masks_declarators last r.rest.length r.rest
      refine ⟨.plain _ _, ?_, ?_, rfl⟩
      · dsimp only
        rw [Tree.length_maskAll, h.rest]
      · dsimp only
        rw [Tree.length_maskAll, h.rest, h.problems, Tree.length_maskAll, Tree.length_maskAll,
          Tree.take_maskAll]
        exact congrArg (_ ++ ·) (Statements.problemsOfMember_mask [] _)

/-! ## Types and namespaces -/

theorem withoutMarks_mask (items : List Tree) :
    withoutMarks (maskAll items) = maskAll (withoutMarks items) :=
  Tree.filter_maskAll (fun tree => by rw [Tree.token?_mask, Option.any_map]; rfl) items

theorem enumProblems_mask (items : List Tree) :
    enumProblems (maskAll items) = enumProblems items := by
  match items with
  | [] => rfl
  | [tree] => rfl
  | a :: b :: rest =>
    have ih := enumProblems_mask (b :: rest)
    rw [Tree.maskAll_cons] at ih
    rw [Tree.maskAll_cons, Tree.maskAll_cons, enumProblems, enumProblems, ih, isName_mask,
      isName_mask, Tree.first_mask, Token.missedLine_mask]

theorem typeMember_eq (start last : Nat) (kind : TypeKind) (words : List String)
    (trees : List Tree) :
    typeMember start last kind words trees =
      let found := headName last trees
      let parameters := typeParameters last found.2.1
      let head := headRest last parameters.rest
      let problems :=
        found.2.2 ++ parameters.problems ++ junkAfterName parameters.rest ++ head.problems
      let typeHead : TypeHead := ⟨kind, words, found.1, parameters.text⟩
      match head.ending with
      | .unclosed => unreadable start
      | .semicolon => { outline := .plain (.type typeHead []), rest := head.rest, problems }
      | .missing => { outline := .plain (.type typeHead []), rest := head.rest, problems }
      | .body items closer =>
        let rest := afterSemicolon head.rest
        if kind = .isEnum then
          { outline := .plain (.type typeHead []), rest
            problems := problems ++ enumProblems items }
        else { outline := .type typeHead items closer.missedLine start, rest, problems } :=
  rfl

theorem masks_typeMember (start last : Nat) (kind : TypeKind) (words others : List String)
    (trees : List Tree) :
    (typeMember start last kind words (maskAll trees)).Masks
      (typeMember start last kind others trees) := by
  obtain ⟨hrest, hproblems⟩ := headName_mask last trees
  have hparameters := masks_typeParameters last (headName last trees).2.1
  rw [typeMember_eq, typeMember_eq]
  dsimp only
  rw [hrest, hproblems, hparameters.rest, hparameters.problems, junkAfterName_mask, headRest_mask]
  generalize headRest last (typeParameters last (headName last trees).2.1).rest = head
  obtain ⟨ending, left, problems⟩ := head
  cases ending with
  | unclosed => exact ⟨.plain _ _, rfl, rfl, rfl⟩
  | semicolon => exact ⟨.plain _ _, rfl, rfl, rfl⟩
  | missing => exact ⟨.plain _ _, rfl, rfl, rfl⟩
  | body items closer =>
    dsimp only [HeadRest.mask, HeadEnd.mask]
    rw [afterSemicolon_mask, enumProblems_mask, Token.missedLine_mask]
    split
    · exact ⟨.plain _ _, rfl, rfl, rfl⟩
    · exact ⟨.type _ _ _ _ _, rfl, rfl, rfl⟩

/-- The name of a namespace that the trees begin with, what follows it, and what is wrong with
it. -/
def spaceName (last : Nat) (trees : List Tree) : String × List Tree × List Nat :=
  match TypeName.dotted? last trees with
  | some r => (Tree.text (r.taken trees), r.rest, r.problems)
  | none => ("", trees, [missedLine last trees])

theorem spaceName_mask (last : Nat) (trees : List Tree) :
    (spaceName last (maskAll trees)).2 = (spaceName last trees).2.map maskAll id := by
  rw [spaceName, spaceName, TypeName.dotted?_mask, missedLine_mask]
  cases TypeName.dotted? last trees <;> rfl

theorem spaceMember_eq (site : Site) (start last : Nat) (trees : List Tree) :
    spaceMember site start last trees =
      let name := (spaceName last trees).1
      let problems := (spaceName last trees).2.2
      match (spaceName last trees).2.1 with
      | [] => { outline := .plain (.fileSpace name), problems := problems ++ [last] }
      | .unclosed .. :: _ => unreadable start
      | .group opener items closer :: rest =>
        if opener.isSymbol "\x7b" then
          { outline := .space name items closer.missedLine, rest := afterSemicolon rest, problems }
        else { rest, problems := problems ++ [opener.missedLine] }
      | .leaf t :: rest =>
        if t.isSymbol ";" then
          { outline := .plain (.fileSpace name), rest
            problems := problems ++ if site = .file then [] else [start] }
        else { rest := .leaf t :: rest, problems := problems ++ [t.missedLine] } :=
  rfl

theorem masks_spaceMember (site : Site) (start last : Nat) (trees : List Tree) :
    (spaceMember site start last (maskAll trees)).Masks (spaceMember site start last trees) := by
  have hname := spaceName_mask last trees
  rw [spaceMember_eq, spaceMember_eq, hname]
  dsimp only [Prod.map, id]
  match (spaceName last trees).2.1 with
  | [] => exact ⟨.plain _ _, rfl, rfl, rfl⟩
  | .unclosed opener items :: rest => exact ⟨.plain _ _, rfl, rfl, rfl⟩
  | .group opener items closer :: rest =>
    dsimp only [Tree.maskAll_cons, Tree.mask_group]
    rw [Token.isSymbol_mask, Token.missedLine_mask, Token.missedLine_mask, afterSemicolon_mask]
    split
    · exact ⟨.space _ _ _ _, rfl, rfl, rfl⟩
    · exact ⟨.plain _ _, rfl, rfl, rfl⟩
  | .leaf t :: rest =>
    dsimp only [Tree.maskAll_cons, Tree.mask_leaf]
    rw [Token.isSymbol_mask, Token.missedLine_mask]
    split
    · exact ⟨.plain _ _, rfl, rfl, rfl⟩
    · exact ⟨.plain _ _, rfl, rfl, rfl⟩

theorem masks_declarationMember (site : Site) (start last : Nat)
    (names otherNames words otherWords : List String) (trees : List Tree) :
    (declarationMember site start last names words (maskAll trees)).Masks
      (declarationMember site start last otherNames otherWords trees) := by
  rw [declarationMember.eq_def, declarationMember.eq_def _ _ _ _ _ trees, typeKind?_mask]
  cases typeKind? trees with
  | some found =>
    obtain ⟨kind, rest⟩ := found
    cases kind with
    | isDelegate => exact masks_delegate start last words otherWords rest
    | isClass => exact masks_typeMember start last _ words otherWords rest
    | isStruct => exact masks_typeMember start last _ words otherWords rest
    | isInterface => exact masks_typeMember start last _ words otherWords rest
    | isRecord => exact masks_typeMember start last _ words otherWords rest
    | isEnum => exact masks_typeMember start last _ words otherWords rest
  | none =>
    cases trees with
    | nil => exact ⟨.plain _ _, rfl, rfl, rfl⟩
    | cons tree rest =>
      have husing := masks_usingDirective? last (tree :: rest)
      have hstatement := masks_statement start last (tree :: rest)
      have hplain := masks_plainMember start last names otherNames (tree :: rest)
      dsimp only [Option.map_none, Tree.maskAll_cons] at husing hstatement hplain ⊢
      rw [tree.isWord_mask (by decide)]
      split
      · exact masks_spaceMember site start last rest
      · revert husing
        generalize usingDirective? last (tree.mask :: maskAll rest) = masked
        generalize usingDirective? last (tree :: rest) = found
        rintro (_ | hmember)
        · dsimp only
          split
          · exact hstatement
          · exact hplain
        · exact hmember

theorem masks_memberOf (site : Site) (last : Nat) (tree : Tree) (rest : List Tree) :
    (memberOf site last tree.mask (maskAll rest)).Masks (memberOf site last tree rest) := by
  have hattributes := masks_attributes last (rest.length + 1) (tree :: rest)
  rw [Tree.maskAll_cons] at hattributes
  have hfile : (tree.mask :: maskAll rest).all isFileAttribute =
      (tree :: rest).all isFileAttribute := Tree.all_maskAll isFileAttribute_mask (tree :: rest)
  rw [memberOf.eq_def, memberOf.eq_def _ _ tree]
  dsimp only
  rw [Tree.isSymbol_mask, Tree.first_mask, Token.kind_mask, Token.line_mask,
    isConditionalAttributes_mask, Tree.length_maskAll, hattributes.rest, hattributes.problems,
    Tree.isEmpty_maskAll, hfile, modifiers_mask]
  split_ifs
  · exact ⟨.plain _ _, rfl, rfl, rfl⟩
  · exact ⟨.plain _ _, rfl, rfl, rfl⟩
  · cases tree with
    | leaf t => exact ⟨.plain _ _, rfl, rfl, rfl⟩
    | unclosed opener items => exact ⟨.plain _ _, rfl, rfl, rfl⟩
    | group opener items closer =>
      dsimp only [Tree.mask_group]
      rw [withoutMarks_mask, Token.missedLine_mask]
      exact ⟨.conditional _ _, rfl, rfl, rfl⟩
  · exact ⟨.plain _ _, rfl, rfl, rfl⟩
  · exact ⟨.plain _ _, rfl, rfl, rfl⟩
  · generalize attributes last (rest.length + 1) (tree.mask :: maskAll rest) = masked
    generalize attributes last (rest.length + 1) (tree :: rest) = found
    have h := masks_declarationMember site tree.first.line last masked.names found.names
      ((modifiers found.rest).1.map Keyword.mask) (modifiers found.rest).1 (modifiers found.rest).2
    exact ⟨h.outline, h.rest, congrArg (_ ++ ·) h.problems, h.breaksType⟩

/-! ## Bodies -/

/-- The same body but for its names. -/
structure Body.Masks (masked found : Body) : Prop where
  problems : masked.problems = found.problems
  breaksType : masked.breaksType = found.breaksType

theorem masks_bodyOf (site : Site) (last fuel : Nat) (trees : List Tree) :
    (bodyOf site last fuel (maskAll trees)).Masks (bodyOf site last fuel trees) := by
  induction fuel generalizing site last trees with
  | zero => exact ⟨rfl, rfl⟩
  | succ fuel ih =>
    cases trees with
    | nil => exact ⟨rfl, rfl⟩
    | cons tree rest =>
      have hmember := masks_memberOf site last tree rest
      rw [Tree.maskAll_cons, bodyOf, bodyOf]
      revert hmember
      generalize memberOf site last tree.mask (maskAll rest) = masked
      generalize memberOf site last tree rest = found
      obtain ⟨maskedOutline, maskedRest, maskedProblems, maskedBreaks⟩ := masked
      obtain ⟨outline, rest, problems, breaks⟩ := found
      rintro ⟨houtline, hrest, hproblems, hbreaks⟩
      dsimp only at houtline hrest hproblems hbreaks ⊢
      subst hrest hproblems hbreaks
      have hothers := ih site last rest
      cases houtline with
      | plain =>
        exact ⟨by dsimp only; rw [hothers.problems], by dsimp only; rw [hothers.breaksType]⟩
      | type maskedHead head items last start =>
        have hbody := ih .body last items
        refine ⟨?_, by dsimp only; rw [hothers.breaksType]⟩
        dsimp only
        rw [hbody.breaksType, hothers.problems]
        split
        · rfl
        · rw [hbody.problems]
      | space maskedName name items last =>
        have hbody := ih .body last items
        exact ⟨by dsimp only; rw [hbody.problems, hothers.problems],
          by dsimp only; rw [hothers.breaksType]⟩
      | conditional items last =>
        have hbody := ih site last items
        exact ⟨by dsimp only; rw [hbody.problems, hothers.problems],
          by dsimp only; rw [hothers.breaksType]⟩

end Declaration

/-! ## Texts -/

/-- Texts whose tokens differ in names only are wrong on the same lines. -/
theorem problems_ofText_congr {s t : String} (h : (Token.ofText s).mask = (Token.ofText t).mask) :
    (SourceUnit.ofText s).problems = (SourceUnit.ofText t).problems := by
  have hproblems : ∀ text : String, (SourceUnit.ofText text).problems =
      let list := (Token.ofText text).mask
      list.tokens.filterMap (·.problem?) ++ Neighbors.problems list.tokens ++
        (Forest.ofTokens list).problems ++
          (Declaration.bodyOf .file list.lastLine (4 * list.tokens.length + 4)
            (Forest.ofTokens list).trees).problems := by
    intro text
    dsimp only
    rw [Forest.ofTokens_mask]
    dsimp only [TokenList.mask]
    rw [Neighbors.problems_mask, List.filterMap_map, List.length_map,
      (Declaration.masks_bodyOf .file _ _ _).problems]
    rfl
  rw [hproblems, hproblems, h]

end Backfield.CSharp
