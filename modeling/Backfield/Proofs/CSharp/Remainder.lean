import Mathlib.Data.List.Infix
import Backfield.CSharp.Declaration.Parser

/-!
# What a reading leaves

Every function of the parser reads from the front of its trees.  For each of them a lemma says
that what it leaves is a suffix of what it was given, so nothing is made up, moved or read
twice.  `suffix_memberOf` is the result for a whole declaration.
-/

namespace Backfield.CSharp

namespace TypeName

variable {mode : Mode} {last : Nat}

theorem suffix_afterReference (trees : List Tree) : afterReference trees <:+ trees := by
  have hdrop : ∀ n, trees.drop n <:+ trees := fun n => List.drop_suffix n trees
  unfold afterReference
  split
  · rename_i a b c rest
    have h1 : b :: c :: rest <:+ a :: b :: c :: rest := hdrop 1
    have h2 : c :: rest <:+ a :: b :: c :: rest := hdrop 2
    have h3 : rest <:+ a :: b :: c :: rest := hdrop 3
    split_ifs <;> first | assumption | exact List.suffix_rfl
  · split_ifs
    · exact hdrop 1
    · exact List.suffix_rfl
  · exact List.suffix_rfl

theorem suffix_afterMarks (trees : List Tree) : (afterMarks mode last trees).rest <:+ trees := by
  induction trees with
  | nil => exact List.suffix_rfl
  | cons tree rest ih =>
    rw [afterMarks]
    split_ifs
    · exact ih.trans (List.suffix_cons tree rest)
    · exact ih.trans (List.suffix_cons tree rest)
    · exact List.suffix_rfl

theorem suffix_withMarks {r : Reading} {trees : List Tree} (hr : r.rest <:+ trees) :
    (Reading.withMarks mode last r).rest <:+ trees :=
  (suffix_afterMarks r.rest).trans hr

theorem suffix_missingEnd? {r r' : Reading} (h : missingEnd? mode last r = some r') :
    r'.rest = r.rest := by
  cases mode with
  | strict => cases h
  | lenient =>
    cases h
    rfl

theorem suffix_missingType? {trees : List Tree} {r : Reading}
    (h : missingType? mode last trees = some r) : r.rest = trees := by
  unfold missingType? at h
  split at h
  · cases h
    rfl
  · cases h

/-- The type arguments that may follow a part of a name. -/
def ownArguments? (mode : Mode) (last fuel : Nat) : List Tree → Option Reading
  | [] => some ⟨[], []⟩
  | next :: rest =>
    if next.isSymbol "<" then arguments? mode last fuel rest else some ⟨next :: rest, []⟩

/-- The parts of a name after the first one and its type arguments. -/
def afterPart? (mode : Mode) (last fuel : Nat) (arguments : Reading) : Option Reading :=
  match arguments.rest with
  | dot :: more =>
    if dot.isSymbol "." || dot.isSymbol "::" then
      match name? mode last fuel more with
      | some r => some ⟨r.rest, arguments.problems ++ r.problems⟩
      | none =>
        if mode = .lenient && !more.head?.any (·.word?.isSome) then
          some ⟨more, arguments.problems ++ [missedLine last more]⟩
        else some arguments
    else some arguments
  | [] => some arguments

theorem name?_cons (fuel : Nat) (tree : Tree) (rest : List Tree) :
    name? mode last (fuel + 1) (tree :: rest) =
      if !isTypeWord tree then none
      else (ownArguments? mode last fuel rest).bind (afterPart? mode last fuel) := by
  rw [name?]
  cases rest with
  | nil => rfl
  | cons next more =>
    rw [ownArguments?]
    by_cases hopen : next.isSymbol "<" = true
    · simp only [hopen, ↓reduceIte]
      rfl
    · simp only [hopen, Bool.false_eq_true, ↓reduceIte]
      rfl

mutual

theorem suffix_type? : ∀ (fuel : Nat) {trees : List Tree} {r : Reading},
    type? mode last fuel trees = some r → r.rest <:+ trees
  | 0, _, _, h => by simp [type?] at h
  | fuel + 1, trees, r, h => by
    have href := suffix_afterReference trees
    rw [type?] at h
    split at h
    · cases h
    · rename_i tree rest heq
      rw [heq] at href
      have hrest : rest <:+ trees := (List.suffix_cons tree rest).trans href
      split_ifs at h
      · cases h
        exact suffix_withMarks hrest
      · exact (suffix_functionPointer? fuel h).trans ((List.drop_suffix 1 rest).trans hrest)
      · obtain ⟨r', hr', rfl⟩ := Option.map_eq_some_iff.mp h
        exact suffix_withMarks ((suffix_name? fuel hr').trans href)

theorem suffix_name? : ∀ (fuel : Nat) {trees : List Tree} {r : Reading},
    name? mode last fuel trees = some r → r.rest <:+ trees
  | 0, _, _, h => by simp [name?] at h
  | _ + 1, [], _, h => by simp [name?] at h
  | fuel + 1, tree :: rest, r, h => by
    rw [name?_cons] at h
    split_ifs at h
    obtain ⟨args, hargs, h⟩ := Option.bind_eq_some_iff.mp h
    have hargs' : args.rest <:+ tree :: rest := by
      refine List.IsSuffix.trans ?_ (List.suffix_cons tree rest)
      unfold ownArguments? at hargs
      split at hargs
      · cases hargs
        exact List.suffix_rfl
      · rename_i next more
        split_ifs at hargs
        · exact (suffix_arguments? fuel hargs).trans (List.suffix_cons next more)
        · cases hargs
          exact List.suffix_rfl
    unfold afterPart? at h
    split at h
    · rename_i dot more heq
      rw [heq] at hargs'
      have hmore : more <:+ tree :: rest := (List.suffix_cons dot more).trans hargs'
      split at h
      · split at h
        · rename_i r' hr'
          cases h
          exact (suffix_name? fuel hr').trans hmore
        · split at h
          · cases h
            exact hmore
          · cases h
            rwa [heq]
      · cases h
        rwa [heq]
    · cases h
      exact hargs'

theorem suffix_arguments? : ∀ (fuel : Nat) {trees : List Tree} {r : Reading},
    arguments? mode last fuel trees = some r → r.rest <:+ trees
  | 0, _, _, h => by simp [arguments?] at h
  | fuel + 1, trees, r, h => by
    rw [arguments?] at h
    split at h
    · rename_i close rest heq
      split_ifs at h
      · cases h
        have hdrop := List.dropWhile_suffix (l := trees) (·.isSymbol ",")
        rw [heq] at hdrop
        exact (List.suffix_cons close rest).trans hdrop
      · exact suffix_argumentList? fuel h
    · cases h

theorem suffix_argumentList? : ∀ (fuel : Nat) {trees : List Tree} {r : Reading},
    argumentList? mode last fuel trees = some r → r.rest <:+ trees
  | 0, _, _, h => by simp [argumentList?] at h
  | fuel + 1, trees, r, h => by
    rw [argumentList?] at h
    obtain ⟨first, hfirst, h⟩ := Option.bind_eq_some_iff.mp h
    have hfirst' : first.rest <:+ trees := by
      rcases Option.or_eq_some_iff.mp hfirst with htype | ⟨-, hmissing⟩
      · exact suffix_type? fuel htype
      · rw [suffix_missingType? hmissing]
    split at h
    · rename_i next rest heq
      rw [heq] at hfirst'
      have hrest : rest <:+ trees := (List.suffix_cons next rest).trans hfirst'
      split_ifs at h
      · cases h
        exact hrest
      · obtain ⟨more, hmore, rfl⟩ := Option.map_eq_some_iff.mp h
        exact (suffix_argumentList? fuel hmore).trans hrest
      · rw [suffix_missingEnd? h, heq]
        exact hfirst'
    · rw [suffix_missingEnd? h]
      exact hfirst'

theorem suffix_functionPointer? : ∀ (fuel : Nat) {trees : List Tree} {r : Reading},
    functionPointer? mode last fuel trees = some r → r.rest <:+ trees
  | 0, _, _, h => by simp [functionPointer?] at h
  | fuel + 1, trees, r, h => by
    rw [functionPointer?] at h
    split at h
    · rename_i bracket rest heq
      split_ifs at h
      · obtain ⟨r', hr', rfl⟩ := Option.map_eq_some_iff.mp h
        have hdrop := List.dropWhile_suffix (l := trees) fun tree => isName tree || tree.isGroup "["
        rw [heq] at hdrop
        exact suffix_withMarks
          ((suffix_argumentList? fuel hr').trans ((List.suffix_cons bracket rest).trans hdrop))
    · cases h

end

theorem suffix_ofTrees? {trees : List Tree} {r : Reading}
    (h : ofTrees? mode last trees = some r) : r.rest <:+ trees :=
  suffix_type? _ h

theorem suffix_dotted? {trees : List Tree} {r : Reading}
    (h : dotted? last trees = some r) : r.rest <:+ trees :=
  suffix_name? _ h

end TypeName

namespace Declaration

open Backfield.CSharp.TypeName (isName suffix_ofTrees? suffix_dotted? suffix_arguments?)

variable {last : Nat}

/-! ## Heads -/

theorem suffix_afterArguments (trees : List Tree) : afterArguments trees <:+ trees := by
  unfold afterArguments
  split
  · exact List.suffix_rfl
  · split_ifs
    · exact List.suffix_cons _ _
    · exact List.suffix_rfl

theorem suffix_openAttributeList (fuel : Nat) (trees : List Tree) :
    (openAttributeList last fuel trees).rest <:+ trees := by
  induction fuel generalizing trees with
  | zero => exact List.suffix_rfl
  | succ fuel ih =>
    rw [openAttributeList]
    split
    · exact List.suffix_rfl
    · rename_i r hr
      have hafter := (suffix_afterArguments r.rest).trans (suffix_dotted? hr)
      dsimp only
      split
      · exact List.nil_suffix
      · rename_i next rest heq
        rw [heq] at hafter
        split_ifs
        · exact (ih rest).trans ((List.suffix_cons next rest).trans hafter)
        · exact hafter

theorem suffix_attributes (fuel : Nat) (trees : List Tree) :
    (attributes last fuel trees).rest <:+ trees := by
  induction fuel generalizing trees with
  | zero => exact List.suffix_rfl
  | succ fuel ih =>
    cases trees with
    | nil => exact List.suffix_rfl
    | cons tree rest =>
      unfold attributes
      dsimp only
      split
      · exact List.suffix_rfl
      · rename_i found hfound
        refine (ih found.rest).trans (List.IsSuffix.trans ?_ (List.suffix_cons tree rest))
        split at hfound
        · split_ifs at hfound
          · cases hfound
            exact List.suffix_rfl
          · cases hfound
            exact List.suffix_rfl
        · split_ifs at hfound
          cases hfound
          exact suffix_openAttributeList _ rest
        · cases hfound

theorem suffix_modifiers (trees : List Tree) : (modifiers trees).2 <:+ trees := by
  induction trees with
  | nil => exact List.suffix_rfl
  | cons tree rest ih =>
    rw [modifiers]
    split
    · split_ifs
      · exact ih.trans (List.suffix_cons tree rest)
      · exact List.suffix_rfl
    · exact List.suffix_rfl

theorem suffix_typeKind? {trees rest : List Tree} {kind : TypeKind}
    (h : typeKind? trees = some (kind, rest)) : rest <:+ trees := by
  unfold typeKind? at h
  split at h
  · cases h
  · rename_i tree tail
    refine List.IsSuffix.trans ?_ (List.suffix_cons tree tail)
    split at h
    · cases h
      exact List.suffix_rfl
    · cases h
      exact List.suffix_rfl
    · cases h
      exact List.suffix_rfl
    · cases h
      exact List.suffix_rfl
    · dsimp only at h
      split_ifs at h
      cases h
      exact (List.drop_suffix 1 _).trans (List.dropWhile_suffix _)
    · split_ifs at h
      cases h
      exact List.suffix_rfl
    · split at h
      · split at h
        · cases h
          exact List.suffix_cons _ _
        · split_ifs at h
          · cases h
            exact List.suffix_rfl
          · cases h
            exact List.suffix_rfl
      · cases h
    · cases h

/-- The trees of a list of type parameters and the trees left are all the trees. -/
theorem append_parametersFrom (depth : Nat) (trees : List Tree) :
    (parametersFrom depth trees).1 ++ (parametersFrom depth trees).2.1 = trees := by
  induction trees generalizing depth with
  | nil => rfl
  | cons tree rest ih =>
    unfold parametersFrom
    split
    · rfl
    · split
      · rfl
      · rw [List.cons_append, ih]

theorem suffix_parametersFrom (depth : Nat) (trees : List Tree) :
    (parametersFrom depth trees).2.1 <:+ trees :=
  ⟨_, append_parametersFrom depth trees⟩

theorem suffix_typeParameters (trees : List Tree) :
    (typeParameters last trees).rest <:+ trees := by
  unfold typeParameters
  split
  · exact List.suffix_rfl
  · rename_i tree rest
    split_ifs
    · exact (suffix_parametersFrom 0 rest).trans (List.suffix_cons tree rest)
    · exact List.suffix_rfl

theorem suffix_headRest (trees : List Tree) : (headRest last trees).rest <:+ trees := by
  induction trees with
  | nil => exact List.suffix_rfl
  | cons tree rest ih =>
    have hcons := List.suffix_cons tree rest
    cases tree with
    | unclosed opener items => exact List.nil_suffix
    | group opener items closer =>
      rw [headRest]
      split
      · exact hcons
      · exact ih.trans hcons
    | leaf t =>
      rw [headRest]
      split
      · exact hcons
      · dsimp only
        split_ifs
        · exact ih.trans hcons
        · exact ih.trans hcons
        · exact ih.trans hcons

/-! ## Members -/

theorem suffix_afterTypeArguments? {before trees rest : List Tree}
    (h : afterTypeArguments? before trees = some rest) : rest <:+ trees := by
  unfold afterTypeArguments? at h
  split at h
  · rename_i r hr
    split_ifs at h
    cases h
    exact suffix_arguments? _ hr
  · cases h

theorem suffix_afterExpression (fuel : Nat) (before trees : List Tree) :
    afterExpression fuel before trees <:+ trees := by
  induction fuel generalizing before trees with
  | zero => exact List.suffix_rfl
  | succ fuel ih =>
    cases trees with
    | nil => exact List.suffix_rfl
    | cons tree rest =>
      have hcons := List.suffix_cons tree rest
      unfold afterExpression
      split
      · exact List.suffix_rfl
      · split
        · split
          · rename_i after hafter
            exact (ih _ after).trans ((suffix_afterTypeArguments? hafter).trans hcons)
          · exact (ih _ rest).trans hcons
        · split
          · exact List.suffix_rfl
          · exact (ih _ rest).trans hcons

/-- The trees without the size that may stand in front. -/
theorem suffix_afterVariable (trees : List Tree) : afterVariable trees <:+ trees := by
  have hvalue : ∀ trees : List Tree, (match trees with
      | equals :: rest => if equals.isSymbol "=" then afterExpression rest.length [] rest else trees
      | [] => []) <:+ trees := by
    intro trees
    split
    · rename_i equals rest
      split
      · exact (suffix_afterExpression _ _ rest).trans (List.suffix_cons equals rest)
      · exact List.suffix_rfl
    · exact List.suffix_rfl
  unfold afterVariable
  refine (hvalue _).trans ?_
  split
  · split
    · exact List.suffix_cons _ _
    · exact List.suffix_rfl
  · exact List.suffix_rfl

theorem suffix_declarators (fuel : Nat) (trees : List Tree) :
    (declarators last fuel trees).rest <:+ trees := by
  induction fuel generalizing trees with
  | zero => exact List.suffix_rfl
  | succ fuel ih =>
    -- What is left after the name and the initialiser of the first variable.
    have hvariable : ∀ rest : List Tree, rest <:+ trees → ∀ next more,
        afterVariable rest = next :: more → next :: more <:+ trees := by
      intro rest hrest next more heq
      rw [← heq]
      exact (suffix_afterVariable rest).trans hrest
    have hname : ∀ tree rest, trees = tree :: rest → rest <:+ trees := by
      intro tree rest heq
      rw [heq]
      exact List.suffix_cons tree rest
    unfold declarators
    split
    rename_i names problems rest heq
    have hrest : rest <:+ trees := by
      split at heq
      · split at heq
        · cases heq
          exact List.suffix_cons _ _
        · cases heq
          exact List.suffix_rfl
      · cases heq
        exact List.suffix_rfl
    split
    · exact List.nil_suffix
    · rename_i next more hafter
      have hnext := hvariable rest hrest next more hafter
      have hmore := (List.suffix_cons next more).trans hnext
      split_ifs
      · exact (ih more).trans hmore
      · exact hmore
      · exact hnext

theorem suffix_afterUsingWords {trees rest : List Tree} (h : afterUsingWords trees = some rest) :
    rest <:+ trees := by
  have hword : ∀ (word : String) (trees : List Tree),
      (if trees.head?.any (·.isWord word) then trees.drop 1 else trees) <:+ trees := by
    intro word trees
    split
    · exact List.drop_suffix 1 trees
    · exact List.suffix_rfl
  unfold afterUsingWords at h
  dsimp only at h
  split at h
  · rename_i tree more heq
    have htrees := hword "global" trees
    rw [heq] at htrees
    split at h
    · cases h
      exact (hword "unsafe" _).trans
        ((hword "static" more).trans ((List.suffix_cons tree more).trans htrees))
    · cases h
  · cases h

theorem suffix_usingTarget {trees : List Tree} {r : Reading} (h : usingTarget last trees = some r) :
    r.rest <:+ trees := by
  unfold usingTarget at h
  split at h
  · rename_i name equals rest
    have hequals : equals :: rest <:+ name :: equals :: rest := List.suffix_cons name _
    split_ifs at h
    · exact (suffix_ofTrees? h).trans ((List.suffix_cons equals rest).trans hequals)
    · obtain ⟨r', hr', rfl⟩ := Option.map_eq_some_iff.mp h
      exact (suffix_ofTrees? hr').trans hequals
    · exact suffix_dotted? h
  · exact suffix_dotted? h

theorem suffix_usingDirective? {trees : List Tree} {m : Member}
    (h : usingDirective? last trees = some m) : m.rest <:+ trees := by
  obtain ⟨rest, hrest, h⟩ := Option.bind_eq_some_iff.mp h
  have hrest' := suffix_afterUsingWords hrest
  split at h
  · split_ifs at h
    · cases h
      exact (List.drop_suffix 1 rest).trans hrest'
    · cases h
      exact List.nil_suffix
  · rename_i r hr
    have hr' := (suffix_usingTarget hr).trans hrest'
    split at h
    · cases h
      exact List.nil_suffix
    · rename_i tree more heq
      rw [heq] at hr'
      split_ifs at h
      · cases h
        exact (List.suffix_cons tree more).trans hr'
      · cases h
        rwa [heq]

theorem suffix_afterMember (givesValue : Bool) (trees : List Tree) :
    (afterMember givesValue trees).1 <:+ trees := by
  induction trees generalizing givesValue with
  | nil => exact List.suffix_rfl
  | cons tree rest ih =>
    have hcons := List.suffix_cons tree rest
    cases tree with
    | unclosed opener items => exact List.nil_suffix
    | group opener items closer =>
      rw [afterMember]
      split_ifs
      · exact (ih _).trans hcons
      · exact hcons
      · exact (ih _).trans hcons
    | leaf t =>
      rw [afterMember]
      split_ifs
      · exact hcons
      · exact (ih _).trans hcons

theorem suffix_afterSemicolon (trees : List Tree) : afterSemicolon trees <:+ trees := by
  unfold afterSemicolon
  split
  · exact List.suffix_rfl
  · split
    · exact List.suffix_cons _ _
    · exact List.suffix_rfl

theorem suffix_skipped (start : Nat) (trees : List Tree) :
    (skipped start last trees).rest <:+ trees := by
  unfold skipped
  split
  rename_i rest ending heq
  have hrest : rest <:+ trees := by
    have h := suffix_afterMember false trees
    rwa [heq] at h
  cases ending with
  | closed => exact hrest
  | missing => exact hrest
  | unclosed => exact List.nil_suffix

theorem suffix_junk (trees : List Tree) : (junk trees).rest <:+ trees := by
  cases trees with
  | nil => exact List.suffix_rfl
  | cons tree rest => exact List.suffix_cons tree rest

theorem suffix_delegate (start : Nat) (modifiers : List String) (trees : List Tree) :
    (delegate start last modifiers trees).rest <:+ trees := by
  unfold delegate
  split
  · exact suffix_skipped start trees
  · rename_i r hr
    refine (suffix_skipped start _).trans ((suffix_typeParameters _).trans ?_)
    refine List.IsSuffix.trans ?_ (suffix_ofTrees? hr)
    split
    · rename_i tree rest heq
      rw [heq]
      split
      · exact List.suffix_cons tree rest
      · exact List.suffix_rfl
    · exact List.nil_suffix

theorem suffix_plainMember (start : Nat) (attributes : List String) (trees : List Tree) :
    (plainMember start last attributes trees).rest <:+ trees := by
  have hother : ∀ b : Bool, (if b then
      { skipped start last trees with
        problems := missingNames last trees ++ accessorListProblems last trees ++
          (skipped start last trees).problems }
      else junk trees).rest <:+ trees := by
    intro b
    cases b
    · exact suffix_junk trees
    · exact suffix_skipped start trees
  unfold plainMember
  dsimp only
  cases hr : TypeName.ofTrees? .lenient last trees with
  | none => exact hother _
  | some r =>
    dsimp only
    cases hafter : afterType r.rest with
    | otherMember => exact hother _
    | noMember => exact List.nil_suffix
    | nameless => exact (suffix_skipped start r.rest).trans (suffix_ofTrees? hr)
    | field => exact (suffix_declarators _ r.rest).trans (suffix_ofTrees? hr)

/-- The name of a type is in front of what is read next. -/
theorem suffix_headName {trees rest : List Tree} {name : String} {problems : List Nat}
    (h : (match trees with
      | tree :: rest =>
        if TypeName.isName tree then (tree.word?.getD "", rest, [])
        else ("", tree :: rest, [tree.first.missedLine])
      | [] => ("", [], [last])) = (name, rest, problems)) : rest <:+ trees := by
  split at h
  · split at h
    · cases h
      exact List.suffix_cons _ _
    · cases h
      exact List.suffix_rfl
  · cases h
    exact List.suffix_rfl

theorem suffix_typeMember (start : Nat) (kind : TypeKind) (modifiers : List String)
    (trees : List Tree) : (typeMember start last kind modifiers trees).rest <:+ trees := by
  unfold typeMember
  split
  rename_i name rest problems heq
  have hhead : (headRest last (typeParameters last rest).rest).rest <:+ trees :=
    (suffix_headRest _).trans ((suffix_typeParameters rest).trans (suffix_headName heq))
  dsimp only
  split
  · exact List.nil_suffix
  · exact hhead
  · exact hhead
  · split
    · exact (suffix_afterSemicolon _).trans hhead
    · exact (suffix_afterSemicolon _).trans hhead

theorem suffix_spaceMember (site : Site) (start : Nat) (trees : List Tree) :
    (spaceMember site start last trees).rest <:+ trees := by
  unfold spaceMember
  split
  rename_i name rest problems heq
  have hrest : rest <:+ trees := by
    split at heq
    · rename_i r hr
      cases heq
      exact suffix_dotted? hr
    · cases heq
      exact List.suffix_rfl
  split
  · exact List.nil_suffix
  · exact List.nil_suffix
  · have hmore := (List.suffix_cons _ _).trans hrest
    split
    · exact (suffix_afterSemicolon _).trans hmore
    · exact hmore
  · split
    · exact (List.suffix_cons _ _).trans hrest
    · exact hrest

theorem suffix_declarationMember (site : Site) (start : Nat) (attributes modifiers : List String)
    (trees : List Tree) :
    (declarationMember site start last attributes modifiers trees).rest <:+ trees := by
  unfold declarationMember
  split
  · rename_i rest hkind
    exact (suffix_delegate start modifiers rest).trans (suffix_typeKind? hkind)
  · rename_i kind rest _ hkind
    exact (suffix_typeMember start kind modifiers rest).trans (suffix_typeKind? hkind)
  · split
    · exact List.nil_suffix
    · split
      · exact (suffix_spaceMember site start _).trans (List.suffix_cons _ _)
      · split
        · rename_i member hmember
          exact suffix_usingDirective? hmember
        · split
          · exact suffix_skipped start _
          · exact suffix_plainMember start attributes _

/-- What is left after a declaration is a suffix of the trees that it was read from. -/
theorem suffix_memberOf (site : Site) (tree : Tree) (rest : List Tree) :
    (memberOf site last tree rest).rest <:+ tree :: rest := by
  have hcons := List.suffix_cons tree rest
  unfold memberOf
  dsimp only
  split
  · exact hcons
  · split
    · split
      · exact hcons
      · exact hcons
    · have hattributes : (attributes last (rest.length + 1) (tree :: rest)).rest <:+ tree :: rest :=
        suffix_attributes _ _
      split
      · exact List.nil_suffix
      · exact (suffix_declarationMember site _ _ _ _).trans
          ((suffix_modifiers _).trans hattributes)

end Declaration

end Backfield.CSharp
