import Backfield.Proofs.CSharp.Forest
import Backfield.Proofs.CSharp.Remainder
import Backfield.Proofs.CSharp.Word

/-!
# What one declaration holds

The parser takes one declaration after the other off the front of the trees.  What such a
declaration can be, and from which tokens its parts are read, is said here once.

* `IsWordOf`, `SpelledBy` and `ReadFrom` say where a word, a dotted name and the head of a type come
  from.
* `Holds` lists what a declaration can be while its body is still to be read, and `holds_memberOf`
  says that it is one of these.
-/

namespace Backfield.CSharp.Declaration

open Backfield.CSharp.Tree (tokensOf sublist_tokensOf)
open Backfield.CSharp.TypeName (isName)

/-! ## Names -/

/-- The name is one of the words among the tokens. -/
def IsWordOf (tokens : List Token) (name : String) : Prop :=
  ∃ t ∈ tokens, t.kind = .word ∧ t.text = name

theorem IsWordOf.mono {tokens more : List Token} {name : String} (h : IsWordOf tokens name)
    (hmore : tokens.Sublist more) : IsWordOf more name := by
  obtain ⟨t, ht, hword⟩ := h
  exact ⟨t, hmore.subset ht, hword⟩

/-- The name is what some of the tokens spell. -/
def SpelledBy (tokens : List Token) (name : String) : Prop :=
  ∃ list : List Token, list.Sublist tokens ∧ name = Token.slice list

theorem SpelledBy.mono {tokens more : List Token} {name : String} (h : SpelledBy tokens name)
    (hmore : tokens.Sublist more) : SpelledBy more name := by
  obtain ⟨list, hlist, hname⟩ := h
  exact ⟨list, hlist.trans hmore, hname⟩

/-- The word of a tree is one of its tokens. -/
theorem isWordOf_of_word? {tree : Tree} {word : String} (h : tree.word? = some word) :
    IsWordOf tree.tokens word := by
  cases tree with
  | leaf t =>
    have hword : (if t.kind == .word then some t.text else none) = some word := h
    split at hword
    · rename_i hkind
      exact ⟨t, List.mem_singleton_self t, beq_iff_eq.mp hkind, Option.some.inj hword⟩
    · cases hword
  | group opener items closer => cases h
  | unclosed opener items => cases h

/-- A tree that is a name is a word. -/
theorem isWordOf_of_isName {tree : Tree} (h : isName tree = true) :
    IsWordOf tree.tokens (tree.word?.getD "") := by
  cases hword : tree.word? with
  | none =>
    rw [isName, hword] at h
    cases h
  | some word => exact isWordOf_of_word? hword

/-! ## Heads -/

/-- The tokens are a list of type parameters, or none: they open with an angle bracket. -/
def OpensList (tokens : List Token) : Prop :=
  tokens = [] ∨ tokens.head?.any (·.isSymbol "<") = true

/-- A head is read from tokens: its name is missing or one of the words, and the text of its
type parameters is made of some of the tokens. -/
structure ReadFrom (tokens : List Token) (head : TypeHead) : Prop where
  name : head.name = "" ∨ ∃ t ∈ tokens, t.kind = .word ∧ t.text = head.name
  parameters : ∃ list : List Token,
    list.Sublist tokens ∧ OpensList list ∧ head.typeParameters = Token.slice list

theorem ReadFrom.mono {tokens more : List Token} {head : TypeHead} (h : ReadFrom tokens head)
    (hmore : tokens.Sublist more) : ReadFrom more head where
  name := by
    rcases h.name with hempty | hword
    · exact Or.inl hempty
    · exact Or.inr (IsWordOf.mono hword hmore)
  parameters := by
    obtain ⟨list, hlist, hopens, htext⟩ := h.parameters
    exact ⟨list, hlist.trans hmore, hopens, htext⟩

/-- The tree that opens a list is the bracket. -/
theorem eq_leaf_of_isSymbol {tree : Tree} {symbol : String} (h : tree.isSymbol symbol = true) :
    ∃ t, tree = .leaf t ∧ t.isSymbol symbol = true := by
  cases tree with
  | leaf t => exact ⟨t, rfl, h⟩
  | group opener items closer => cases h
  | unclosed opener items => cases h

theorem readFrom_typeParameters (last : Nat) (trees : List Tree) :
    ∃ list : List Token, list.Sublist (tokensOf trees) ∧ OpensList list ∧
      (typeParameters last trees).text = Token.slice list := by
  unfold typeParameters
  split
  · exact ⟨[], List.nil_sublist _, Or.inl rfl, rfl⟩
  · rename_i tree rest
    split
    · rename_i hopen
      obtain ⟨t, rfl, ht⟩ := eq_leaf_of_isSymbol hopen
      have happend := append_parametersFrom 0 rest
      refine ⟨tokensOf (.leaf t :: (parametersFrom 0 rest).1), ?_, ?_, rfl⟩
      · refine sublist_tokensOf (List.Sublist.cons_cons _ ?_)
        calc (parametersFrom 0 rest).1
            |>.Sublist ((parametersFrom 0 rest).1 ++ (parametersFrom 0 rest).2.1) :=
              List.sublist_append_left _ _
          _ = rest := happend
      · exact Or.inr (by simpa using ht)
    · exact ⟨[], List.nil_sublist _, Or.inl rfl, rfl⟩

/-- In front of the head of a type stands its name, or there is a problem. -/
theorem headName_cases {last : Nat} {trees rest : List Tree} {name : String} {problems : List Nat}
    (h : (match trees with
      | tree :: rest =>
        if isName tree then (tree.word?.getD "", rest, [])
        else ("", tree :: rest, [tree.first.missedLine])
      | [] => ("", [], [last])) = (name, rest, problems)) :
    (∃ tree, trees = tree :: rest ∧ IsWordOf tree.tokens name) ∨
      rest = trees ∧ name = "" ∧ problems ≠ [] := by
  split at h
  · split at h
    · rename_i hname
      cases h
      exact Or.inl ⟨_, rfl, isWordOf_of_isName hname⟩
    · cases h
      exact Or.inr ⟨rfl, rfl, List.cons_ne_nil _ _⟩
  · cases h
    exact Or.inr ⟨rfl, rfl, List.cons_ne_nil _ _⟩

section

variable {last : Nat} {trees rest : List Tree} {name : String} {problems : List Nat}
  (h : (match trees with
    | tree :: rest =>
      if isName tree then (tree.word?.getD "", rest, [])
      else ("", tree :: rest, [tree.first.missedLine])
    | [] => ("", [], [last])) = (name, rest, problems))

include h

/-- A head is read from the trees after its keyword: the name in front, if there is one, and
the list after it. -/
theorem readFrom_head (kind : TypeKind) (modifiers : List String) :
    ReadFrom (tokensOf trees) ⟨kind, modifiers, name, (typeParameters last rest).text⟩ := by
  obtain ⟨list, hlist, hopens, htext⟩ := readFrom_typeParameters last rest
  rcases headName_cases h with ⟨tree, rfl, hword⟩ | ⟨rfl, rfl, -⟩
  · exact ⟨Or.inr (hword.mono (List.sublist_append_left _ _)),
      list, hlist.trans (List.sublist_append_right _ _), hopens, htext⟩
  · exact ⟨Or.inl rfl, list, hlist, hopens, htext⟩

/-- The name in front of the head of a type, unless it is missing. -/
theorem isWordOf_headName (hnone : problems = []) : IsWordOf (tokensOf trees) name := by
  rcases headName_cases h with ⟨tree, rfl, hword⟩ | ⟨-, -, hproblems⟩
  · exact hword.mono (List.sublist_append_left _ _)
  · exact absurd hnone hproblems

end

variable {last : Nat}

/-- The variables that are kept have names, also where one is missing. -/
theorem isWordOf_declarators (fuel : Nat) (trees : List Tree) :
    ∀ name ∈ (declarators last fuel trees).names, IsWordOf (tokensOf trees) name := by
  induction fuel generalizing trees with
  | zero => exact fun _ h => absurd h List.not_mem_nil
  | succ fuel ih =>
    unfold declarators
    split
    rename_i names problems rest heq
    have hfirst : rest <:+ trees ∧ ∀ name ∈ names, IsWordOf (tokensOf trees) name := by
      split at heq
      · split at heq
        · cases heq
          refine ⟨List.suffix_cons _ _, fun name hname => ?_⟩
          rw [Option.mem_toList] at hname
          exact (isWordOf_of_word? hname).mono (List.sublist_append_left _ _)
        · cases heq
          exact ⟨List.suffix_rfl, fun _ h => absurd h List.not_mem_nil⟩
      · cases heq
        exact ⟨List.suffix_rfl, fun _ h => absurd h List.not_mem_nil⟩
    obtain ⟨hrest, hnames⟩ := hfirst
    split
    · exact hnames
    · rename_i next more hafter
      have hmore : more <:+ trees := by
        have hnext := (suffix_afterVariable rest).trans hrest
        rw [hafter] at hnext
        exact (List.suffix_cons next more).trans hnext
      split_ifs
      · intro name hname
        rcases List.mem_append.mp hname with hname | hname
        · exact hnames name hname
        · exact (ih more name hname).mono (sublist_tokensOf hmore.sublist)
      · exact hnames
      · exact hnames

/-! ## One declaration -/

/-- What a declaration can be whose body is still to be read, with the tokens that it is read from
and the problems that come with it.  A type without a name comes with a problem. -/
inductive Holds (tokens : List Token) (problems : List Nat) : Outline → Prop
  | other : Holds tokens problems (.plain .other)
  | usingDirective (text : String) : Holds tokens problems (.plain (.usingDirective text))
  | fileSpace {name : String} (hname : SpelledBy tokens name) :
    Holds tokens problems (.plain (.fileSpace name))
  | field {group : FieldGroup} (hnames : ∀ name ∈ group.names, IsWordOf tokens name) :
    Holds tokens problems (.plain (.field group))
  | bare {head : TypeHead} (hhead : ReadFrom tokens head)
    (hname : problems = [] → IsWordOf tokens head.name) :
    Holds tokens problems (.plain (.type head []))
  | type {head : TypeHead} {body : List Tree} {last start : Nat} (hhead : ReadFrom tokens head)
    (hname : problems = [] → IsWordOf tokens head.name) (hbody : (tokensOf body).Sublist tokens) :
    Holds tokens problems (.type head body last start)
  | space {name : String} {body : List Tree} {last : Nat} (hname : SpelledBy tokens name)
    (hbody : (tokensOf body).Sublist tokens) : Holds tokens problems (.space name body last)
  | conditional {body : List Tree} {last : Nat} (hbody : (tokensOf body).Sublist tokens) :
    Holds tokens problems (.conditional body last)

/-- Among more tokens and with more problems a declaration is the same. -/
theorem Holds.mono {tokens more : List Token} {problems others : List Nat} {outline : Outline}
    (h : Holds tokens problems outline) (hmore : tokens.Sublist more)
    (hothers : others = [] → problems = []) : Holds more others outline := by
  cases h with
  | other => exact .other
  | usingDirective text => exact .usingDirective text
  | fileSpace hname => exact .fileSpace (hname.mono hmore)
  | field hnames => exact .field fun name hname => (hnames name hname).mono hmore
  | bare hhead hname => exact .bare (hhead.mono hmore) fun h => (hname (hothers h)).mono hmore
  | type hhead hname hbody =>
    exact .type (hhead.mono hmore) (fun h => (hname (hothers h)).mono hmore) (hbody.trans hmore)
  | space hname hbody => exact .space (hname.mono hmore) (hbody.trans hmore)
  | conditional hbody => exact .conditional (hbody.trans hmore)

theorem outline_skipped (start : Nat) (trees : List Tree) :
    (skipped start last trees).outline = .plain .other := by
  unfold skipped
  split
  split <;> rfl

theorem outline_junk (trees : List Tree) : (junk trees).outline = .plain .other := by
  cases trees <;> rfl

theorem holds_skipped {tokens : List Token} {problems : List Nat} (start : Nat)
    (trees : List Tree) : Holds tokens problems (skipped start last trees).outline := by
  rw [outline_skipped]
  exact .other

theorem holds_delegate (start : Nat) (modifiers : List String) (trees : List Tree) :
    Holds (tokensOf trees) (delegate start last modifiers trees).problems
      (delegate start last modifiers trees).outline := by
  unfold delegate
  split
  · exact holds_skipped start trees
  · rename_i r hr
    have hrest : (tokensOf r.rest).Sublist (tokensOf trees) :=
      sublist_tokensOf (TypeName.suffix_ofTrees? hr).sublist
    split
    rename_i name rest problems heq
    refine .bare ((readFrom_head heq .isDelegate modifiers).mono hrest) fun hproblems => ?_
    simp only [List.append_eq_nil_iff] at hproblems
    exact (isWordOf_headName heq hproblems.1.1.1.2).mono hrest

/-- What stands between two brackets is among the tokens. -/
theorem sublist_group (opener closer : Token) (items rest : List Tree) :
    (tokensOf items).Sublist (tokensOf (.group opener items closer :: rest)) := by
  simp only [Tree.tokensOf_cons, Tree.tokens_group]
  exact ((List.sublist_append_left _ _).trans (List.sublist_cons_self _ _)).trans
    (List.sublist_append_left _ _)

/-- The body of a type is one of the trees after its head. -/
theorem sublist_headRest {trees items : List Tree} {closer : Token}
    (h : (headRest last trees).ending = .body items closer) :
    (tokensOf items).Sublist (tokensOf trees) := by
  induction trees with
  | nil => cases h
  | cons tree rest ih =>
    have hrest : (tokensOf rest).Sublist (tokensOf (tree :: rest)) :=
      List.sublist_append_right _ _
    cases tree with
    | unclosed opener more => cases h
    | group opener more closer' =>
      rw [headRest] at h
      split at h
      · cases h
        exact sublist_group ..
      · exact (ih h).trans hrest
    | leaf t =>
      rw [headRest] at h
      split at h
      · cases h
      · dsimp only at h
        split_ifs at h
        · exact (ih h).trans hrest
        · exact (ih h).trans hrest
        · exact (ih h).trans hrest

theorem holds_typeMember (start : Nat) (kind : TypeKind) (modifiers : List String)
    (trees : List Tree) :
    Holds (tokensOf trees) (typeMember start last kind modifiers trees).problems
      (typeMember start last kind modifiers trees).outline := by
  unfold typeMember
  split
  rename_i name rest problems heq
  have hhead := readFrom_head heq kind modifiers
  -- Every way the head ends keeps the problem with the name.
  have hname : ∀ more, problems ++ more = [] → IsWordOf (tokensOf trees) name :=
    fun more hproblems => isWordOf_headName heq (List.append_eq_nil_iff.mp hproblems).1
  simp only [List.append_assoc]
  split
  · exact .other
  · exact .bare hhead (hname _)
  · exact .bare hhead (hname _)
  · rename_i items closer hbody
    split
    · exact .bare hhead (hname _)
    · refine .type hhead (hname _) ((sublist_headRest hbody).trans (sublist_tokensOf ?_))
      exact ((suffix_typeParameters rest).trans (suffix_headName heq)).sublist

theorem holds_spaceMember {problems : List Nat} (site : Site) (start : Nat) (trees : List Tree) :
    Holds (tokensOf trees) problems (spaceMember site start last trees).outline := by
  unfold spaceMember
  split
  rename_i name rest problems' heq
  have hread : SpelledBy (tokensOf trees) name ∧ (tokensOf rest).Sublist (tokensOf trees) := by
    split at heq
    · rename_i r hr
      cases heq
      exact ⟨⟨_, sublist_tokensOf (List.take_sublist _ _), rfl⟩,
        sublist_tokensOf (TypeName.suffix_dotted? hr).sublist⟩
    · cases heq
      exact ⟨⟨[], List.nil_sublist _, rfl⟩, List.Sublist.refl _⟩
  obtain ⟨hname, hrest⟩ := hread
  split
  · exact .fileSpace hname
  · exact .other
  · split
    · exact .space hname ((sublist_group ..).trans hrest)
    · exact .other
  · split
    · exact .fileSpace hname
    · exact .other

theorem holds_plainMember {problems : List Nat} (start : Nat) (attributes : List String)
    (trees : List Tree) :
    Holds (tokensOf trees) problems (plainMember start last attributes trees).outline := by
  have hother : ∀ b : Bool, Holds (tokensOf trees) problems (if b then
      { skipped start last trees with
        problems := missingNames last trees ++ accessorListProblems last trees ++
          (skipped start last trees).problems }
      else junk trees).outline := by
    intro b
    cases b
    · exact outline_junk trees ▸ .other
    · exact holds_skipped start trees
  unfold plainMember
  dsimp only
  cases hr : TypeName.ofTrees? .lenient last trees with
  | none => exact hother _
  | some r =>
    dsimp only
    cases afterType r.rest with
    | otherMember => exact hother _
    | noMember => exact .other
    | nameless => exact holds_skipped start r.rest
    | field =>
      refine .field fun name hname => (isWordOf_declarators _ r.rest name hname).mono ?_
      exact sublist_tokensOf (TypeName.suffix_ofTrees? hr).sublist

theorem holds_usingDirective? {tokens : List Token} {problems : List Nat} {trees : List Tree}
    {m : Member} (h : usingDirective? last trees = some m) : Holds tokens problems m.outline := by
  obtain ⟨rest, -, h⟩ := Option.bind_eq_some_iff.mp h
  split at h
  · split_ifs at h
    · cases h
      exact .other
    · cases h
      exact .other
  · split at h
    · cases h
      exact .usingDirective _
    · split_ifs at h
      · cases h
        exact .usingDirective _
      · cases h
        exact .usingDirective _

theorem holds_declarationMember (site : Site) (start : Nat) (attributes modifiers : List String)
    (trees : List Tree) :
    Holds (tokensOf trees) (declarationMember site start last attributes modifiers trees).problems
      (declarationMember site start last attributes modifiers trees).outline := by
  unfold declarationMember
  split
  · rename_i rest hkind
    exact (holds_delegate start modifiers rest).mono
      (sublist_tokensOf (suffix_typeKind? hkind).sublist) id
  · rename_i kind rest _ hkind
    exact (holds_typeMember start kind modifiers rest).mono
      (sublist_tokensOf (suffix_typeKind? hkind).sublist) id
  · split
    · exact .other
    · split
      · exact (holds_spaceMember site start _).mono (List.sublist_append_right _ _) id
      · split
        · rename_i member hmember
          exact holds_usingDirective? hmember
        · split
          · exact holds_skipped start _
          · exact holds_plainMember start attributes _

/-- What the first declaration can be, read from the trees it was given. -/
theorem holds_memberOf (site : Site) (tree : Tree) (rest : List Tree) :
    Holds (tokensOf (tree :: rest)) (memberOf site last tree rest).problems
      (memberOf site last tree rest).outline := by
  unfold memberOf
  dsimp only
  split
  · exact .other
  · split
    · split
      · rename_i opener items closer
        exact .conditional ((sublist_tokensOf List.filter_sublist).trans (sublist_group ..))
      · exact .other
    · have hattributes : (attributes last (rest.length + 1) (tree :: rest)).rest <:+ tree :: rest :=
        suffix_attributes _ _
      split
      · exact .other
      · exact (holds_declarationMember site _ _ _ _).mono
          (sublist_tokensOf ((suffix_modifiers _).trans hattributes).sublist)
          fun hproblems => (List.append_eq_nil_iff.mp hproblems).2

end Backfield.CSharp.Declaration
