import Backfield.Proofs.CSharp.Outlines

/-!
# Where the heads of types come from

The name of a type and its list of type parameters stand in the text as they were read.

* `OutlineFrom` says so of a declaration whose body is still to be read, and
  `outlineFrom_memberOf` of the first one.
* `forall_mem_bodyOf` carries such a step through bodies of bodies, and `readFrom_bodyOf` does so
  for the heads.
* `readFrom_ofText` is the result for a whole text.
-/

namespace Backfield.CSharp

open Backfield.CSharp.Tree (tokensOf sublist_tokensOf)

namespace Declaration

mutual

/-- The heads of the types in a declaration, in the order of the text. -/
def heads : Declaration → List TypeHead
  | .type head body => head :: headsOf body
  | .space _ body => headsOf body
  | .conditional body => headsOf body
  | .usingDirective _ => []
  | .fileSpace _ => []
  | .field _ => []
  | .other => []
termination_by structural declaration => declaration

/-- The heads of the types in successive declarations. -/
def headsOf : List Declaration → List TypeHead
  | [] => []
  | declaration :: rest => declaration.heads ++ headsOf rest
termination_by structural declarations => declarations

end

@[simp] theorem headsOf_append (declarations more : List Declaration) :
    headsOf (declarations ++ more) = headsOf declarations ++ headsOf more := by
  induction declarations with
  | nil => rfl
  | cons declaration rest ih => simp [headsOf, ih]

@[simp] theorem headsOf_singleton (declaration : Declaration) :
    headsOf [declaration] = declaration.heads := by
  simp [headsOf]

/-! ## One declaration -/

/-- What an outline holds is read from tokens. -/
def OutlineFrom (tokens : List Token) : Outline → Prop
  | .plain declaration => ∀ head ∈ declaration.heads, ReadFrom tokens head
  | .type head body _ _ => ReadFrom tokens head ∧ (tokensOf body).Sublist tokens
  | .space _ body _ => (tokensOf body).Sublist tokens
  | .conditional body _ => (tokensOf body).Sublist tokens

variable {last : Nat}

theorem Holds.outlineFrom {tokens : List Token} {problems : List Nat} {outline : Outline}
    (h : Holds tokens problems outline) : OutlineFrom tokens outline := by
  cases h with
  | bare hhead => exact fun other hother => List.mem_singleton.mp hother ▸ hhead
  | type hhead _ hbody => exact ⟨hhead, hbody⟩
  | space _ hbody => exact hbody
  | conditional hbody => exact hbody
  | other => exact fun _ h => absurd h List.not_mem_nil
  | usingDirective => exact fun _ h => absurd h List.not_mem_nil
  | fileSpace => exact fun _ h => absurd h List.not_mem_nil
  | field => exact fun _ h => absurd h List.not_mem_nil

/-- What the first declaration holds is read from the trees it was given. -/
theorem outlineFrom_memberOf (site : Site) (tree : Tree) (rest : List Tree) :
    OutlineFrom (tokensOf (tree :: rest)) (memberOf site last tree rest).outline :=
  (holds_memberOf site tree rest).outlineFrom

/-! ## All declarations -/

/-- The declaration of an outline whose body has been read. -/
def Outline.close (body : List Declaration) : Outline → Declaration
  | .plain declaration => declaration
  | .type head _ _ _ => .type head body
  | .space name _ _ => .space name body
  | .conditional _ _ => .conditional body

/-- Something is collected from declarations one after the other, and nothing from what is no
declaration. -/
structure IsCollected {α : Type} (collect : List Declaration → List α) : Prop where
  nil : collect [] = []
  append : ∀ front back, collect (front ++ back) = collect front ++ collect back
  other : collect [.other] = []

/-- What is collected from a body comes from its trees if what each declaration adds to its own body
does.  Of the problems only those are looked at with which the body is good enough.  The fuel
carries the induction, since what is left and what is inside are shorter lists of other trees. -/
theorem forall_mem_bodyOf {α : Type} {collect : List Declaration → List α}
    (hcollect : IsCollected collect) (From : List Token → α → Prop) (Good : List Nat → Prop)
    (hgood : ∀ front back, Good (front ++ back) → Good front ∧ Good back)
    (hmono : ∀ tokens more x, From tokens x → tokens.Sublist more → From more x)
    (hmember : ∀ site last tree rest body, Good (memberOf site last tree rest).problems →
      ∀ x ∈ collect [(memberOf site last tree rest).outline.close body],
        x ∈ collect body ∨ From (tokensOf (tree :: rest)) x)
    (site : Site) (fuel : Nat) (trees : List Tree)
    (hproblems : Good (bodyOf site last fuel trees).problems) :
    ∀ x ∈ collect (bodyOf site last fuel trees).declarations, From (tokensOf trees) x := by
  have hnone : ∀ x, x ∉ collect [] := fun x hx => by
    rw [hcollect.nil] at hx
    cases hx
  induction fuel generalizing site last trees with
  | zero => exact fun x hx => absurd hx (hnone x)
  | succ fuel ih =>
    cases trees with
    | nil => exact fun x hx => absurd hx (hnone x)
    | cons tree rest =>
      have houtline : OutlineFrom (tokensOf (tree :: rest)) (memberOf site last tree rest).outline :=
        outlineFrom_memberOf site tree rest
      have hrest : (tokensOf (memberOf site last tree rest).rest).Sublist
          (tokensOf (tree :: rest)) := sublist_tokensOf (suffix_memberOf site tree rest).sublist
      rw [bodyOf] at hproblems ⊢
      obtain ⟨hproblems, hothers⟩ := hgood _ _ hproblems
      obtain ⟨hfirst, hinside⟩ := hgood _ _ hproblems
      have hhere := fun body => hmember site last tree rest body hfirst
      intro x hx
      rw [hcollect.append] at hx
      rcases List.mem_append.mp hx with hx | hx
      · cases hcase : (memberOf site last tree rest).outline with
        | plain declaration =>
          rw [hcase] at hhere hx
          exact (hhere [] x hx).resolve_left (hnone x)
        | type typeHead items last' start =>
          rw [hcase] at hhere hx houtline hinside
          dsimp only at hx hinside
          split at hx
          · rw [hcollect.other] at hx
            cases hx
          · rename_i hbreaks
            rw [if_neg hbreaks] at hinside
            exact (hhere _ x hx).elim
              (fun h => hmono _ _ x (ih .body items hinside x h) houtline.2) id
        | space name items last' =>
          rw [hcase] at hhere hx houtline hinside
          exact (hhere _ x hx).elim
            (fun h => hmono _ _ x (ih .body items hinside x h) houtline) id
        | conditional items last' =>
          rw [hcase] at hhere hx houtline hinside
          exact (hhere _ x hx).elim
            (fun h => hmono _ _ x (ih site items hinside x h) houtline) id
      · exact hmono _ _ x (ih site _ hothers x hx) hrest

/-- Every head of a body is read from the trees of the body. -/
theorem readFrom_bodyOf (site : Site) (fuel : Nat) (trees : List Tree) :
    ∀ head ∈ headsOf (bodyOf site last fuel trees).declarations,
      ReadFrom (tokensOf trees) head := by
  refine forall_mem_bodyOf ⟨rfl, headsOf_append, rfl⟩ ReadFrom (fun _ => True)
    (fun _ _ _ => ⟨trivial, trivial⟩) (fun _ _ _ => ReadFrom.mono) ?_ site fuel trees trivial
  intro site last tree rest body _ head hhead
  have houtline : OutlineFrom (tokensOf (tree :: rest)) (memberOf site last tree rest).outline :=
    outlineFrom_memberOf site tree rest
  rw [headsOf_singleton] at hhead
  cases hcase : (memberOf site last tree rest).outline with
  | plain declaration =>
    rw [hcase] at houtline hhead
    exact Or.inr (houtline head hhead)
  | type typeHead items last' start =>
    rw [hcase] at houtline hhead
    rcases List.mem_cons.mp hhead with rfl | hbody
    · exact Or.inr houtline.1
    · exact Or.inl hbody
  | space name items last' =>
    rw [hcase] at hhead
    exact Or.inl hhead
  | conditional items last' =>
    rw [hcase] at hhead
    exact Or.inl hhead

end Declaration

/-- Every head that a text declares is read from its tokens. -/
theorem SourceUnit.readFrom_ofText (text : String) :
    ∀ head ∈ Declaration.headsOf (SourceUnit.ofText text).declarations,
      Declaration.ReadFrom (Token.ofText text).tokens head := by
  intro head hhead
  exact (Declaration.readFrom_bodyOf .file _ _ head hhead).mono
    (Forest.sublist_tokens_ofTokens _)

end Backfield.CSharp
