import Backfield.Proofs.CSharp.Heads

/-!
# What is declared has a name

The parser keeps a type whose name is missing, and notes a problem.  In a text without problems
every type and every variable has a name.

* `declaredIn` lists the names of the types and variables in some declarations.
* `isNamed_memberOf` is the step: what the first declaration declares are words of the trees it was
  given, unless there is a problem.
* `isWordOf_bodyOf` carries it through bodies of bodies, and `SourceUnit.ne_empty_of_mem_declared`
  is the result for a whole text.
-/

namespace Backfield.CSharp

open Backfield.CSharp.Tree (tokensOf)

namespace Declaration

mutual

/-- The names of the types and variables in a declaration, in the order of the text. -/
def declared : Declaration → List String
  | .type head body => head.name :: declaredIn body
  | .field group => group.names
  | .space _ body => declaredIn body
  | .conditional body => declaredIn body
  | .usingDirective _ => []
  | .fileSpace _ => []
  | .other => []
termination_by structural declaration => declaration

/-- The names of the types and variables in successive declarations. -/
def declaredIn : List Declaration → List String
  | [] => []
  | declaration :: rest => declaration.declared ++ declaredIn rest
termination_by structural declarations => declarations

end

theorem declaredIn_append (declarations more : List Declaration) :
    declaredIn (declarations ++ more) = declaredIn declarations ++ declaredIn more := by
  induction declarations with
  | nil => rfl
  | cons declaration rest ih => simp [declaredIn, ih]

theorem declaredIn_singleton (declaration : Declaration) :
    declaredIn [declaration] = declaration.declared := by
  simp [declaredIn]

/-- The names in an outline, without those in its body. -/
def Outline.declared : Outline → List String
  | .plain declaration => declaration.declared
  | .type head _ _ _ => [head.name]
  | .space _ _ _ => []
  | .conditional _ _ => []

/-- What a member declares are words of the tokens, unless there is a problem. -/
def Member.IsNamed (tokens : List Token) (m : Member) : Prop :=
  m.problems = [] → ∀ name ∈ m.outline.declared, IsWordOf tokens name

/-! ## One declaration -/

theorem Holds.isWordOf_declared {tokens : List Token} {problems : List Nat} {outline : Outline}
    (h : Holds tokens problems outline) (hproblems : problems = []) :
    ∀ name ∈ outline.declared, IsWordOf tokens name := by
  have hnone : ∀ name ∈ ([] : List String), IsWordOf tokens name :=
    fun _ h => absurd h List.not_mem_nil
  cases h with
  | field hnames => exact hnames
  | bare _ hname => exact List.forall_mem_singleton.mpr (hname hproblems)
  | type _ hname => exact List.forall_mem_singleton.mpr (hname hproblems)
  | other => exact hnone
  | usingDirective => exact hnone
  | fileSpace => exact hnone
  | space => exact hnone
  | conditional => exact hnone

variable {last : Nat}

/-- What the first declaration declares are words of the trees it was given, unless there is a
problem. -/
theorem isNamed_memberOf (site : Site) (tree : Tree) (rest : List Tree) :
    (memberOf site last tree rest).IsNamed (tokensOf (tree :: rest)) :=
  (holds_memberOf site tree rest).isWordOf_declared

/-! ## All declarations -/

/-- What a declaration adds to the names in its own body is in its outline. -/
theorem Outline.declared_close (outline : Outline) (body : List Declaration) :
    ∀ name ∈ (outline.close body).declared, name ∈ declaredIn body ∨ name ∈ outline.declared := by
  intro name hname
  cases outline with
  | plain declaration => exact Or.inr hname
  | type head items last start => exact (List.mem_cons.mp hname).symm.imp id List.mem_singleton.mpr
  | space own items last => exact Or.inl hname
  | conditional items last => exact Or.inl hname

/-- In a body without problems all types and variables are words of its trees. -/
theorem isWordOf_bodyOf (site : Site) (fuel : Nat) (trees : List Tree)
    (hproblems : (bodyOf site last fuel trees).problems = []) :
    ∀ name ∈ declaredIn (bodyOf site last fuel trees).declarations,
      IsWordOf (tokensOf trees) name := by
  refine forall_mem_bodyOf ⟨rfl, declaredIn_append, rfl⟩ IsWordOf (· = [])
    (fun _ _ => List.append_eq_nil_iff.mp) (fun _ _ _ => IsWordOf.mono) ?_ site fuel trees hproblems
  intro site last tree rest body hfirst name hname
  rw [declaredIn_singleton] at hname
  exact (Outline.declared_close _ body name hname).imp_right
    (isNamed_memberOf site tree rest hfirst name)

end Declaration

/-- In a text without problems every type and every variable has a name. -/
theorem SourceUnit.ne_empty_of_mem_declared {text : String}
    (hproblems : (SourceUnit.ofText text).problems = []) :
    ∀ name ∈ Declaration.declaredIn (SourceUnit.ofText text).declarations, name ≠ "" := by
  intro name hname
  have hbody := (List.append_eq_nil_iff.mp hproblems).2
  obtain ⟨t, ht, hkind, rfl⟩ := Declaration.isWordOf_bodyOf .file _ _ hbody name hname
  have hmem := (Forest.sublist_tokens_ofTokens _).subset ht
  exact (Token.isWordText_of_mem_ofText hmem hkind).1

end Backfield.CSharp
