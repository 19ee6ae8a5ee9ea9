import Backfield.Proofs.Source.Identity
import Backfield.Proofs.Text.Visible

/-!
# How namespaces are spelled

The name of a namespace is kept as the text has it, with what stands between its words.  Only white
space is dropped when it is joined to the namespaces around it.

* `spaces` lists the names of the namespaces that a declaration declares.  `spelledBy_memberOf` says
  where the names of one declaration come from, and `spelledBy_ofText` says it of a whole text.
* `mem_slice` tells the characters of a name that is spelled by words and dots.
* `mem_joinSpaces` is the step and `mem_foldl_joinSpaces` the run: a joined name keeps all
  characters of its parts that are not blank.
* `exists_names_of_mem_sitesIn` puts together what is known of the namespace of a type.
-/

namespace Backfield

namespace CSharp

open Backfield.CSharp.Tree (tokensOf)

namespace Declaration

mutual

/-- The names of the namespaces in a declaration, in the order of the text. -/
def spaces : Declaration → List String
  | .space name body => name :: spacesOf body
  | .fileSpace name => [name]
  | .type _ body => spacesOf body
  | .conditional body => spacesOf body
  | .usingDirective _ => []
  | .field _ => []
  | .other => []
termination_by structural declaration => declaration

/-- The names of the namespaces in successive declarations. -/
def spacesOf : List Declaration → List String
  | [] => []
  | declaration :: rest => declaration.spaces ++ spacesOf rest
termination_by structural declarations => declarations

end

@[simp] theorem spacesOf_append (declarations more : List Declaration) :
    spacesOf (declarations ++ more) = spacesOf declarations ++ spacesOf more := by
  induction declarations with
  | nil => rfl
  | cons declaration rest ih => simp [spacesOf, ih]

@[simp] theorem spacesOf_singleton (declaration : Declaration) :
    spacesOf [declaration] = declaration.spaces := by
  simp [spacesOf]

/-! ## One declaration -/

/-- The names in an outline, without those in its body. -/
def Outline.spaces : Outline → List String
  | .plain declaration => declaration.spaces
  | .space name _ _ => [name]
  | .type _ _ _ _ => []
  | .conditional _ _ => []

theorem Outline.spaces_close (outline : Outline) (body : List Declaration) :
    ∀ name ∈ (outline.close body).spaces, name ∈ spacesOf body ∨ name ∈ outline.spaces := by
  intro name hname
  cases outline with
  | plain declaration => exact Or.inr hname
  | space own items last =>
    rcases List.mem_cons.mp hname with rfl | hbody
    · exact Or.inr List.mem_cons_self
    · exact Or.inl hbody
  | type head items last start => exact Or.inl hname
  | conditional items last => exact Or.inl hname

theorem Holds.spelledBy_spaces {tokens : List Token} {problems : List Nat} {outline : Outline}
    (h : Holds tokens problems outline) : ∀ name ∈ outline.spaces, SpelledBy tokens name := by
  have hnone : ∀ name ∈ ([] : List String), SpelledBy tokens name :=
    fun _ h => absurd h List.not_mem_nil
  cases h with
  | fileSpace hname => exact List.forall_mem_singleton.mpr hname
  | space hname => exact List.forall_mem_singleton.mpr hname
  | other => exact hnone
  | usingDirective => exact hnone
  | field => exact hnone
  | bare => exact hnone
  | type => exact hnone
  | conditional => exact hnone

variable {last : Nat}

/-- The names in the first declaration are spelled by the trees it was given. -/
theorem spelledBy_memberOf (site : Site) (tree : Tree) (rest : List Tree) :
    ∀ name ∈ (memberOf site last tree rest).outline.spaces,
      SpelledBy (tokensOf (tree :: rest)) name :=
  (holds_memberOf site tree rest).spelledBy_spaces

/-! ## All declarations -/

theorem spelledBy_bodyOf (site : Site) (fuel : Nat) (trees : List Tree) :
    ∀ name ∈ spacesOf (bodyOf site last fuel trees).declarations,
      SpelledBy (tokensOf trees) name := by
  refine forall_mem_bodyOf ⟨rfl, spacesOf_append, rfl⟩ SpelledBy (fun _ => True)
    (fun _ _ _ => ⟨trivial, trivial⟩) (fun _ _ _ => SpelledBy.mono) ?_ site fuel trees trivial
  intro site last tree rest body _ name hname
  rw [spacesOf_singleton] at hname
  apply (Outline.spaces_close _ body name hname).imp_right
  exact spelledBy_memberOf site tree rest name

end Declaration

/-- Every name of a namespace that a text declares is spelled by its tokens. -/
theorem SourceUnit.spelledBy_ofText (text : String) :
    ∀ name ∈ Declaration.spacesOf (SourceUnit.ofText text).declarations,
      Declaration.SpelledBy (Token.ofText text).tokens name := by
  intro name hname
  exact (Declaration.spelledBy_bodyOf .file _ _ name hname).mono (Forest.sublist_tokens_ofTokens _)

/-! ## The characters of a name -/

namespace Token

/-- What tokens spell has the characters of the tokens and of the gaps between them. -/
theorem mem_slice {c : Char} {tokens : List Token} :
    c ∈ (slice tokens).toList ↔
      (∃ t ∈ tokens, c ∈ t.text.toList) ∨ ∃ t ∈ tokens.tail, c ∈ t.gap.toList := by
  cases tokens with
  | nil => simp [slice]
  | cons first rest =>
    simp only [slice, String.toList_append, String.toList_join, List.mem_append, List.mem_flatMap,
      List.mem_map, exists_exists_and_eq_and, List.tail_cons, List.exists_mem_cons_iff]
    constructor
    · rintro (hfirst | ⟨t, ht, hgap | htext⟩)
      · exact Or.inl (Or.inl hfirst)
      · exact Or.inr ⟨t, ht, hgap⟩
      · exact Or.inl (Or.inr ⟨t, ht, htext⟩)
    · rintro ((hfirst | ⟨t, ht, htext⟩) | ⟨t, ht, hgap⟩)
      · exact Or.inl hfirst
      · exact Or.inr ⟨t, ht, Or.inr htext⟩
      · exact Or.inr ⟨t, ht, Or.inl hgap⟩

/-- The tokens are words and dots, as those of a namespace are. -/
def AreDotted (tokens : List Token) : Prop := ∀ t ∈ tokens, t.kind = .word ∨ t.isSymbol "." = true

/-- In a dotted name a slash stands between its tokens, as it does in every comment. -/
theorem slash_mem_slice {text : String} {tokens : List Token}
    (hsub : tokens.Sublist (ofText text).tokens) (hdotted : AreDotted tokens) :
    '/' ∈ (slice tokens).toList ↔ ∃ t ∈ tokens.tail, '/' ∈ t.gap.toList := by
  have hclean : ¬∃ t ∈ tokens, '/' ∈ t.text.toList := by
    rintro ⟨t, ht, hslash⟩
    rcases hdotted t ht with hword | hdot
    · have hname := (isWordText_of_mem_ofText (hsub.subset ht) hword).2 '/' hslash
      exact absurd hname (by decide)
    · have htext : t.text = "." := by
        rw [isSymbol, Bool.and_eq_true] at hdot
        exact beq_iff_eq.mp hdot.2
      rw [htext] at hslash
      exact absurd hslash (by decide)
  rw [mem_slice]
  exact or_iff_right hclean

end Token

end CSharp

/-! ## Namespaces within namespaces -/

namespace Source

open CSharp (Declaration SourceUnit Token TypeHead)
open CSharp.Declaration (spaces spacesOf SpelledBy)

variable {c : Char}

/-- A joined name keeps the characters of its parts that are not blank, and adds dots. -/
theorem mem_joinSpaces (hc : Text.isBlank c = false) (hdot : c ≠ '.') (outer name : String) :
    c ∈ (joinSpaces outer name).toList ↔ c ∈ outer.toList ∨ c ∈ name.toList := by
  have hname : c ∈ (Text.dropSpaces (Text.collapse name)).toList ↔ c ∈ name.toList := by
    rw [Text.dropSpaces_collapse, String.toList_ofList, Text.mem_visible]
    exact and_iff_left hc
  rw [← hname, joinSpaces]
  by_cases houter : outer = ""
  · simp [houter]
  · by_cases hempty : Text.dropSpaces (Text.collapse name) = ""
    · simp [houter, hempty]
    · simp [houter, hempty, hdot]

theorem mem_foldl_joinSpaces (hc : Text.isBlank c = false) (hdot : c ≠ '.') (outer : String)
    (names : List String) :
    c ∈ (names.foldl joinSpaces outer).toList ↔
      c ∈ outer.toList ∨ ∃ name ∈ names, c ∈ name.toList := by
  induction names generalizing outer with
  | nil => simp
  | cons name rest ih =>
    rw [List.foldl_cons, ih, mem_joinSpaces hc hdot, List.exists_mem_cons_iff, or_assoc]

mutual

/-- The namespace of a type is joined of the one around the declaration and of names in it. -/
theorem exists_names_of_mem_sites (space : String) (around : List TypeHead) :
    ∀ declaration : Declaration, ∀ site ∈ sites space around declaration,
      ∃ names, names ⊆ declaration.spaces ∧ site.space = names.foldl joinSpaces space
  | .space name body => by
    intro site hsite
    obtain ⟨names, hnames, hspace⟩ :=
      exists_names_of_mem_sitesOf (joinSpaces space name) around body site hsite
    exact ⟨name :: names, List.cons_subset_cons name hnames, hspace⟩
  | .type head body => by
    intro site hsite
    rw [sites] at hsite
    split at hsite
    · cases hsite
    · rcases List.mem_cons.mp hsite with rfl | hsite
      · exact ⟨[], List.nil_subset _, rfl⟩
      · exact exists_names_of_mem_sitesOf space (around ++ [head]) body site hsite
  | .usingDirective _ => fun _ h => by cases h
  | .fileSpace _ => fun _ h => by cases h
  | .field _ => fun _ h => by cases h
  | .conditional _ => fun _ h => by cases h
  | .other => fun _ h => by cases h

theorem exists_names_of_mem_sitesOf (space : String) (around : List TypeHead) :
    ∀ declarations : List Declaration, ∀ site ∈ sitesOf space around declarations,
      ∃ names, names ⊆ spacesOf declarations ∧ site.space = names.foldl joinSpaces space
  | [] => fun _ h => by cases h
  | declaration :: rest => by
    intro site hsite
    rw [sitesOf] at hsite
    rw [spacesOf]
    rcases List.mem_append.mp hsite with hhere | hrest
    · obtain ⟨names, hnames, hspace⟩ :=
        exists_names_of_mem_sites space around declaration site hhere
      exact ⟨names, List.subset_append_of_subset_left _ hnames, hspace⟩
    · obtain ⟨names, hnames, hspace⟩ :=
        exists_names_of_mem_sitesOf (spaceAfter space declaration) around rest site hrest
      cases declaration with
      | fileSpace name => exact ⟨name :: names, List.cons_subset_cons name hnames, hspace⟩
      | space name body => exact ⟨names, List.subset_append_of_subset_right _ hnames, hspace⟩
      | type head body => exact ⟨names, List.subset_append_of_subset_right _ hnames, hspace⟩
      | usingDirective text => exact ⟨names, hnames, hspace⟩
      | field group => exact ⟨names, hnames, hspace⟩
      | conditional body => exact ⟨names, List.subset_append_of_subset_right _ hnames, hspace⟩
      | other => exact ⟨names, hnames, hspace⟩

end

/-- Names that tokens spell are those of some lists of tokens. -/
theorem exists_lists_of_spelledBy {tokens : List Token} {names : List String}
    (h : ∀ name ∈ names, SpelledBy tokens name) :
    ∃ lists : List (List Token), (∀ list ∈ lists, list.Sublist tokens) ∧
      names = lists.map Token.slice := by
  induction names with
  | nil => exact ⟨[], fun _ hlist => absurd hlist List.not_mem_nil, rfl⟩
  | cons name rest ih =>
    rw [List.forall_mem_cons] at h
    obtain ⟨list, hlist, rfl⟩ := h.1
    obtain ⟨lists, hlists, rfl⟩ := ih h.2
    exact ⟨list :: lists, List.forall_mem_cons.mpr ⟨hlist, hlists⟩, rfl⟩

/-- The namespace of a type in a text is joined of names that its tokens spell. -/
theorem exists_names_of_mem_sitesIn {code : String} {site : TypeSite} (h : site ∈ sitesIn code) :
    ∃ names : List (List Token), (∀ list ∈ names, list.Sublist (Token.ofText code).tokens) ∧
      site.space = (names.map Token.slice).foldl joinSpaces "" := by
  obtain ⟨names, hnames, hspace⟩ := exists_names_of_mem_sitesOf "" [] _ site h
  obtain ⟨lists, hlists, rfl⟩ := exists_lists_of_spelledBy fun name hname =>
    SourceUnit.spelledBy_ofText code name (hnames hname)
  exact ⟨lists, hlists, hspace⟩

end Source

end Backfield
