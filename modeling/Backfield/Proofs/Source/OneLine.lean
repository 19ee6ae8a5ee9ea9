import Backfield.Proofs.CSharp.Ink
import Backfield.Proofs.Source.Sites
import Backfield.Proofs.Text.Runs

/-!
# Texts on one line

What the reader takes from a text stands on one line, however the text is broken: words have no
blanks, and lists of type parameters and names of namespaces are collapsed.

* `isUnbroken_joinSpaces` says so of a namespace inside another one.
* `isUnbroken_space_of_mem_sitesIn` says so of the namespaces that a text declares types in, by
  induction over its declarations.
-/

namespace Backfield

open CSharp (Declaration Token TypeHead)
open Text (IsUnbroken)

namespace Text

theorem isUnbroken_dropSpaces {text : String} (h : IsUnbroken text.toList) :
    IsUnbroken (dropSpaces text).toList := by
  intro c hc
  rw [dropSpaces, String.toList_ofList] at hc
  exact h c (List.mem_of_mem_filter hc)

end Text

theorem CSharp.Token.IsWordText.isUnbroken {text : String} (h : Token.IsWordText text) :
    IsUnbroken text.toList :=
  fun c hc => Text.isLineBreak_of_isBlank (Text.isBlank_of_isNameChar (h.2 c hc))

namespace Source

theorem isUnbroken_joinSpaces {outer : String} (name : String) (h : IsUnbroken outer.toList) :
    IsUnbroken (joinSpaces outer name).toList := by
  have hname := Text.isUnbroken_dropSpaces (Text.isUnbroken_collapse name)
  simp only [joinSpaces]
  split
  · exact hname
  · split
    · exact h
    · rw [String.toList_append, String.toList_append]
      exact Text.isUnbroken_append
        (Text.isUnbroken_append h (Text.isUnbroken_of_all (by decide))) hname

theorem isUnbroken_spaceAfter {space : String} (declaration : Declaration)
    (h : IsUnbroken space.toList) : IsUnbroken (spaceAfter space declaration).toList := by
  cases declaration with
  | fileSpace name => exact isUnbroken_joinSpaces name h
  | usingDirective text => exact h
  | space name body => exact h
  | type head body => exact h
  | field group => exact h
  | conditional body => exact h
  | other => exact h

mutual

theorem isUnbroken_space_of_mem_sites {space : String} (around : List TypeHead)
    (h : IsUnbroken space.toList) :
    ∀ declaration : Declaration, ∀ site ∈ sites space around declaration,
      IsUnbroken site.space.toList
  | .space name body =>
    isUnbroken_space_of_mem_sitesOf around (isUnbroken_joinSpaces name h) body
  | .type head body => by
    intro site hsite
    rw [sites] at hsite
    split at hsite
    · cases hsite
    · rcases List.mem_cons.mp hsite with rfl | hsite
      · exact h
      · exact isUnbroken_space_of_mem_sitesOf (around ++ [head]) h body site hsite
  | .usingDirective _ => fun _ hsite => by cases hsite
  | .fileSpace _ => fun _ hsite => by cases hsite
  | .field _ => fun _ hsite => by cases hsite
  | .conditional _ => fun _ hsite => by cases hsite
  | .other => fun _ hsite => by cases hsite

theorem isUnbroken_space_of_mem_sitesOf {space : String} (around : List TypeHead)
    (h : IsUnbroken space.toList) :
    ∀ declarations : List Declaration, ∀ site ∈ sitesOf space around declarations,
      IsUnbroken site.space.toList
  | [] => fun _ hsite => by cases hsite
  | declaration :: rest => by
    intro site hsite
    rw [sitesOf] at hsite
    rcases List.mem_append.mp hsite with hhere | hrest
    · exact isUnbroken_space_of_mem_sites around h declaration site hhere
    · exact isUnbroken_space_of_mem_sitesOf around (isUnbroken_spaceAfter declaration h) rest site
        hrest

end

/-- The namespace of a type that a text declares is one line. -/
theorem isUnbroken_space_of_mem_sitesIn {code : String} {site : TypeSite}
    (h : site ∈ sitesIn code) : IsUnbroken site.space.toList :=
  isUnbroken_space_of_mem_sitesOf [] (fun _ hc => by cases hc) _ site h

end Source

end Backfield
