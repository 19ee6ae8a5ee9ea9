import Mathlib.Data.List.Forall2
import Backfield.Proofs.CSharp.Heads
import Backfield.Source.Reader

/-!
# Where types are declared

The reader turns the declarations of a text into fragments and drops part of what it has seen:
of the types around a class it keeps the names.  `TypeSite` is a declaration of a type with the
namespace and the heads of all types around it, and `sitesOf` lists those of a text.

* `forall₂_declares_visitAll` says that the fragments of a text are those of its classes, in
  order.
* `holds_of_mem_sitesOf` says that a site holds nothing but heads of the text.
* `ReadIn` collects what is known of a fragment that has been read: its names are words, and
  its list of type parameters is made of tokens (`readIn_of_mem_fragmentsIn`).
-/

namespace Backfield.Source

open CSharp (Declaration SourceUnit Token TypeHead)
open CSharp.Declaration (heads headsOf OpensList ReadFrom)

/-- A type with what is around its declaration. -/
structure TypeSite where
  space : String
  /-- The heads of the types around it, outermost first. -/
  around : List TypeHead
  head : TypeHead
  deriving DecidableEq

/-- The fragment is that of a class declared at the site. -/
def TypeSite.Declares (site : TypeSite) (f : Fragment) : Prop :=
  ∃ path scope body, f = fragmentOf path scope site.head body ∧ scope.space = site.space ∧
    scope.containers = site.around.map TypeHead.name

/-- The namespace that the declarations after this one are in. -/
def spaceAfter (space : String) : Declaration → String
  | .fileSpace name => joinSpaces space name
  | _ => space

mutual

/-- The types that a declaration declares in a namespace and inside other types.  Like the
reader it passes over a type without a name and over everything under an `#if`. -/
def sites (space : String) (around : List TypeHead) : Declaration → List TypeSite
  | .space name body => sitesOf (joinSpaces space name) around body
  | .type head body =>
    if head.name == "" then []
    else ⟨space, around, head⟩ :: sitesOf space (around ++ [head]) body
  | .usingDirective _ => []
  | .fileSpace _ => []
  | .field _ => []
  | .conditional _ => []
  | .other => []
termination_by structural declaration => declaration

/-- The types that successive declarations declare. -/
def sitesOf (space : String) (around : List TypeHead) : List Declaration → List TypeSite
  | [] => []
  | declaration :: rest =>
    sites space around declaration ++ sitesOf (spaceAfter space declaration) around rest
termination_by structural declarations => declarations

end

def TypeSite.isClass (site : TypeSite) : Bool := site.head.kind = .isClass

/-! ## Fragments of sites -/

theorem fragments_append (a b : Found) : (a ++ b).fragments = a.fragments ++ b.fragments := rfl

theorem space_addUsing (scope : Scope) (text : String) :
    (scope.addUsing text).space = scope.space ∧
      (scope.addUsing text).containers = scope.containers := by
  unfold Scope.addUsing
  split
  · rename_i directive _
    cases directive with
    | statics => exact ⟨rfl, rfl⟩
    | plain target =>
      rw [Scope.addDirective]
      split
      · exact ⟨rfl, rfl⟩
      · exact ⟨rfl, rfl⟩
    | aliased name target => exact ⟨rfl, rfl⟩
  · exact ⟨rfl, rfl⟩

theorem space_scopeAfter (scope : Scope) (declaration : Declaration) :
    (scopeAfter scope declaration).space = spaceAfter scope.space declaration ∧
      (scopeAfter scope declaration).containers = scope.containers := by
  cases declaration with
  | usingDirective text => exact space_addUsing scope text
  | space name body => exact ⟨rfl, rfl⟩
  | fileSpace name => exact ⟨rfl, rfl⟩
  | type head body => exact ⟨rfl, rfl⟩
  | field group => exact ⟨rfl, rfl⟩
  | conditional body => exact ⟨rfl, rfl⟩
  | other => exact ⟨rfl, rfl⟩

mutual

/-- A declaration adds one fragment for each class that it declares. -/
theorem forall₂_declares_visit (path : String) (scope : Scope) (around : List TypeHead)
    (haround : scope.containers = around.map TypeHead.name) :
    ∀ declaration : Declaration,
      List.Forall₂ TypeSite.Declares
        ((sites scope.space around declaration).filter TypeSite.isClass)
        (visit path scope declaration).fragments
  | .space name body =>
    forall₂_declares_visitAll path (scope.enterSpace name) around haround body
  | .type head body => by
    have hinside : (scope.enterType head.name).containers =
        (around ++ [head]).map TypeHead.name := by
      simp [Scope.enterType, haround]
    have hbody := forall₂_declares_visitAll path (scope.enterType head.name) (around ++ [head])
      hinside body
    rw [sites, visit]
    split
    · exact List.Forall₂.nil
    · rw [fragments_append, List.filter_cons]
      by_cases hclass : head.kind = .isClass
      · have hsite : (TypeSite.mk scope.space around head).isClass = true := by
          simp [TypeSite.isClass, hclass]
        rw [if_pos hsite, foundHere, if_pos hclass]
        exact List.Forall₂.cons ⟨path, scope, body, rfl, rfl, haround⟩ hbody
      · have hsite : ¬(TypeSite.mk scope.space around head).isClass = true := by
          simp [TypeSite.isClass, hclass]
        rw [if_neg hsite, foundHere, if_neg hclass]
        exact hbody
  | .usingDirective _ => List.Forall₂.nil
  | .fileSpace _ => List.Forall₂.nil
  | .field _ => List.Forall₂.nil
  | .conditional _ => List.Forall₂.nil
  | .other => List.Forall₂.nil

/-- Successive declarations add one fragment for each class that they declare, in order. -/
theorem forall₂_declares_visitAll (path : String) (scope : Scope) (around : List TypeHead)
    (haround : scope.containers = around.map TypeHead.name) :
    ∀ declarations : List Declaration,
      List.Forall₂ TypeSite.Declares
        ((sitesOf scope.space around declarations).filter TypeSite.isClass)
        (visitAll path scope declarations).fragments
  | [] => List.Forall₂.nil
  | declaration :: rest => by
    obtain ⟨hspace, hcontainers⟩ := space_scopeAfter scope declaration
    have hrest := forall₂_declares_visitAll path (scopeAfter scope declaration) around
      (hcontainers.trans haround) rest
    rw [hspace] at hrest
    rw [sitesOf, visitAll, fragments_append, List.filter_append]
    exact List.rel_append (forall₂_declares_visit path scope around haround declaration) hrest

end

/-! ## Heads of sites -/

/-- A site holds named heads, each from around or from these heads. -/
structure TypeSite.Holds (around : List TypeHead) (found : List TypeHead) (site : TypeSite) :
    Prop where
  head : site.head ∈ found
  named : site.head.name ≠ ""
  around : ∀ head ∈ site.around, head ∈ around ∨ (head ∈ found ∧ head.name ≠ "")

theorem TypeSite.Holds.mono {around found more : List TypeHead} {site : TypeSite}
    (h : site.Holds around found) (hmore : found ⊆ more) : site.Holds around more where
  head := hmore h.head
  named := h.named
  around := fun head hhead => (h.around head hhead).imp_right fun hfound =>
    ⟨hmore hfound.1, hfound.2⟩

mutual

theorem holds_of_mem_sites (space : String) (around : List TypeHead) :
    ∀ declaration : Declaration, ∀ site ∈ sites space around declaration,
      site.Holds around declaration.heads
  | .space name body => holds_of_mem_sitesOf (joinSpaces space name) around body
  | .type head body => by
    intro site hsite
    rw [sites] at hsite
    split at hsite
    · cases hsite
    · rename_i hname
      have hnamed : head.name ≠ "" := by simpa using hname
      rcases List.mem_cons.mp hsite with rfl | hsite
      · exact ⟨List.mem_cons_self, hnamed, fun outer houter => Or.inl houter⟩
      · have hinside := holds_of_mem_sitesOf space (around ++ [head]) body site hsite
        refine ⟨List.mem_cons_of_mem _ hinside.head, hinside.named, fun outer houter => ?_⟩
        rcases hinside.around outer houter with hold | ⟨hfound, hne⟩
        · rcases List.mem_append.mp hold with hold | hnew
          · exact Or.inl hold
          · rw [List.mem_singleton.mp hnew]
            exact Or.inr ⟨List.mem_cons_self, hnamed⟩
        · exact Or.inr ⟨List.mem_cons_of_mem _ hfound, hne⟩
  | .usingDirective _ => fun _ h => by cases h
  | .fileSpace _ => fun _ h => by cases h
  | .field _ => fun _ h => by cases h
  | .conditional _ => fun _ h => by cases h
  | .other => fun _ h => by cases h

theorem holds_of_mem_sitesOf (space : String) (around : List TypeHead) :
    ∀ declarations : List Declaration, ∀ site ∈ sitesOf space around declarations,
      site.Holds around (headsOf declarations)
  | [] => fun _ h => by cases h
  | declaration :: rest => by
    intro site hsite
    rw [sitesOf] at hsite
    rw [headsOf]
    rcases List.mem_append.mp hsite with hhere | hrest
    · exact (holds_of_mem_sites space around declaration site hhere).mono
        (List.subset_append_left _ _)
    · exact (holds_of_mem_sitesOf _ around rest site hrest).mono (List.subset_append_right _ _)

end

/-! ## Whole texts -/

/-- The types that a text declares, in the order of the text. -/
def sitesIn (code : String) : List TypeSite := sitesOf "" [] (SourceUnit.ofText code).declarations

/-- The fragments of the classes that a text declares. -/
def fragmentsIn (code path : String) : List Fragment :=
  (visitAll path {} (SourceUnit.ofText code).declarations).fragments

/-- Reading a text succeeds, whatever the text is. -/
theorem outcome_readFragments (code path : String) :
    (readFragments code path).outcome = .ok (fragmentsIn code path) := by
  have hwarn : (warnOfProblem path (SourceUnit.ofText code)).outcome = .ok () := by
    unfold warnOfProblem
    split <;> rfl
  simp [readFragments, read, hwarn, Except.bind, fragmentsIn]

/-- What stands on the right of a list of pairs has its partner on the left. -/
theorem exists_left_of_mem {α β : Type} {r : α → β → Prop} {as : List α} {bs : List β}
    (h : List.Forall₂ r as bs) {b : β} (hb : b ∈ bs) : ∃ a ∈ as, r a b := by
  induction h with
  | nil => cases hb
  | cons hab _ ih =>
    rcases List.mem_cons.mp hb with rfl | hb
    · exact ⟨_, List.mem_cons_self, hab⟩
    · obtain ⟨a, ha, hr⟩ := ih hb
      exact ⟨a, List.mem_cons_of_mem _ ha, hr⟩

/-- A fragment that is read is that of a class that the text declares. -/
theorem exists_declares_of_mem {code path : String} {f : Fragment}
    (hf : f ∈ fragmentsIn code path) :
    ∃ site ∈ sitesIn code, site.isClass = true ∧ site.Declares f := by
  have hall := forall₂_declares_visitAll path {} [] rfl (SourceUnit.ofText code).declarations
  obtain ⟨site, hsite, hdeclares⟩ := exists_left_of_mem hall hf
  obtain ⟨hmem, hclass⟩ := List.mem_filter.mp hsite
  exact ⟨site, hmem, hclass, hdeclares⟩

theorem name_ne_of_mem_ownFields {declarations : List Declaration} {field : Field}
    (h : field ∈ ownFields declarations) : field.name ≠ "" := by
  induction declarations with
  | nil => cases h
  | cons declaration rest ih =>
    cases declaration with
    | field group =>
      rcases List.mem_append.mp h with hhere | hrest
      · obtain ⟨name, hname, rfl⟩ := List.mem_map.mp hhere
        simpa using List.of_mem_filter hname
      · exact ih hrest
    | usingDirective text => exact ih h
    | space name body => exact ih h
    | fileSpace name => exact ih h
    | type head body => exact ih h
    | conditional body => exact ih h
    | other => exact ih h

/-- What is known of a site of a text: its names are words, and its lists of type parameters
are made of tokens of the text. -/
theorem isWordText_of_mem_sitesIn {code : String} {site : TypeSite} (h : site ∈ sitesIn code) :
    ∀ head ∈ site.head :: site.around, Token.IsWordText head.name ∧
      ReadFrom (Token.ofText code).tokens head := by
  have hholds := holds_of_mem_sitesOf "" [] _ site h
  intro head hhead
  have hfound : head ∈ headsOf (SourceUnit.ofText code).declarations ∧ head.name ≠ "" := by
    rcases List.mem_cons.mp hhead with rfl | haround
    · exact ⟨hholds.head, hholds.named⟩
    · rcases hholds.around head haround with hnone | hfound
      · cases hnone
      · exact hfound
  have hread := SourceUnit.readFrom_ofText code head hfound.1
  refine ⟨?_, hread⟩
  obtain ⟨t, ht, hkind, htext⟩ := hread.name.resolve_left hfound.2
  exact htext ▸ Token.isWordText_of_mem_ofText ht hkind

/-- What is known of a fragment that is read from a text with these tokens. -/
structure ReadIn (tokens : List Token) (f : Fragment) : Prop where
  name : Token.IsWordText f.name
  containers : ∀ container ∈ f.containers, Token.IsWordText container
  fields : ∀ field ∈ f.fields, field.name ≠ ""
  parameters : ∃ list : List Token, list.Sublist tokens ∧ OpensList list ∧
    f.typeParameters = Text.collapse (Token.slice list)

theorem readIn_of_mem_fragmentsIn {code path : String} {f : Fragment}
    (hf : f ∈ fragmentsIn code path) : ReadIn (Token.ofText code).tokens f := by
  obtain ⟨site, hsite, -, _, scope, body, rfl, -, haround⟩ := exists_declares_of_mem hf
  have hheads := isWordText_of_mem_sitesIn hsite
  obtain ⟨hname, hread⟩ := hheads site.head List.mem_cons_self
  refine ⟨hname, ?_, fun field hfield => name_ne_of_mem_ownFields hfield, ?_⟩
  · intro container hcontainer
    have hmem : container ∈ site.around.map TypeHead.name := haround ▸ hcontainer
    obtain ⟨head, hhead, rfl⟩ := List.mem_map.mp hmem
    exact (hheads head (List.mem_cons_of_mem _ hhead)).1
  · obtain ⟨list, hsub, hopens, htext⟩ := hread.parameters
    exact ⟨list, hsub, hopens, congrArg Text.collapse htext⟩

end Backfield.Source
