import Backfield.Proofs.Layout.Declarations
import Backfield.Proofs.Source.Directives
import Backfield.Proofs.Source.Sites

/-!
# Rendering and reading

The text of a class's artifact is read as the class that it was rendered from.

* `Usings.readPlain` and `Usings.readAliases` are what its using directives bring into scope: all
  of them in order, but an alias of other than word characters as a part of a plain name.
* `readBack` lists the fragments of the class and of its containers.
* `readFragments_render` is the result.
-/

namespace Backfield.Layout

open CSharp (Ink Declaration IsIdentifier IsDottedName)
open CSharp.Declaration (usingInks parameterInks moreParameters)
open Source (Scope visitAll fragments_append)

/-! ## Using directives -/

namespace Usings

/-- The aliases that are read as aliases. -/
def readAliases (u : Usings) : Aliases :=
  u.aliases.filter fun a => UsingDirective.isAliasName a.1

/-- The plain names that are read: those of `u`, and the other aliases with their targets. -/
def readPlain (u : Usings) : List String :=
  u.plain ++
    (u.aliases.filter fun a => !UsingDirective.isAliasName a.1).map fun a => a.1 ++ "=" ++ a.2

/-- If all aliases are of word characters, all using directives are read as they are. -/
theorem read_of_isAliasName {u : Usings}
    (h : ∀ a ∈ u.aliases, UsingDirective.isAliasName a.1 = true) :
    u.readPlain = u.plain ∧ u.readAliases = u.aliases := by
  have hnone : (u.aliases.filter fun a => !UsingDirective.isAliasName a.1) = [] := by
    rw [List.filter_eq_nil_iff]
    intro a ha
    simp [h a ha]
  rw [readPlain, readAliases, hnone, List.filter_eq_self.mpr h]
  exact ⟨List.append_nil _, rfl⟩

/-- What the reader makes of the using directives. -/
def directives (u : Usings) : List UsingDirective :=
  u.plain.map UsingDirective.plain ++ u.aliases.map fun a => UsingDirective.ofAlias a.1 a.2

theorem filterMap_plain? (u : Usings) :
    u.directives.filterMap UsingDirective.plain? = u.readPlain := by
  have hplain : ∀ names : List String,
      (names.map UsingDirective.plain).filterMap UsingDirective.plain? = names := by
    intro names
    rw [List.filterMap_map]
    exact List.filterMap_some
  have haliases : ∀ aliases : List (String × String),
      (aliases.map fun a => UsingDirective.ofAlias a.1 a.2).filterMap UsingDirective.plain? =
        (aliases.filter fun a => !UsingDirective.isAliasName a.1).map fun a => a.1 ++ "=" ++ a.2 := by
    intro aliases
    induction aliases with
    | nil => rfl
    | cons a rest ih =>
      rw [List.map_cons, List.filterMap_cons, UsingDirective.plain?_ofAlias, ih]
      cases ha : UsingDirective.isAliasName a.1 with
      | true => simp [ha]
      | false => simp [ha]
  rw [directives, List.filterMap_append, hplain, haliases, readPlain]

theorem filterMap_alias? (u : Usings) :
    u.directives.filterMap UsingDirective.alias? = u.readAliases := by
  have hplain : (u.plain.map UsingDirective.plain).filterMap UsingDirective.alias? = [] := by
    simp [UsingDirective.alias?]
  have haliases : ∀ aliases : List (String × String),
      (aliases.map fun a => UsingDirective.ofAlias a.1 a.2).filterMap UsingDirective.alias? =
        aliases.filter fun a => UsingDirective.isAliasName a.1 := by
    intro aliases
    induction aliases with
    | nil => rfl
    | cons a rest ih =>
      rw [List.map_cons, List.filterMap_cons, UsingDirective.alias?_ofAlias, ih]
      cases ha : UsingDirective.isAliasName a.1 with
      | true => simp [ha]
      | false => simp [ha]
  rw [directives, List.filterMap_append, hplain, haliases, readAliases, List.nil_append]

/-- An alias within a plain name can be told from the name. -/
theorem fst_eq_of_append_eq {a b : String × String} (ha : IsIdentifier a.1) (hb : IsIdentifier b.1)
    (h : a.1 ++ "=" ++ a.2 = b.1 ++ "=" ++ b.2) : a.1 = b.1 := by
  have hequals : ∀ rest : List Char, CSharp.Lexeme.EndsName ('=' :: rest) := fun rest =>
    CSharp.Lexeme.endsName_cons rest (by decide)
  have hlists := congrArg String.toList h
  simp only [String.toList_append, List.append_assoc] at hlists
  have htake := congrArg (List.takeWhile CSharp.Lexeme.isNameChar) hlists
  have hleft := UsingDirective.takeWhile_isNameChar ha.isWord.isNameChar (hequals a.2.toList)
  have hright := UsingDirective.takeWhile_isNameChar hb.isWord.isNameChar (hequals b.2.toList)
  exact String.toList_inj.mp (hleft.symm.trans (htake.trans hright))

theorem nodup_readPlain {u : Usings} (h : u.AreNamed) (hplain : u.plain.Nodup)
    (haliases : (u.aliases.map Prod.fst).Nodup) : u.readPlain.Nodup := by
  rw [readPlain, List.nodup_append]
  refine ⟨hplain, ?_, ?_⟩
  · refine List.Nodup.map_on (fun a ha b hb heq => ?_) ((List.Nodup.of_map _ haliases).filter _)
    have ha := List.mem_of_mem_filter ha
    have hb := List.mem_of_mem_filter hb
    exact List.inj_on_of_nodup_map haliases ha hb
      (fst_eq_of_append_eq (h.aliases a ha).1 (h.aliases b hb).1 heq)
  · rintro name hname other hother rfl
    obtain ⟨a, -, rfl⟩ := List.mem_map.mp hother
    have hno := not_mem_dotted (h.plain _ hname) (c := '=') (by decide) (by decide)
    simp at hno

/-- The using directives of a rendered class are read in order. -/
theorem foldl_addUsing_targets {u : Usings} (h : u.AreNamed) (hplain : u.plain.Nodup)
    (haliases : (u.aliases.map Prod.fst).Nodup) :
    (u.targets.map fun target => Ink.written (usingInks target)).foldl Scope.addUsing {} =
      { usings := u.readPlain, aliases := u.readAliases } := by
  have hread : List.Forall₂ (fun text directive => UsingDirective.ofText? text = some directive)
      (u.targets.map fun target => Ink.written (usingInks target)) u.directives := by
    rw [targets, List.map_append, List.map_map, List.map_map, directives]
    refine List.rel_append ?_ ?_
    · rw [List.forall₂_map_left_iff, List.forall₂_map_right_iff, List.forall₂_same]
      exact fun name hname => UsingDirective.ofText?_named (h.plain name hname)
    · rw [List.forall₂_map_left_iff, List.forall₂_map_right_iff, List.forall₂_same]
      exact fun a ha => UsingDirective.ofText?_aliased (h.aliases a ha).1 (h.aliases a ha).2
  have hnodup : ({} : Scope).usings ++ u.directives.filterMap UsingDirective.plain? =
      u.readPlain := filterMap_plain? u
  have hnodupAliases : ({} : Scope).aliases ++ u.directives.filterMap UsingDirective.alias? =
      u.readAliases := filterMap_alias? u
  have hfilter : (u.readAliases.map Prod.fst).Nodup :=
    haliases.sublist (List.filter_sublist.map Prod.fst)
  rw [Scope.foldl_addUsing hread, Scope.foldl_addDirective (hnodup ▸ nodup_readPlain h hplain haliases)
    (hnodupAliases ▸ hfilter), hnodup, hnodupAliases]

end Usings

/-! ## Names and lists of type parameters -/

theorem joinSpaces_dotted {name : String} (hname : IsDottedName name) :
    Source.joinSpaces "" name = name := by
  simp [Source.joinSpaces, collapse_dotted hname, Text.dropSpaces,
    UsingDirective.ofList_filter_dotted hname]

theorem collapse_parameterInks {parameters : List String}
    (h : ∀ parameter ∈ parameters, IsIdentifier parameter) :
    Text.collapse (Ink.written (parameterInks parameters)) =
      Ink.written (parameterInks parameters) := by
  cases parameters with
  | nil => decide
  | cons first rest =>
    have hopen : ((Ink.symbol "<").after "").token.HasInk :=
      ⟨by decide, CSharp.visible_of_all (by decide)⟩
    refine CSharp.collapse_written hopen fun ink hink => ?_
    rcases List.mem_cons.mp hink with rfl | hink
    · exact CSharp.isNeat_word (h first List.mem_cons_self) (Or.inl rfl)
    · exact CSharp.Declaration.isNeat_moreParameters
        (fun parameter hparameter => h parameter (List.mem_cons_of_mem _ hparameter)) ink hink

/-- A list of type parameters is written as it is rendered. -/
theorem written_parameterInks (parameters : List String) :
    Ink.written (parameterInks parameters) = parameterText parameters := by
  have hmore : ∀ parameters : List String,
      UsingDirective.targetText (moreParameters parameters) = commaText parameters ++ ['>'] := by
    intro parameters
    induction parameters with
    | nil => rfl
    | cons parameter rest ih =>
      rw [moreParameters, UsingDirective.targetText_cons, UsingDirective.targetText_cons, ih]
      simp [commaText, Ink.symbol, Ink.word, Ink.after]
  cases parameters with
  | nil => rfl
  | cons first rest =>
    have hwritten : Ink.written (parameterInks (first :: rest)) =
        "<" ++ String.ofList (UsingDirective.targetText
          ((Ink.word first).after "" :: moreParameters rest)) := by
      rw [UsingDirective.targetText, String.ofList_toList]
      rfl
    rw [hwritten, ← String.toList_inj, toList_parameterText, UsingDirective.targetText_cons, hmore]
    simp [Ink.word, Ink.after]

/-! ## The walk -/

theorem fragments_others (path : String) (scope : Scope) (ps : List Property) :
    (visitAll path scope (ps.map fun _ => .other)).fragments = [] ∧
      Source.ownFields (ps.map fun _ => .other) = [] := by
  induction ps with
  | nil => exact ⟨rfl, rfl⟩
  | cons p ps ih => exact ih

/-- What a class adds that stands alone. -/
theorem fragments_type {path : String} {scope : Scope} {head : CSharp.TypeHead}
    {body : List Declaration} (hkind : head.kind = .isClass) (hname : head.name ≠ "") :
    (visitAll path scope [.type head body]).fragments =
      Source.fragmentOf path scope head body ::
        (visitAll path (scope.enterType head.name) body).fragments := by
  have hnamed : ¬(head.name == "") = true := by simpa using hname
  have hnil : (visitAll path (Source.scopeAfter scope (.type head body)) []).fragments = [] := rfl
  rw [visitAll, fragments_append, hnil, List.append_nil, Source.visit, if_neg hnamed,
    fragments_append, Source.foundHere, if_pos hkind]
  rfl

theorem fragments_ownDeclaration {c : ReactiveClass} {parameters : List String} {u : Usings}
    (h : IsNamed c parameters u) (path : String) (scope : Scope) :
    (visitAll path scope [ownDeclaration c parameters]).fragments =
      [{ name := c.name, space := scope.space, containers := scope.containers
         typeParameters := c.typeParameters, accessibility := some c.accessibility
         usings := scope.usings, aliases := scope.aliases, path }] := by
  have hothers := fragments_others path (scope.enterType c.name) c.properties
  rw [ownDeclaration, fragments_type rfl h.name.ne_empty, hothers.1, Source.fragmentOf, hothers.2,
    collapse_parameterInks h.parameterNames, written_parameterInks, ← h.typeParameters,
    Accessibility.ofModifiers?_words]

/-- Classes around some declarations come before what these add. -/
theorem fragments_nestedIn {containers : List String} {declarations : List Declaration}
    (hnames : ∀ container ∈ containers, container ≠ "")
    (hfields : Source.ownFields declarations = []) (path : String) (scope : Scope) :
    (visitAll path scope (nestedIn containers declarations)).fragments =
      (containers.mapIdx fun i container =>
        { name := container, space := scope.space
          containers := scope.containers ++ containers.take i
          usings := scope.usings, aliases := scope.aliases, path }) ++
      (visitAll path { scope with containers := scope.containers ++ containers }
        declarations).fragments := by
  induction containers generalizing scope with
  | nil => simp [nestedIn]
  | cons container rest ih =>
    have hinside : Source.ownFields (nestedIn rest declarations) = [] := by
      cases rest with
      | nil => exact hfields
      | cons other rest => rfl
    have hrest := ih (fun other hother => hnames other (List.mem_cons_of_mem _ hother))
      (scope.enterType container)
    have hnest : nestedIn (container :: rest) declarations =
        [.type ⟨.isClass, ["partial"], container, ""⟩ (nestedIn rest declarations)] := rfl
    have hcollapse : Text.collapse "" = "" := by decide
    have hpartial : Accessibility.ofModifiers? ["partial"] = none := by decide
    rw [hnest, fragments_type rfl (hnames container List.mem_cons_self), hrest, Source.fragmentOf,
      hinside, hcollapse, hpartial, List.mapIdx_cons]
    simp [Scope.enterType]

theorem fragments_inSpace {space : String} {declarations : List Declaration}
    (hspace : space = "" ∨ IsDottedName space) (path : String) (scope : Scope)
    (hscope : scope.space = "") :
    (visitAll path scope (inSpace space declarations)).fragments =
      (visitAll path { scope with space } declarations).fragments := by
  unfold inSpace
  split
  · rename_i hempty
    obtain rfl : space = "" := by simpa using hempty
    rw [← hscope]
  · rename_i hne
    have hdotted := hspace.resolve_left (by simpa using hne)
    have hnil : (visitAll path (Source.scopeAfter scope (.space space declarations)) []).fragments =
        [] := rfl
    rw [visitAll, fragments_append, hnil, List.append_nil, Source.visit, Scope.enterSpace, hscope,
      joinSpaces_dotted hdotted]

theorem fragments_usingDeclarations (path : String) (targets : List (List Ink)) (scope : Scope)
    (declarations : List Declaration) :
    (visitAll path scope ((targets.map fun target =>
      Declaration.usingDirective (Ink.written (usingInks target))) ++ declarations)).fragments =
        (visitAll path ((targets.map fun target => Ink.written (usingInks target)).foldl
          Scope.addUsing scope) declarations).fragments := by
  induction targets generalizing scope with
  | nil => rfl
  | cons target targets ih =>
    have hvisit : (Source.visit path scope
        (.usingDirective (Ink.written (usingInks target)))).fragments = [] := rfl
    rw [List.map_cons, List.map_cons, List.cons_append, List.foldl_cons, visitAll,
      fragments_append, hvisit, List.nil_append, Source.scopeAfter, ih]

/-! ## Rendering and reading -/

/-- What is read from the text of a class's artifact: the classes around it, the outermost one
first, and the class itself. -/
def readBack (c : ReactiveClass) (u : Usings) (path : String) : List Fragment :=
  (c.containers.mapIdx fun i container =>
    { name := container, space := c.space, containers := c.containers.take i
      usings := u.readPlain, aliases := u.readAliases, path }) ++
  [{ name := c.name, space := c.space, containers := c.containers
     typeParameters := c.typeParameters, accessibility := some c.accessibility
     usings := u.readPlain, aliases := u.readAliases, path }]

theorem fragments_declarationsOf {c : ReactiveClass} {parameters : List String} {u : Usings}
    (h : IsNamed c parameters u) (hplain : u.plain.Nodup)
    (haliases : (u.aliases.map Prod.fst).Nodup) (path : String) :
    (visitAll path {} (declarationsOf c parameters u)).fragments = readBack c u path := by
  have hnames : ∀ container ∈ c.containers, container ≠ "" := fun container hcontainer =>
    (h.containers container hcontainer).ne_empty
  rw [declarationsOf, usingDeclarations, fragments_usingDeclarations,
    Usings.foldl_addUsing_targets h.areNamed hplain haliases, fragments_inSpace h.space _ _ rfl,
    fragments_nestedIn hnames rfl, fragments_ownDeclaration h]
  rfl

/-- Reading undoes rendering: the text of a class's artifact is C#, and what is read from it are
the classes around the class and the class itself, without fields and with its using directives in
order.  Only an alias of other than word characters comes back within a plain name. -/
theorem readFragments_render {settings : Settings} {method : String} {c : ReactiveClass}
    {parameters : List String} {u : Usings} (h : IsNamed c parameters u)
    (hplain : u.plain.Nodup) (haliases : (u.aliases.map Prod.fst).Nodup)
    (hmethod : IsIdentifier method) (hsetting : settings.notifyMethod.display = method)
    (hmarker : settings.embedMarker.isTrue = false) (path : String) :
    Source.firstProblem? (render settings c) = none ∧
      (Source.readFragments (render settings c) path).outcome = .ok (readBack c u path) ∧
      ((∀ a ∈ u.aliases, UsingDirective.isAliasName a.1 = true) →
        u.readPlain = u.plain ∧ u.readAliases = u.aliases) := by
  have hunit := ofText_render h hmethod hsetting hmarker
  have hproblem : Source.firstProblem? (render settings c) = none := by
    rw [Source.firstProblem?, hunit]
    rfl
  refine ⟨hproblem, ?_, Usings.read_of_isAliasName⟩
  rw [Source.outcome_readFragments, Source.fragmentsIn, hunit,
    fragments_declarationsOf h hplain haliases]

/-- A generic class within two others, with two namespaces and two aliases in scope. -/
def nestedClass : ReactiveClass where
  name := "Cell"
  space := "App.Model"
  fullName := "App.Model.Grid.Row.Cell<TKey, TValue>"
  accessibility := .isProtectedInternal
  properties := [⟨"_key", "Key", .isPublic, "TKey"⟩, ⟨"_value", "Value", .isInternal, "J.Token"⟩]
  typeParameters := "<TKey, TValue>"
  containers := ["Grid", "Row"]
  usings := ["System", "App.Core", "J = Newtonsoft.Json", "e\u0301 = X.Y"]

/-- What the using directives of `nestedClass` name. -/
def nestedUsings : Usings where
  plain := ["System", "App.Core"]
  aliases := [("J", "Newtonsoft.Json"), ("e\u0301", "X.Y")]

theorem readFragments_render_nestedClass :
    Source.firstProblem? (render {} nestedClass) = none ∧
      (Source.readFragments (render {} nestedClass) Source.noPath).outcome =
        .ok [
          { name := "Grid", space := "App.Model", usings := ["System", "App.Core", "e\u0301=X.Y"]
            aliases := [("J", "Newtonsoft.Json")], path := Source.noPath },
          { name := "Row", space := "App.Model", containers := ["Grid"]
            usings := ["System", "App.Core", "e\u0301=X.Y"]
            aliases := [("J", "Newtonsoft.Json")], path := Source.noPath },
          { name := "Cell", space := "App.Model", containers := ["Grid", "Row"]
            typeParameters := "<TKey, TValue>", accessibility := some .isProtectedInternal
            usings := ["System", "App.Core", "e\u0301=X.Y"]
            aliases := [("J", "Newtonsoft.Json")], path := Source.noPath }] := by
  have hnamed : IsNamed nestedClass ["TKey", "TValue"] nestedUsings := by
    decide +kernel
  have hmethod : IsIdentifier "RaiseAndSetIfChanged" := by decide +kernel
  have hsetting : ({} : Settings).notifyMethod.display = "RaiseAndSetIfChanged" := rfl
  have hread := readFragments_render hnamed (by decide) (by decide) hmethod hsetting rfl
    Source.noPath
  refine ⟨hread.1, hread.2.1.trans (congrArg Except.ok ?_)⟩
  decide +kernel

/-- The alias of this class has a combining mark. -/
def accentedClass : ReactiveClass where
  name := "C"
  space := ""
  fullName := "C"
  accessibility := .isPublic
  properties := [⟨"_p", "P", .isPublic, "T"⟩]
  usings := ["e\u0301 = X.Y"]

/-- All its names are names of C#, but its alias is not read as one. -/
theorem readFragments_render_accentedClass :
    IsNamed accentedClass [] ⟨[], [("e\u0301", "X.Y")]⟩ ∧
      (Source.readFragments (render { banner := .bool false } accentedClass)
        Source.noPath).outcome =
          .ok [{ name := "C", accessibility := some .isPublic, usings := ["e\u0301=X.Y"]
                 path := Source.noPath }] := by
  exact ⟨by decide +kernel, by decide +kernel⟩

end Backfield.Layout
