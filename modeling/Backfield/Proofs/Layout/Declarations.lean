import Backfield.Proofs.Layout.Balance

/-!
# Declarations of a rendered class

What the parser reads in the text of a class's artifact: the using directives, and the class within
its containers and its namespace (`declarationsOf`).  Nothing in the text is a problem.

* `bodyOf_properties`, `bodyOf_nestedIn`, `bodyOf_inSpace` and `bodyOf_usings` say what is read from
  the inside to the outside.
* `ofText_render` is the result.
-/

namespace Backfield.Layout

open CSharp (Ink Sketch Declaration SourceUnit Forest Token Tree IsIdentifier IsDottedName)
open CSharp.Tree (Fits)
open CSharp.Declaration (IsTarget bodyOf bodyOf_nil bodyOf_property bodyOf_class bodyOf_namespace
  bodyOf_using usingInks parameterInks classInks)

/-! ## The declarations -/

/-- Partial classes around some declarations, the outermost one first. -/
def nestedIn (containers : List String) (declarations : List Declaration) : List Declaration :=
  containers.foldr (fun container inside => [.type ⟨.isClass, ["partial"], container, ""⟩ inside])
    declarations

/-- Some declarations in a namespace, unless it has no name. -/
def inSpace (space : String) (declarations : List Declaration) : List Declaration :=
  if space == "" then declarations else [.space space declarations]

/-- The declaration of the class itself. -/
def ownDeclaration (c : ReactiveClass) (parameters : List String) : Declaration :=
  .type ⟨.isClass, c.accessibility.words ++ ["partial"], c.name,
    Ink.written (parameterInks parameters)⟩ (c.properties.map fun _ => .other)

def usingDeclarations (u : Usings) : List Declaration :=
  u.targets.map fun target => .usingDirective (Ink.written (usingInks target))

/-- What the text of a class's artifact declares. -/
def declarationsOf (c : ReactiveClass) (parameters : List String) (u : Usings) :
    List Declaration :=
  usingDeclarations u ++ inSpace c.space (nestedIn c.containers [ownDeclaration c parameters])

/-! ## Bodies -/

theorem isSymbol_head_properties {method : String} {ps : List Property} {trees : List Tree}
    (h : List.Forall₂ Fits trees (propertySketches method ps)) :
    ∀ tree ∈ trees.head?, tree.isSymbol "=" = false := by
  cases ps with
  | nil =>
    obtain rfl := List.forall₂_nil_right_iff.mp h
    exact fun tree htree => by cases htree
  | cons p ps =>
    obtain ⟨first, words, hwords⟩ := List.exists_cons_of_ne_nil p.accessibility.words_ne_nil
    have hfirst : ∃ rest, propertySketches method (p :: ps) =
        Sketch.leaf (Ink.word first) :: rest := by
      rw [propertySketches, List.map_cons, hwords]
      exact ⟨_, rfl⟩
    obtain ⟨rest, heq⟩ := hfirst
    rw [heq] at h
    obtain ⟨tree, others, htree, -, rfl⟩ := List.forall₂_cons_right_iff.mp h
    rintro other ⟨⟩
    simp [htree.isSymbol, Ink.word]

theorem bodyOf_properties {method : String} {ps : List Property} {last fuel : Nat}
    {trees : List Tree} (hmethod : IsIdentifier method)
    (hps : ∀ p ∈ ps, IsIdentifier p.name ∧ IsIdentifier p.field ∧ IsDottedName p.type)
    (h : List.Forall₂ Fits trees (propertySketches method ps)) (hfuel : ps.length ≤ fuel) :
    bodyOf .body last fuel trees = { declarations := ps.map fun _ => .other } := by
  induction ps generalizing trees fuel with
  | nil =>
    obtain rfl := List.forall₂_nil_right_iff.mp h
    exact bodyOf_nil .body last fuel
  | cons p ps ih =>
    obtain ⟨hname, hfield, htype⟩ := hps p List.mem_cons_self
    obtain ⟨front, back, rfl, hfront, hback⟩ := CSharp.exists_append_of_forall₂ h
    obtain ⟨fuel, rfl⟩ := Nat.exists_eq_add_of_le' hfuel
    have hrest := ih (fun other hother => hps other (List.mem_cons_of_mem _ hother)) hback
      (Nat.le_add_left ps.length fuel)
    rw [List.length_cons, ← Nat.add_assoc, bodyOf_property
      p.accessibility.isReservedModifier_words p.accessibility.words_ne_nil htype hname hmethod
      hfield hfront (isSymbol_head_properties hback), hrest]
    rfl

/-- Classes without modifiers and type parameters are read as they are nested. -/
theorem bodyOf_nestedIn {containers : List String} {items : List Sketch} {fuel : Nat}
    {declarations : List Declaration} (hcontainers : ∀ container ∈ containers, IsIdentifier container)
    (hitems : ∀ site last trees, List.Forall₂ Fits trees items →
      bodyOf site last fuel trees = { declarations }) :
    ∀ site last trees,
      List.Forall₂ Fits trees
          (nest (containers.map fun container => classInks [] container []) items) →
        bodyOf site last (fuel + containers.length) trees =
          { declarations := nestedIn containers declarations } := by
  induction containers with
  | nil => exact hitems
  | cons container containers ih =>
    intro site last trees h
    have hinside := ih fun other hother => hcontainers other (List.mem_cons_of_mem _ hother)
    exact bodyOf_class (fun _ hword => absurd hword List.not_mem_nil)
      (hcontainers container List.mem_cons_self)
      (fun _ hparameter => absurd hparameter List.not_mem_nil) h
      fun inner inside => hinside .body inner inside

theorem bodyOf_inSpace {space : String} {items : List Sketch} {fuel : Nat}
    {declarations : List Declaration} {trees : List Tree} (hspace : space = "" ∨ IsDottedName space)
    (hitems : ∀ site last trees, List.Forall₂ Fits trees items →
      bodyOf site last fuel trees = { declarations })
    (h : List.Forall₂ Fits trees (nest (spaceHeads space) items)) (last : Nat) :
    bodyOf .file last (fuel + (spaceHeads space).length) trees =
      { declarations := inSpace space declarations } := by
  unfold spaceHeads at h ⊢
  unfold inSpace
  split at h
  · rename_i hempty
    rw [if_pos hempty, if_pos hempty]
    exact hitems .file last trees h
  · rename_i hne
    rw [if_neg hne, if_neg hne]
    exact bodyOf_namespace (hspace.resolve_left (by simpa using hne)) h fun inner inside hinside =>
      hitems .body inner inside hinside

theorem bodyOf_usings {targets : List (List Ink)} {last fuel : Nat} {trees rest : List Tree}
    {declarations : List Declaration} (htargets : ∀ target ∈ targets, IsTarget target)
    (h : List.Forall₂ Fits trees ((targets.flatMap usingInks).map Sketch.leaf))
    (hrest : bodyOf .file last fuel rest = { declarations }) :
    bodyOf .file last (fuel + targets.length) (trees ++ rest) =
      { declarations := (targets.map fun target =>
          Declaration.usingDirective (Ink.written (usingInks target))) ++ declarations } := by
  induction targets generalizing trees with
  | nil =>
    obtain rfl := List.forall₂_nil_right_iff.mp h
    exact hrest
  | cons target targets ih =>
    rw [List.flatMap_cons, List.map_append] at h
    obtain ⟨front, back, rfl, hfront, hback⟩ := CSharp.exists_append_of_forall₂ h
    have hmore := ih (fun other hother => htargets other (List.mem_cons_of_mem _ hother)) hback
    rw [List.append_assoc, List.length_cons, ← Nat.add_assoc,
      bodyOf_using (htargets target List.mem_cons_self) hfront, hmore]
    rfl

theorem isTarget_of_mem {u : Usings} (h : u.AreNamed) :
    ∀ target ∈ u.targets, IsTarget target := by
  intro target htarget
  rcases List.mem_append.mp htarget with hplain | haliased
  · obtain ⟨name, hname, rfl⟩ := List.mem_map.mp hplain
    exact CSharp.Declaration.isTarget_named (h.plain name hname)
  · obtain ⟨a, ha, rfl⟩ := List.mem_map.mp haliased
    obtain ⟨hname, hdotted⟩ := h.aliases a ha
    exact CSharp.Declaration.isTarget_aliased hname hdotted

/-! ## Whole texts -/

theorem nest_append (heads more : List (List Ink)) (items : List Sketch) :
    nest (heads ++ more) items = nest heads (nest more items) := List.foldr_append

/-- How deep and how long a rendered class is: fuel enough to read it. -/
def extent (c : ReactiveClass) (parameters : List String) (u : Usings) : Nat :=
  c.properties.length + (headInks c parameters).length + u.targets.length

theorem bodyOf_classSketch {method : String} {c : ReactiveClass} {parameters : List String}
    {u : Usings} {fuel : Nat} {trees : List Tree} (last : Nat) (h : IsNamed c parameters u)
    (hmethod : IsIdentifier method)
    (hfits : List.Forall₂ Fits trees (classSketch method c parameters u))
    (hfuel : extent c parameters u ≤ fuel) :
    bodyOf .file last fuel trees = { declarations := declarationsOf c parameters u } := by
  obtain ⟨extra, rfl⟩ := Nat.exists_eq_add_of_le' hfuel
  have hown : ∀ site last trees, List.Forall₂ Fits trees
        (nest [classInks c.accessibility.words c.name parameters]
          (propertySketches method c.properties)) →
      bodyOf site last (extra + c.properties.length + 1) trees =
        { declarations := [ownDeclaration c parameters] } := by
    intro site last trees hfits
    exact bodyOf_class c.accessibility.isReservedModifier_words h.name h.parameterNames hfits
      fun inner inside hinside =>
        bodyOf_properties hmethod h.properties hinside (Nat.le_add_left _ extra)
  obtain ⟨front, back, rfl, hfront, hback⟩ := CSharp.exists_append_of_forall₂ hfits
  rw [headInks, nest_append, nest_append] at hback
  have hspace := bodyOf_inSpace h.space (bodyOf_nestedIn h.containers hown) hback
  have hall := bodyOf_usings (isTarget_of_mem h.areNamed) hfront (hspace last)
  have hsum : extra + extent c parameters u = extra + c.properties.length + 1 +
      c.containers.length + (spaceHeads c.space).length + u.targets.length := by
    simp only [extent, headInks, List.length_append, List.length_map, List.length_singleton]
    omega
  rw [hsum]
  exact hall

/-! ## Length -/

theorem length_le_flatten {α : Type} (parts : List (List α)) (h : ∀ part ∈ parts, part ≠ []) :
    parts.length ≤ parts.flatten.length := by
  induction parts with
  | nil => exact Nat.le_refl 0
  | cons part parts ih =>
    have hpart := List.length_pos_of_ne_nil (h part List.mem_cons_self)
    have hrest := ih fun other hother => h other (List.mem_cons_of_mem _ hother)
    rw [List.flatten_cons, List.length_append, List.length_cons]
    omega

theorem length_inksOf_nest (heads : List (List Ink)) (items : List Sketch) :
    heads.length + (Sketch.inksOf items).length ≤ (Sketch.inksOf (nest heads items)).length := by
  induction heads with
  | nil => simp [nest]
  | cons inks heads ih =>
    have hblock : Sketch.inksOf (nest (inks :: heads) items) =
        inks ++ (Ink.symbol "\x7b" :: (Sketch.inksOf (nest heads items) ++ [Ink.symbol "\x7d"])) := by
      simp [nest, CSharp.Declaration.blockSketch, CSharp.Declaration.braces]
    rw [hblock]
    simp only [List.length_append, List.length_cons, List.length_nil]
    omega

/-- Every line of a rendered class has a token. -/
theorem extent_le_length (method : String) (c : ReactiveClass) (parameters : List String)
    (u : Usings) :
    extent c parameters u ≤ (Sketch.inksOf (classSketch method c parameters u)).length := by
  have husings : u.targets.length ≤ (u.targets.flatMap usingInks).length := by
    have hlength := length_le_flatten (u.targets.map usingInks) fun part hpart => by
      obtain ⟨target, -, rfl⟩ := List.mem_map.mp hpart
      exact List.cons_ne_nil _ _
    rwa [List.length_map, ← List.flatMap_def] at hlength
  have hproperties : c.properties.length ≤
      (Sketch.inksOf (propertySketches method c.properties)).length := by
    rw [propertySketches, inksOf_flatten, List.map_map]
    have hlength := length_le_flatten (c.properties.map (Sketch.inksOf ∘ fun p =>
      CSharp.Declaration.propertySketch p.accessibility.words p.type p.name method p.field))
      fun part hpart => by
        obtain ⟨p, -, rfl⟩ := List.mem_map.mp hpart
        simp [CSharp.Declaration.propertySketch, CSharp.Declaration.blockSketch,
          CSharp.Declaration.braces]
    rwa [List.length_map] at hlength
  have hnest := length_inksOf_nest (headInks c parameters) (propertySketches method c.properties)
  rw [classSketch, Sketch.inksOf_append, Sketch.inksOf_map_leaf, List.length_append, extent]
  omega

/-! ## Whole texts -/

/-- The text of a class's artifact declares the class in its place, and nothing is wrong in it. -/
theorem ofText_render {settings : Settings} {method : String} {c : ReactiveClass}
    {parameters : List String} {u : Usings} (h : IsNamed c parameters u)
    (hmethod : IsIdentifier method) (hsetting : settings.notifyMethod.display = method)
    (hmarker : settings.embedMarker.isTrue = false) :
    SourceUnit.ofText (render settings c) = ⟨declarationsOf c parameters u, []⟩ := by
  obtain ⟨text, htext, hrenders⟩ := renders_render h hmethod hsetting hmarker
  have hshows : List.Forall₂ Token.Shows (Token.ofText (render settings c)).tokens
      (Sketch.inksOf (classSketch method c parameters u)) := by
    rw [htext]
    exact hrenders.reads [] {} rfl
  have hgo := goTogether_classSketch h hmethod
  obtain ⟨trees, hfits, hforest⟩ :=
    Forest.exists_fits (areSound_classSketch method c parameters u) hshows
  have hlength := extent_le_length method c parameters u
  have hfuel : extent c parameters u ≤ 4 * (Token.ofText (render settings c)).tokens.length + 4 := by
    rw [hshows.length_eq]
    omega
  have hbody := bodyOf_classSketch (Token.ofText (render settings c)).lastLine h hmethod hfits hfuel
  simp [SourceUnit.ofText, hforest, hbody, Token.filterMap_problem?_eq_nil hshows hgo,
    Token.problems_eq_nil hshows hgo]

end Backfield.Layout
