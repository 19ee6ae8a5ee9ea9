import Mathlib.Tactic.MkIffOfInductiveProp
import Backfield.Proofs.Layout.Lines

/-!
# The sketch of a class

What the text of a class's artifact shows as a whole, if all names of the class are names of C#.

* `IsNamed` says which classes these are, with what their using directives name.
* `classSketch` is the sketch of such a class, and `renders_render` the result: the text of the
  artifact shows it.
-/

namespace Backfield.Layout

open CSharp (Ink Sketch IsLine Written IsIdentifier IsDottedName dotted)
open CSharp.Declaration (braces usingInks namedInks aliasedInks spaceInks classInks propertySketch)

/-! ## The banner -/

/-- A line that is a comment from its first character on. -/
def isComment (line : String) : Bool :=
  line.toList.take 2 == ['/', '/'] && line.toList.all fun c => !Text.isLineBreak c

theorem isLine_of_isComment {line : String} (h : isComment line = true) : IsLine line [] := by
  simp only [isComment, Bool.and_eq_true, beq_iff_eq, List.all_eq_true, Bool.not_eq_true'] at h
  have hline : line.toList = '/' :: '/' :: line.toList.drop 2 := by
    have hsplit := List.take_append_drop 2 line.toList
    rw [h.1] at hsplit
    exact hsplit.symm
  exact IsLine.comment hline fun c hc => h.2 c (List.mem_of_mem_drop hc)

theorem written_comments {comments : List String} (h : comments.all isComment = true) :
    Written comments [] := by
  induction comments with
  | nil => exact Written.nil
  | cons line rest ih =>
    simp only [List.all_cons, Bool.and_eq_true] at h
    exact Written.cons (isLine_of_isComment h.1) (ih h.2)

/-- The banner shows nothing. -/
theorem renders_banner : Renders banner [] :=
  ⟨_, _, rfl, by decide, written_comments (by decide +kernel)⟩

/-! ## Using directives -/

/-- What the using directives of a class name: plain names, and aliases with their targets. -/
structure Usings where
  plain : List String
  aliases : List (String × String)

namespace Usings

/-- The texts that stand after the word `using`. -/
def texts (u : Usings) : List String := u.plain ++ u.aliases.map fun a => a.1 ++ " = " ++ a.2

/-- The inks of these texts. -/
def targets (u : Usings) : List (List Ink) :=
  u.plain.map namedInks ++ u.aliases.map fun a => aliasedInks a.1 a.2

/-- All names are dotted names, and aliases are identifiers. -/
@[mk_iff]
structure AreNamed (u : Usings) : Prop where
  plain : ∀ name ∈ u.plain, IsDottedName name
  aliases : ∀ a ∈ u.aliases, IsIdentifier a.1 ∧ IsDottedName a.2

instance (u : Usings) : Decidable u.AreNamed := decidable_of_iff' _ (areNamed_iff u)

end Usings

theorem written_usings {u : Usings} (h : u.AreNamed) :
    Written (u.texts.map fun name => "using " ++ name ++ ";") (u.targets.flatMap usingInks) := by
  have hplain : ∀ names : List String, (∀ name ∈ names, IsDottedName name) →
      Written (names.map fun name => "using " ++ name ++ ";")
        ((names.map namedInks).flatMap usingInks) := by
    intro names hnames
    induction names with
    | nil => exact Written.nil
    | cons name rest ih =>
      exact Written.cons (isLine_using (hnames name List.mem_cons_self))
        (ih fun other hother => hnames other (List.mem_cons_of_mem _ hother))
  have haliases : ∀ aliases : List (String × String),
      (∀ a ∈ aliases, IsIdentifier a.1 ∧ IsDottedName a.2) →
      Written ((aliases.map fun a => a.1 ++ " = " ++ a.2).map fun name => "using " ++ name ++ ";")
        ((aliases.map fun a => aliasedInks a.1 a.2).flatMap usingInks) := by
    intro aliases haliases
    induction aliases with
    | nil => exact Written.nil
    | cons a rest ih =>
      obtain ⟨hname, htarget⟩ := haliases a List.mem_cons_self
      exact Written.cons (isLine_aliased hname htarget)
        (ih fun other hother => haliases other (List.mem_cons_of_mem _ hother))
  rw [Usings.texts, Usings.targets, List.map_append, List.flatMap_append]
  exact (hplain u.plain h.plain).append (haliases u.aliases h.aliases)

theorem renders_usings {u : Usings} (h : u.AreNamed) (hne : u.texts ≠ []) :
    Renders (usingDirectives u.texts) ((u.targets.flatMap usingInks).map Sketch.leaf) := by
  have hwritten := written_usings h
  cases htexts : u.texts with
  | nil => exact absurd htexts hne
  | cons name rest =>
    rw [htexts] at hwritten
    exact renders_lines (by simp) hwritten

/-! ## Whole texts -/

/-- A class all of whose names are names of C#.  `parameters` are its type parameters, and `u` is
what its using directives name. -/
@[mk_iff]
structure IsNamed (c : ReactiveClass) (parameters : List String) (u : Usings) : Prop where
  name : IsIdentifier c.name
  containers : ∀ container ∈ c.containers, IsIdentifier container
  space : c.space = "" ∨ IsDottedName c.space
  parameterNames : ∀ parameter ∈ parameters, IsIdentifier parameter
  typeParameters : c.typeParameters = parameterText parameters
  nonempty : c.properties ≠ []
  properties : ∀ p ∈ c.properties,
    IsIdentifier p.name ∧ IsIdentifier p.field ∧ IsDottedName p.type
  areNamed : u.AreNamed
  usings : c.usings = u.texts

instance (c : ReactiveClass) (parameters : List String) (u : Usings) :
    Decidable (IsNamed c parameters u) := decidable_of_iff' _ (isNamed_iff c parameters u)

/-- The head of a namespace, unless it has no name. -/
def spaceHeads (space : String) : List (List Ink) :=
  if space == "" then [] else [spaceInks space]

/-- What is written before the braces around a class, the outermost line first. -/
def headInks (c : ReactiveClass) (parameters : List String) : List (List Ink) :=
  spaceHeads c.space ++
    c.containers.map (fun container => classInks [] container []) ++
    [classInks c.accessibility.words c.name parameters]

/-- The properties of a class. -/
def propertySketches (method : String) (ps : List Property) : List Sketch :=
  (ps.map fun p => propertySketch p.accessibility.words p.type p.name method p.field).flatten

/-- A rendered class. -/
def classSketch (method : String) (c : ReactiveClass) (parameters : List String) (u : Usings) :
    List Sketch :=
  (u.targets.flatMap usingInks).map Sketch.leaf ++
    nest (headInks c parameters) (propertySketches method c.properties)

theorem renders_properties {method : String} {ps : List Property} (hmethod : IsIdentifier method)
    (hne : ps ≠ []) (h : ∀ p ∈ ps, IsIdentifier p.name ∧ IsIdentifier p.field ∧
      IsDottedName p.type) : Renders (properties method ps) (propertySketches method ps) := by
  refine Renders.sections ?_ (by simpa using hne)
  rw [List.forall₂_map_left_iff, List.forall₂_map_right_iff, List.forall₂_same]
  intro p hp
  obtain ⟨hname, hfield, htype⟩ := h p hp
  exact renders_property hmethod htype hname hfield

theorem partialClass_eq (name : String) :
    " ".intercalate ["partial", "class", name] = "partial class " ++ name := by
  rw [← String.toList_inj]
  simp [String.intercalate_cons_cons]

theorem forall₂_headInks {c : ReactiveClass} {parameters : List String} {u : Usings}
    (h : IsNamed c parameters u) :
    List.Forall₂ (fun line inks => IsLine line inks ∧ line ≠ "") (enclosingDeclarations c)
      (headInks c parameters) := by
  have hspace : List.Forall₂ (fun line inks => IsLine line inks ∧ line ≠ "")
      (if c.space == "" then [] else ["namespace " ++ c.space]) (spaceHeads c.space) := by
    unfold spaceHeads
    split
    · exact List.Forall₂.nil
    · rename_i hne
      have hdotted := h.space.resolve_left (by simpa using hne)
      exact List.Forall₂.cons ⟨isLine_space hdotted, by simp⟩ List.Forall₂.nil
  have hcontainers : List.Forall₂ (fun line inks => IsLine line inks ∧ line ≠ "")
      (c.containers.map ("partial class " ++ ·))
      (c.containers.map fun container => classInks [] container []) := by
    rw [List.forall₂_map_left_iff, List.forall₂_map_right_iff, List.forall₂_same]
    intro container hcontainer
    have hline : IsLine (" ".intercalate ([] ++ ["partial", "class", container]) ++ parameterText [])
        (classInks [] container []) :=
      isLine_class (fun _ hword => absurd hword List.not_mem_nil) (h.containers container hcontainer)
        fun _ hparameter => absurd hparameter List.not_mem_nil
    rw [List.nil_append, partialClass_eq] at hline
    exact ⟨by simpa [parameterText] using hline, by simp⟩
  have hclass : IsLine (classDeclaration c) (classInks c.accessibility.words c.name parameters) := by
    have hline := isLine_class (isWord_words c.accessibility) h.name h.parameterNames
    rw [String.intercalate_append_of_ne_nil c.accessibility.words_ne_nil (List.cons_ne_nil _ _),
      partialClass_eq, ← Accessibility.text_eq, ← h.typeParameters] at hline
    have htext : classDeclaration c =
        c.accessibility.text ++ " " ++ ("partial class " ++ c.name) ++ c.typeParameters := by
      rw [← String.toList_inj]
      simp [classDeclaration]
    rwa [htext]
  have hne : classDeclaration c ≠ "" := by simp [classDeclaration]
  exact List.rel_append (List.rel_append hspace hcontainers)
    (List.Forall₂.cons ⟨hclass, hne⟩ List.Forall₂.nil)

/-- The banner shows nothing. -/
theorem exists_bannerSection (settings : Settings) :
    ∃ parts, List.Forall₂ Renders (bannerSection settings) parts ∧ parts.flatten = [] := by
  rw [bannerSection]
  split
  · exact ⟨[[]], List.Forall₂.cons renders_banner List.Forall₂.nil, rfl⟩
  · exact ⟨[], List.Forall₂.nil, rfl⟩

/-- The using directives, if there are any, show their targets in order. -/
theorem exists_usingSection {c : ReactiveClass} {parameters : List String} {u : Usings}
    (h : IsNamed c parameters u) :
    ∃ parts, List.Forall₂ Renders
      (if c.usings.isEmpty then [] else [usingDirectives c.usings]) parts ∧
        parts.flatten = (u.targets.flatMap usingInks).map Sketch.leaf := by
  rw [h.usings]
  split
  · rename_i hempty
    have hnone : u.targets = [] := by
      have htexts : u.plain = [] ∧ u.aliases = [] := by simpa [Usings.texts] using hempty
      simp [Usings.targets, htexts]
    exact ⟨[], List.Forall₂.nil, by simp [hnone]⟩
  · rename_i hne
    exact ⟨[_], List.Forall₂.cons (renders_usings h.areNamed (by simpa using hne))
      List.Forall₂.nil, by simp⟩

/-- The text of a class's artifact shows the sketch of the class. -/
theorem renders_render {settings : Settings} {method : String} {c : ReactiveClass}
    {parameters : List String} {u : Usings} (h : IsNamed c parameters u)
    (hmethod : IsIdentifier method) (hsetting : settings.notifyMethod.display = method)
    (hmarker : settings.embedMarker.isTrue = false) :
    ∃ text, render settings c = text ++ "\n" ∧
      Renders text (classSketch method c parameters u) := by
  have hclass : Renders (classSource settings c)
      (nest (headInks c parameters) (propertySketches method c.properties)) := by
    rw [classSource, hsetting]
    exact Renders.blocks (forall₂_headInks h) (renders_properties hmethod h.nonempty h.properties)
  obtain ⟨first, hfirst, hfirstFlat⟩ := exists_bannerSection settings
  obtain ⟨second, hsecond, hsecondFlat⟩ := exists_usingSection h
  have hall : List.Forall₂ Renders
      (bannerSection settings ++ (if c.usings.isEmpty then [] else [usingDirectives c.usings]) ++
        [classSource settings c])
      (first ++ second ++ [nest (headInks c parameters) (propertySketches method c.properties)]) :=
    List.rel_append (List.rel_append hfirst hsecond) (List.Forall₂.cons hclass List.Forall₂.nil)
  have hsections := Renders.sections hall (by simp)
  rw [List.flatten_append, List.flatten_append, hfirstFlat, hsecondFlat] at hsections
  refine ⟨"\n\n".intercalate (bannerSection settings ++
    (if c.usings.isEmpty then [] else [usingDirectives c.usings]) ++ [classSource settings c]), ?_, ?_⟩
  · rw [render, hmarker, if_neg Bool.false_ne_true, List.append_nil]
    rfl
  · rwa [List.nil_append, List.flatten_singleton] at hsections

end Backfield.Layout
