import Backfield.Proofs.Batch.Names
import Backfield.Proofs.Delivery.Preparation
import Backfield.Proofs.Disk.FileNames
import Backfield.Proofs.Scan.Echoes
import Backfield.Proofs.Source.Spaces

/-!
# Where artifacts are placed

With the default names an artifact is meant to lie in the output directory itself.  Its name is made
of words, of dots and of the namespace, and the namespace alone can bring in a slash: a comment
between the words of its name stays there.

* `slash_mem_artifactName` says so of the name of one class.
* `isDirect_iff_of_generate` is the result for a batch: an artifact lies in the output directory
  itself exactly when no namespace around its class is spelled with a slash.
* `misplaced_commented` is a batch with an artifact that lies elsewhere.
-/

namespace Backfield

/-- A joined name has all the characters of its parts. -/
theorem mem_joinNames_of_mem {c : Char} {name : String} {names : List String}
    (hname : name ∈ names) (hc : c ∈ name.toList) : c ∈ (joinNames names).toList := by
  have hall : ∀ parts : List String, name ∈ parts → c ∈ (".".intercalate parts).toList := by
    intro parts hparts
    induction parts with
    | nil => cases hparts
    | cons part rest ih =>
      cases rest with
      | nil =>
        rw [List.mem_singleton] at hparts
        simpa [← hparts] using hc
      | cons next more =>
        rw [String.intercalate_cons_cons, String.toList_append, List.mem_append]
        rcases List.mem_cons.mp hparts with rfl | hrest
        · exact Or.inl (by simp [hc])
        · exact Or.inr (ih hrest)
  apply hall
  rw [List.mem_filter]
  refine ⟨hname, ?_⟩
  rw [bne_iff_ne]
  rintro rfl
  cases hc

namespace Batch

open CSharp (Token)

variable {settings : Settings} {known : KnownTypes} {c : ReactiveClass}

/-- What tells the names of artifacts is as it is by default. -/
structure HasDefaultNames (settings : Settings) : Prop where
  suffix : settings.artifactSuffix = ({} : Settings).artifactSuffix
  marker : settings.markerArtifact = ({} : Settings).markerArtifact
  qualify : settings.qualifyNames = ({} : Settings).qualifyNames

/-- The names of the class and of the types around it are words. -/
structure HasWords (c : ReactiveClass) : Prop where
  name : Token.IsWordText c.name
  containers : ∀ container ∈ c.containers, Token.IsWordText container

theorem slash_not_mem_of_isWordText {text : String} (h : Token.IsWordText text) :
    '/' ∉ text.toList :=
  fun hslash => absurd (h.2 '/' hslash) (by decide)

theorem slash_not_mem_flatName (hwords : HasWords c) : '/' ∉ (flatName c).toList := by
  intro hslash
  have hparts : '/' ∈ c.name.toList ∨ ∃ word ∈ Text.words c.typeParameters, '/' ∈ word.toList := by
    simpa [flatName, String.toList_join] using hslash
  rcases hparts with hname | ⟨word, hword, hslash⟩
  · exact slash_not_mem_of_isWordText hwords.name hname
  · exact absurd (isWordChar_words hword '/' hslash) (by decide)

/-- A slash in the name of an artifact comes from the namespace. -/
theorem slash_mem_artifactName (hnames : HasDefaultNames settings) (hwords : HasWords c) :
    '/' ∈ (artifactName settings c).toList ↔ '/' ∈ c.space.toList := by
  have hqualify : settings.qualifyNames.isTrue = true := by
    rw [hnames.qualify]
    rfl
  have hsuffix : '/' ∉ settings.artifactSuffix.display.toList := by
    rw [hnames.suffix]
    decide
  rw [artifactName, if_pos hqualify, String.toList_append, List.mem_append, or_iff_left hsuffix]
  constructor
  · intro hslash
    obtain ⟨name, hname, hslash⟩ := (Source.mem_joinNames hslash).resolve_left (by decide)
    rcases List.mem_cons.mp hname with rfl | hname
    · exact hslash
    · exfalso
      rcases List.mem_append.mp hname with hcontainer | hflat
      · exact slash_not_mem_of_isWordText (hwords.containers name hcontainer) hslash
      · rw [List.mem_singleton.mp hflat] at hslash
        exact slash_not_mem_flatName hwords hslash
  · exact mem_joinNames_of_mem List.mem_cons_self

/-- The name of an artifact names something, since it has an ending. -/
theorem isPart_artifactName (hnames : HasDefaultNames settings) (c : ReactiveClass) :
    Path.isPart (artifactName settings c) = true := by
  have hlength : 2 ≤ (artifactName settings c).length := by
    have hsuffix : settings.artifactSuffix.display.length = 21 := by
      rw [hnames.suffix]
      decide
    rw [artifactName, String.length_append, hsuffix]
    omega
  have hempty : artifactName settings c ≠ "" := by
    intro h
    rw [h] at hlength
    exact absurd hlength (by decide)
  have hdot : artifactName settings c ≠ "." := by
    intro h
    rw [h] at hlength
    exact absurd hlength (by decide)
  simp [Path.isPart, hempty, hdot]

/-- A class that a scan finds is the class of a fragment. -/
theorem exists_isClassOf_of_scan {fragments : List Fragment} {classes : List ReactiveClass}
    (hscan : (Scan.scan settings known fragments).outcome = .ok classes) (hc : c ∈ classes) :
    ∃ f ∈ fragments, IsClassOf f c := by
  obtain ⟨marker, name, hdescribe⟩ := Scan.exists_describe_of_mem hscan hc
  obtain ⟨first, more, properties, hreports, rfl⟩ := Scan.exists_of_describe_eq_some hdescribe
  have hfirst : first ∈ Scan.reportsOf name fragments := hreports ▸ List.mem_cons_self
  exact ⟨first, (Scan.mem_reportsOf hfirst).1, rfl, rfl, rfl, rfl, rfl⟩

end Batch

namespace Delivery

open Batch (HasDefaultNames HasWords artifactOf fragmentsOf markerArtifact)
open CSharp (Token)

variable {directory : Path} {settings : Settings} {known : KnownTypes}

/-- The artifact lies in the directory itself. -/
def IsDirect (directory : Path) (a : Artifact) : Prop :=
  '/' ∉ a.name.display.toList ∧ (pathOf directory a).parent = directory

/-- A name without a slash, unless it names nothing, is that of a file in the directory itself. -/
theorem isDirect_iff {a : Artifact} (hpart : Path.isPart a.name.display = true) :
    IsDirect directory a ↔ '/' ∉ a.name.display.toList := by
  refine ⟨And.left, fun hslash => ⟨hslash, ?_⟩⟩
  rw [pathOf, Path.ofText_of_not_mem hslash hpart, Path.join_of_root rfl, Path.parent]
  simp

/-- With the default names an artifact lies in the output directory itself exactly when no
namespace around its class is spelled with a slash.  If their names are words and dots, as they are
in C#, the slash is in a comment between two of them. -/
theorem isDirect_iff_of_generate {sources : List (String × String)} {moment : Moment}
    {artifacts : List Artifact} (hnames : HasDefaultNames settings)
    (hbatch : (Batch.generate settings known (fragmentsOf sources) moment).outcome =
      .ok artifacts) :
    ∃ classes : List ReactiveClass,
      artifacts = markerArtifact settings :: classes.map (artifactOf settings) ∧
      IsDirect directory (markerArtifact settings) ∧
      ∀ c ∈ classes, ∃ source ∈ sources, ∃ spaces : List (List Token),
        (∀ space ∈ spaces, space.Sublist (Token.ofText source.1).tokens) ∧
        c.space = (spaces.map Token.slice).foldl Source.joinSpaces "" ∧
        (IsDirect directory (artifactOf settings c) ↔
          ∀ space ∈ spaces, '/' ∉ (Token.slice space).toList) ∧
        ((∀ space ∈ spaces, Token.AreDotted space) →
          (IsDirect directory (artifactOf settings c) ↔
            ∀ space ∈ spaces, ∀ t ∈ space.tail, '/' ∉ t.gap.toList)) := by
  obtain ⟨classes, hscan, -, rfl⟩ := Batch.exists_classes_of_generate hbatch
  refine ⟨classes, rfl, ?_, fun c hc => ?_⟩
  · have hmarker : (markerArtifact settings).name.display = "ReactivePropertyAttribute.g.cs" := by
      show settings.markerArtifact.display = _
      rw [hnames.marker]
      rfl
    rw [isDirect_iff (by rw [hmarker]; decide), hmarker]
    decide
  · obtain ⟨f, hf, hof⟩ := Batch.exists_isClassOf_of_scan hscan hc
    obtain ⟨source, hsource, hf⟩ := List.mem_flatMap.mp hf
    have hread := Source.readIn_of_mem_fragmentsIn hf
    have hwords : HasWords c := by
      refine ⟨hof.name ▸ hread.name, fun container hcontainer => ?_⟩
      exact hread.containers container (hof.containers ▸ hcontainer)
    obtain ⟨site, hsite, -, _, scope, _, hdeclares, hscope, -⟩ := Source.exists_declares_of_mem hf
    have hspace : c.space = site.space := by
      rw [hof.space, hdeclares, ← hscope]
      rfl
    obtain ⟨spaces, hspelled, hjoined⟩ := Source.exists_names_of_mem_sitesIn hsite
    have hdirect : IsDirect directory (artifactOf settings c) ↔
        ∀ space ∈ spaces, '/' ∉ (Token.slice space).toList := by
      have hpart : Path.isPart (artifactOf settings c).name.display = true :=
        Batch.isPart_artifactName hnames c
      rw [isDirect_iff hpart]
      show '/' ∉ (Batch.artifactName settings c).toList ↔ _
      rw [Batch.slash_mem_artifactName hnames hwords, hspace, hjoined,
        Source.mem_foldl_joinSpaces (by decide) (by decide)]
      simp
    refine ⟨source, hsource, spaces, hspelled, hspace.trans hjoined, hdirect, fun hdotted => ?_⟩
    rw [hdirect]
    refine forall₂_congr fun space hspace => ?_
    rw [Token.slash_mem_slice (hspelled space hspace) (hdotted space hspace)]
    simp

/-! ## A namespace with a comment in its name -/

/-- A comment stands inside the name of a namespace. -/
def commentedSource : String :=
  "using ReactiveObject.Generators;\nnamespace H/*c*/.I \x7b " ++
    "partial class C \x7b [ReactiveProperty] int _a; \x7d \x7d"

/-- The class of the text.  The comment is part of its namespace. -/
def commentedClass : ReactiveClass where
  name := "C"
  space := "H/*c*/.I"
  fullName := "H/*c*/.I.C"
  accessibility := .isInternal
  properties := [⟨"_a", "A", .isInternal, "int"⟩]
  usings := ["ReactiveObject.Generators"]

theorem generate_commentedSource :
    (Batch.generate {} Batch.markerOnly (fragmentsOf [(commentedSource, "")]) .never).outcome =
      .ok [markerArtifact {}, artifactOf {} commentedClass] := by
  have hclasses : Batch.scannedClasses Batch.markerOnly
      "ReactiveObject.Generators.ReactivePropertyAttribute"
      (fragmentsOf [(commentedSource, "")]) = [commentedClass] := by decide +kernel
  have hmarker : ({} : Settings).markerFullName =
      .text "ReactiveObject.Generators.ReactivePropertyAttribute" := by decide
  have hmade := (@Batch.outcome_generate_fragmentsOf {} Batch.markerOnly _ _ _
    [(commentedSource, "")] rfl rfl hmarker rfl (by decide)).1
  rw [hclasses] at hmade
  apply hmade
  intro c hc d hd hclash
  rw [List.mem_singleton] at hc hd
  exact hclash.1 (by rw [hc, hd])

/-- The artifact of the class is named as if it lay in a directory of its own. -/
theorem misplaced_commented :
    ∃ artifacts, (Batch.generate {} Batch.markerOnly (fragmentsOf [(commentedSource, "")])
        .never).outcome = .ok artifacts ∧
      ¬∀ a ∈ artifacts, IsDirect (Path.ofText "out") a := by
  refine ⟨_, generate_commentedSource, fun hall => ?_⟩
  have hdirect := hall _ (List.mem_cons_of_mem _ List.mem_cons_self)
  apply hdirect.1
  show '/' ∈ (Batch.artifactName {} commentedClass).toList
  decide +kernel

/-- The slash is in what the text spells for one of the namespaces. -/
theorem isDirect_iff_of_generate_commented :
    HasDefaultNames {} ∧
      (Batch.generate {} Batch.markerOnly (fragmentsOf [(commentedSource, "")]) .never).outcome =
        .ok [markerArtifact {}, artifactOf {} commentedClass] ∧
      ∃ space : List Token, space.Sublist (Token.ofText commentedSource).tokens ∧
        '/' ∈ (Token.slice space).toList := by
  have hnames : HasDefaultNames {} := ⟨rfl, rfl, rfl⟩
  refine ⟨hnames, generate_commentedSource, ?_⟩
  obtain ⟨classes, hartifacts, -, hclasses⟩ := @isDirect_iff_of_generate
    (Path.ofText "out") {} Batch.markerOnly _ _ _ hnames generate_commentedSource
  have hmem : artifactOf {} commentedClass ∈ classes.map (artifactOf {}) := by
    rw [← (List.cons.inj hartifacts).2]
    exact List.mem_singleton_self _
  obtain ⟨c, hc, hsame⟩ := List.mem_map.mp hmem
  obtain ⟨source, hsource, spaces, hspelled, -, hdirect, -⟩ := hclasses c hc
  rw [List.mem_singleton.mp hsource] at hspelled
  by_contra hnone
  have hslash : '/' ∈ (artifactOf {} commentedClass).name.display.toList := by
    show '/' ∈ (Batch.artifactName {} commentedClass).toList
    decide +kernel
  refine absurd hslash (hsame ▸ (hdirect.mpr fun space hspace hmem => ?_).1)
  exact hnone ⟨space, hspelled space hspace, hmem⟩

end Delivery

end Backfield
