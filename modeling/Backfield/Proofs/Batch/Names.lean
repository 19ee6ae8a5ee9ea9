import Backfield.Proofs.Batch.Artifacts
import Backfield.Proofs.Scan.FullNames
import Backfield.Proofs.Source.Sites

/-!
# Names of artifacts

A batch fails if two of its artifacts share a name.  This module says when they do.

* `artifactName_inj` says which classes share a name: those in one place whose flat names are
  equal.  It needs their names to be words, which those of classes that are read are.
* `isDuplicate_generate_iff` is the result for classes that are read from texts.
* `generate_of_tidy` is what it comes to for whoever writes the sources: no two artifacts share a
  name if no name has an underscore and the lists of type parameters are spelled plainly.
-/

namespace Backfield

open Scan (qualifiedName)
open Source (fragmentsIn ReadIn readIn_of_mem_fragmentsIn)

namespace Batch

variable {settings : Settings} {known : KnownTypes}

/-! ## Which classes share a name -/

/-- The words of a text consist of word characters. -/
theorem isWordChar_wordsFrom (pending text : List Char)
    (hpending : ∀ c ∈ pending, Text.isWordChar c = true) :
    ∀ word ∈ Text.wordsFrom pending text, ∀ c ∈ word, Text.isWordChar c = true := by
  induction text generalizing pending with
  | nil =>
    intro word hword c hc
    rw [Text.wordsFrom] at hword
    split at hword
    · cases hword
    · rw [List.mem_singleton.mp hword] at hc
      exact hpending c (List.mem_reverse.mp hc)
  | cons c rest ih =>
    rw [Text.wordsFrom]
    split
    · rename_i hc
      refine ih (c :: pending) fun d hd => ?_
      rcases List.mem_cons.mp hd with rfl | hd
      · exact hc
      · exact hpending d hd
    · split
      · exact ih [] fun d hd => by cases hd
      · intro word hword d hd
        rcases List.mem_cons.mp hword with rfl | hword
        · exact hpending d (List.mem_reverse.mp hd)
        · exact ih [] (fun d hd => by cases hd) word hword d hd

theorem isWordChar_words {text word : String} (h : word ∈ Text.words text) :
    ∀ c ∈ word.toList, Text.isWordChar c = true := by
  obtain ⟨chars, hchars, rfl⟩ := List.mem_map.mp h
  rw [String.toList_ofList]
  exact isWordChar_wordsFrom [] _ (fun c hc => by cases hc) chars hchars

/-- The flat name is the name and the words of the type parameters with underscores between. -/
theorem flatName_eq (c : ReactiveClass) :
    flatName c = "_".intercalate (c.name :: Text.words c.typeParameters) := by
  have hjoin : ∀ (name : String) (words : List String),
      name ++ String.join (words.map ("_" ++ ·)) = "_".intercalate (name :: words) := by
    intro name words
    induction words generalizing name with
    | nil => simp
    | cons word rest ih =>
      rw [String.intercalate_cons_of_ne_nil (List.cons_ne_nil _ _), ← ih word]
      simp [String.append_assoc]
  exact hjoin c.name _

/-- The namespace and the types around a class, joined. -/
def scopeName (c : ReactiveClass) : String := joinNames (c.space :: c.containers)

/-- What the naming of artifacts relies on: the name of a class is a word. -/
def IsNamed (c : ReactiveClass) : Prop := CSharp.Token.IsWordText c.name

theorem undotted_flatName {c : ReactiveClass} (hc : IsNamed c) : Undotted (flatName c) := by
  intro hdot
  have hdot : '.' ∈ c.name.toList ∨ ∃ word ∈ Text.words c.typeParameters, '.' ∈ word.toList := by
    simpa [flatName, String.toList_join] using hdot
  rcases hdot with hname | ⟨word, hword, hdot⟩
  · exact absurd (hc.2 '.' hname) (by decide)
  · exact absurd (isWordChar_words hword '.' hdot) (by decide)

theorem flatName_ne_empty {c : ReactiveClass} (hc : IsNamed c) : flatName c ≠ "" := by
  intro hempty
  exact hc.1 (String.append_eq_empty_iff.mp hempty).1

/-- The qualified name of a class's artifact. -/
theorem artifactName_eq {suffix : String} {c : ReactiveClass}
    (hqualify : settings.qualifyNames.isTrue = true)
    (hsuffix : settings.artifactSuffix = .text suffix) (hc : IsNamed c) :
    artifactName settings c = qualifiedName (scopeName c) (flatName c) ++ suffix := by
  have hconcat : c.space :: c.containers ++ [flatName c] =
      (c.space :: c.containers) ++ [flatName c] := rfl
  rw [artifactName, if_pos hqualify, hsuffix, Value.display_text, hconcat,
    joinNames_concat _ (flatName_ne_empty hc), scopeName]

/-- Two classes share the name of their artifacts if they are in one place and have one flat
name. -/
theorem artifactName_inj {suffix : String} {c d : ReactiveClass}
    (hqualify : settings.qualifyNames.isTrue = true)
    (hsuffix : settings.artifactSuffix = .text suffix) (hc : IsNamed c) (hd : IsNamed d) :
    artifactName settings c = artifactName settings d ↔
      scopeName c = scopeName d ∧ flatName c = flatName d := by
  rw [artifactName_eq hqualify hsuffix hc, artifactName_eq hqualify hsuffix hd,
    String.append_left_inj, qualifiedName_inj (undotted_flatName hc) (undotted_flatName hd)]

/-- Two distinct types share a name. -/
def Clash (c d : ReactiveClass) : Prop :=
  c.fullName ≠ d.fullName ∧ scopeName c = scopeName d ∧ flatName c = flatName d

/-- The names of the classes' artifacts are fresh unless two of the classes clash. -/
theorem allFresh_iff {marker suffix file : String} {classes : List ReactiveClass}
    (hqualify : settings.qualifyNames.isTrue = true)
    (hsuffix : settings.artifactSuffix = .text suffix)
    (hclash : ¬suffix.toList <:+ file.toList) (hnamed : ∀ c ∈ classes, IsNamed c)
    (hdistinct : classes.Pairwise fun c d => c.fullName ≠ d.fullName) :
    AllFresh settings [(.text file, marker)] classes ↔
      ∀ c ∈ classes, ∀ d ∈ classes, ¬Clash c d := by
  have howner : ∀ c ∈ classes,
      Taken.owner? [(.text file, marker)] (artifactName settings c) = none := by
    intro c hc
    have hne : ¬file = artifactName settings c := by
      intro hfile
      rw [artifactName_eq hqualify hsuffix (hnamed c hc)] at hfile
      exact hclash (hfile ▸ by simp)
    simp [Taken.owner?, hne]
  constructor
  · rintro ⟨hnames, -⟩ c hc d hd ⟨hfull, hsame⟩
    have hname := (artifactName_inj hqualify hsuffix (hnamed c hc) (hnamed d hd)).mpr hsame
    have heq : c = d := List.inj_on_of_nodup_map hnames hc hd hname
    exact hfull (congrArg ReactiveClass.fullName heq)
  · intro hnone
    refine ⟨List.pairwise_map.mpr ?_, howner⟩
    refine hdistinct.imp_of_mem fun {c d} hc hd hfull hname => ?_
    exact hnone c hc d hd ⟨hfull,
      (artifactName_inj hqualify hsuffix (hnamed c hc) (hnamed d hd)).mp hname⟩

/-! ## Batches of classes that are read -/

/-- The fragments of a list of texts, each beside its path. -/
def fragmentsOf (sources : List (String × String)) : List Fragment :=
  sources.flatMap fun source => fragmentsIn source.1 source.2

theorem exists_readIn {sources : List (String × String)} {f : Fragment}
    (hf : f ∈ fragmentsOf sources) : ∃ tokens, ReadIn tokens f := by
  obtain ⟨source, -, hf⟩ := List.mem_flatMap.mp hf
  exact ⟨_, readIn_of_mem_fragmentsIn hf⟩

/-- The fields of a fragment that is read have names. -/
theorem name_ne_of_mem_fragmentsOf {sources : List (String × String)} :
    ∀ f ∈ fragmentsOf sources, ∀ field ∈ f.fields, field.name ≠ "" := by
  intro f hf
  obtain ⟨tokens, hread⟩ := exists_readIn hf
  exact hread.fields

/-- A class that is read is the class of a fragment. -/
theorem exists_fragment_of_mem {marker : String} {sources : List (String × String)}
    {c : ReactiveClass} (hc : c ∈ scannedClasses known marker (fragmentsOf sources)) :
    ∃ f ∈ fragmentsOf sources, IsClassOf f c := by
  rw [scannedClasses] at hc
  split at hc
  · exact exists_isClassOf hc
  · cases hc

theorem isNamed_of_mem {marker : String} {sources : List (String × String)} {c : ReactiveClass}
    (hc : c ∈ scannedClasses known marker (fragmentsOf sources)) : IsNamed c := by
  obtain ⟨f, hf, hof⟩ := exists_fragment_of_mem hc
  obtain ⟨tokens, hread⟩ := exists_readIn hf
  rw [IsNamed, hof.name]
  exact hread.name

section

variable {marker suffix file : String}

/-- A batch of classes that are read makes an artifact for each class unless two of them clash,
and fails if two do. -/
theorem outcome_generate_fragmentsOf (sources : List (String × String))
    (hqualify : settings.qualifyNames.isTrue = true)
    (hsuffix : settings.artifactSuffix = .text suffix)
    (hmarker : settings.markerFullName = .text marker)
    (hfile : settings.markerArtifact = .text file) (hclash : ¬suffix.toList <:+ file.toList) :
    let classes := scannedClasses known marker (fragmentsOf sources)
    let outcome := (generate settings known (fragmentsOf sources) .never).outcome
    ((∀ c ∈ classes, ∀ d ∈ classes, ¬Clash c d) →
      outcome = .ok (markerArtifact settings :: classes.map (artifactOf settings))) ∧
    ((∃ c ∈ classes, ∃ d ∈ classes, Clash c d) → IsDuplicate outcome) := by
  intro classes outcome
  have hfresh : AllFresh settings [(.text file, marker)] classes ↔
      ∀ c ∈ classes, ∀ d ∈ classes, ¬Clash c d :=
    allFresh_iff hqualify hsuffix hclash (fun c hc => isNamed_of_mem hc)
      (pairwise_scannedClasses known marker (fragmentsOf sources))
  obtain ⟨hgood, hbad⟩ := @outcome_generate_never settings known marker file _ hmarker hfile
    name_ne_of_mem_fragmentsOf
  refine ⟨fun hnone => hgood (hfresh.mpr hnone), ?_⟩
  rintro ⟨c, hc, d, hd, hcd⟩
  exact hbad fun hall => hfresh.mp hall c hc d hd hcd

/-- A batch of classes that are read fails because of two equal names exactly when two distinct
types in one place have equal flat names, and makes an artifact for each class otherwise. -/
theorem isDuplicate_generate_iff (settings : Settings) (known : KnownTypes)
    (sources : List (String × String)) (hqualify : settings.qualifyNames.isTrue = true)
    (hsuffix : settings.artifactSuffix = .text suffix)
    (hmarker : settings.markerFullName = .text marker)
    (hfile : settings.markerArtifact = .text file) (hclash : ¬suffix.toList <:+ file.toList) :
    let classes := scannedClasses known marker (fragmentsOf sources)
    let outcome := (generate settings known (fragmentsOf sources) .never).outcome
    (IsDuplicate outcome ↔ ∃ c ∈ classes, ∃ d ∈ classes, Clash c d) ∧
      (¬IsDuplicate outcome → outcome =
        .ok (markerArtifact settings :: classes.map (artifactOf settings))) := by
  intro classes outcome
  obtain ⟨hgood, hbad⟩ := @outcome_generate_fragmentsOf settings known marker suffix file sources
    hqualify hsuffix hmarker hfile hclash
  by_cases hsome : ∃ c ∈ classes, ∃ d ∈ classes, Clash c d
  · have hduplicate : IsDuplicate outcome := hbad hsome
    exact ⟨iff_of_true hduplicate hsome, fun h => absurd hduplicate h⟩
  · have hok : outcome = .ok (markerArtifact settings :: classes.map (artifactOf settings)) :=
      hgood fun c hc d hd hcd => hsome ⟨c, hc, d, hd, hcd⟩
    have hno : ¬IsDuplicate outcome := by
      rintro ⟨name, owner, artifact, herror⟩
      rw [hok] at herror
      cases herror
    exact ⟨iff_of_false hno hsome, fun _ => hok⟩

/-- Two classes of one namespace whose artifacts would have one name. -/
def clashingSource : String :=
  "using ReactiveObject.Generators; namespace N \x7b " ++
    "class Box<T> \x7b [ReactiveProperty] int _a; \x7d " ++
    "class Box_T \x7b [ReactiveProperty] int _b; \x7d \x7d"

/-- The marker of the default settings is all that is known. -/
def markerOnly : KnownTypes :=
  KnownTypes.ofNames ["ReactiveObject.Generators.ReactivePropertyAttribute"]

/-- Type parameters are joined with an underscore, which a name may have too. -/
theorem generate_clashingSource :
    (generate {} markerOnly (fragmentsOf [(clashingSource, "")]) .never).outcome =
      .error (.duplicateArtifact "N.Box_T" "N.Box<T>" "N.Box_TReactiveProperty.g.cs") := by
  decide +kernel

theorem isDuplicate_generate_iff_clashingSource :
    ∃ c ∈ scannedClasses markerOnly "ReactiveObject.Generators.ReactivePropertyAttribute"
        (fragmentsOf [(clashingSource, "")]),
      ∃ d ∈ scannedClasses markerOnly "ReactiveObject.Generators.ReactivePropertyAttribute"
        (fragmentsOf [(clashingSource, "")]), Clash c d := by
  have hduplicate :
      IsDuplicate (generate {} markerOnly (fragmentsOf [(clashingSource, "")]) .never).outcome :=
    ⟨"N.Box_T", "N.Box<T>", "N.Box_TReactiveProperty.g.cs", by decide +kernel⟩
  exact (isDuplicate_generate_iff {} markerOnly [(clashingSource, "")] rfl rfl rfl rfl
    (by decide)).1.mp hduplicate

/-! ## Names without underscores -/

/-- Nothing in the name and the type parameters of a class hides which type it is: no underscore,
and the list of type parameters spelled in the plain way. -/
structure IsTidy (c : ReactiveClass) : Prop where
  name : '_' ∉ c.name.toList
  words : ∀ word ∈ Text.words c.typeParameters, '_' ∉ word.toList
  list : c.typeParameters = "" ∨ Text.words c.typeParameters ≠ [] ∧
    c.typeParameters = "<" ++ ", ".intercalate (Text.words c.typeParameters) ++ ">"

/-- The flat name of a tidy class tells its name and its type parameters. -/
theorem flatName_inj {c d : ReactiveClass} (hc : IsTidy c) (hd : IsTidy d)
    (h : flatName c = flatName d) : c.name = d.name ∧ c.typeParameters = d.typeParameters := by
  have hfree : ∀ c : ReactiveClass, IsTidy c →
      ∀ part ∈ c.name :: Text.words c.typeParameters, '_' ∉ part.toList := by
    intro c hc part hpart
    rcases List.mem_cons.mp hpart with rfl | hpart
    · exact hc.name
    · exact hc.words part hpart
  rw [flatName_eq, flatName_eq] at h
  have hparts := intercalate_inj (c := '_') rfl (List.cons_ne_nil _ _) (List.cons_ne_nil _ _)
    (hfree c hc) (hfree d hd) h
  obtain ⟨hname, hwords⟩ := List.cons.inj hparts
  refine ⟨hname, ?_⟩
  have hnone : Text.words "" = [] := rfl
  rcases hc.list with hc' | ⟨hcne, hc'⟩
  · rcases hd.list with hd' | ⟨hdne, -⟩
    · rw [hc', hd']
    · rw [hc', hnone] at hwords
      exact absurd hwords.symm hdne
  · rcases hd.list with hd' | ⟨-, hd'⟩
    · rw [hd', hnone] at hwords
      exact absurd hwords hcne
    · rw [hc', hd', hwords]

/-- The full name of a class that is read is its name with its list of type parameters, after
what is around it. -/
theorem fullName_eq_of_mem {sources : List (String × String)} {c : ReactiveClass}
    (hc : c ∈ scannedClasses known marker (fragmentsOf sources)) :
    c.fullName = qualifiedName (scopeName c) (c.name ++ c.typeParameters) := by
  obtain ⟨f, hf, hof⟩ := exists_fragment_of_mem hc
  obtain ⟨tokens, hread⟩ := exists_readIn hf
  rw [hof.fullName, f.fullName_eq hread.name.1, scopeName, hof.name, hof.space, hof.containers,
    hof.typeParameters]
  rfl

/-- A batch of tidy classes that are read never fails because of two equal names. -/
theorem generate_of_tidy (sources : List (String × String))
    (hqualify : settings.qualifyNames.isTrue = true)
    (hsuffix : settings.artifactSuffix = .text suffix)
    (hmarker : settings.markerFullName = .text marker)
    (hfile : settings.markerArtifact = .text file) (hclash : ¬suffix.toList <:+ file.toList)
    (htidy : ∀ c ∈ scannedClasses known marker (fragmentsOf sources), IsTidy c) :
    (generate settings known (fragmentsOf sources) .never).outcome =
      .ok (markerArtifact settings ::
        (scannedClasses known marker (fragmentsOf sources)).map (artifactOf settings)) := by
  refine (outcome_generate_fragmentsOf sources hqualify hsuffix hmarker hfile hclash).1 ?_
  rintro c hc d hd ⟨hfull, hscope, hflat⟩
  obtain ⟨hname, hlist⟩ := flatName_inj (htidy c hc) (htidy d hd) hflat
  apply hfull
  rw [fullName_eq_of_mem hc, fullName_eq_of_mem hd, hscope, hname, hlist]

end

end Batch

end Backfield
