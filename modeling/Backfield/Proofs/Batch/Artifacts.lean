import Backfield.Proofs.Batch.Cancellation
import Backfield.Proofs.Scan.Classes

/-!
# Artifacts of a batch

What a batch that nobody interrupts ends with.

* `outcome_artifactsFrom` says it of the loop over the classes: an artifact for each class, or a
  failure at the first class whose name is taken (`AllFresh` tells which).
* `outcome_generate_never` says it of a whole batch.
* `exists_isClassOf` and `pairwise_scannedClasses` tell what the classes of a batch are: classes
  of its fragments, no two of one full name.
-/

namespace Backfield

open Scan (reportsOf mem_reportsOf classOfReports? describedClasses resolve?_text)

namespace Batch

variable {settings : Settings} {known : KnownTypes}

/-! ## The loop over the classes -/

def artifactOf (settings : Settings) (c : ReactiveClass) : Artifact :=
  ⟨.text (artifactName settings c), Layout.render settings c⟩

/-- The names of the classes' artifacts differ from each other and from those taken. -/
def AllFresh (settings : Settings) (taken : Taken) (classes : List ReactiveClass) : Prop :=
  (classes.map (artifactName settings)).Nodup ∧
    ∀ c ∈ classes, taken.owner? (artifactName settings c) = none

/-- What a class takes: the name of its artifact. -/
def takenBy (settings : Settings) (c : ReactiveClass) : Value × String :=
  (.text (artifactName settings c), c.fullName)

/-- The class is the first whose name is taken: from the start, or by a class before it. -/
def ClashesFirst (settings : Settings) (taken : Taken) (classes : List ReactiveClass)
    (c : ReactiveClass) (owner : String) : Prop :=
  ∃ before after, classes = before ++ c :: after ∧ AllFresh settings taken before ∧
    Taken.owner? (taken ++ before.map (takenBy settings)) (artifactName settings c) = some owner

/-- The computation fails because two artifacts share a name. -/
def IsDuplicate {α : Type} (outcome : Except Error α) : Prop :=
  ∃ name owner artifact, outcome = .error (.duplicateArtifact name owner artifact)

theorem owner?_concat (taken : Taken) (taker full name : String) :
    Taken.owner? (taken ++ [(.text taker, full)]) name =
      (taken.owner? name).or (if taker = name then some full else none) := by
  rw [Taken.owner?, Taken.owner?, List.find?_append, Option.map_or]
  congr 1
  by_cases hname : taker = name
  · simp [hname]
  · simp [hname]

theorem allFresh_cons (taken : Taken) (c : ReactiveClass) (rest : List ReactiveClass)
    (hc : taken.owner? (artifactName settings c) = none) :
    AllFresh settings (taken ++ [takenBy settings c]) rest ↔
      AllFresh settings taken (c :: rest) := by
  unfold AllFresh takenBy
  rw [List.map_cons, List.nodup_cons, List.forall_mem_cons]
  constructor
  · rintro ⟨hnodup, hfresh⟩
    refine ⟨⟨fun hmem => ?_, hnodup⟩, hc, fun d hd => ?_⟩
    · obtain ⟨d, hd, hsame⟩ := List.mem_map.mp hmem
      have howner := hfresh d hd
      rw [owner?_concat, if_pos hsame.symm] at howner
      simp at howner
    · have howner := hfresh d hd
      rw [owner?_concat] at howner
      exact (Option.or_eq_none_iff.mp howner).1
  · rintro ⟨⟨hnew, hnodup⟩, -, hfresh⟩
    refine ⟨hnodup, fun d hd => ?_⟩
    have hne : ¬artifactName settings c = artifactName settings d :=
      fun hsame => hnew (hsame ▸ List.mem_map_of_mem hd)
    rw [owner?_concat, hfresh d hd, if_neg hne]
    rfl

/-- The first clash behind a class that takes a new name is the first of them all. -/
theorem ClashesFirst.cons {taken : Taken} {c d : ReactiveClass} {rest : List ReactiveClass}
    {owner : String} (hc : taken.owner? (artifactName settings c) = none)
    (h : ClashesFirst settings (taken ++ [takenBy settings c]) rest d owner) :
    ClashesFirst settings taken (c :: rest) d owner := by
  obtain ⟨before, after, rfl, hfresh, howner⟩ := h
  refine ⟨c :: before, after, rfl, (allFresh_cons taken c before hc).mp hfresh, ?_⟩
  rwa [List.append_assoc] at howner

/-- One turn of the loop, for a class whose name is free. -/
theorem outcome_artifactsFrom_cons {taken : Taken} {c : ReactiveClass}
    (hc : taken.owner? (artifactName settings c) = none) (rest : List ReactiveClass) :
    (artifactsFrom settings taken (c :: rest)).outcome =
      ((artifactsFrom settings (taken ++ [takenBy settings c]) rest).outcome).map
        (artifactOf settings c :: ·) := by
  simp only [artifactsFrom, Traced.outcome_bind, Traced.outcome_checkpoint, Except.bind, hc,
    Traced.outcome_emit, Traced.outcome_log, Traced.outcome_pure, takenBy]
  cases (artifactsFrom settings _ rest).outcome with
  | error e => rfl
  | ok others => rfl

/-- The loop ends with an artifact for each class, or at the first class whose name is taken. -/
theorem outcome_artifactsFrom (taken : Taken) (classes : List ReactiveClass) :
    (AllFresh settings taken classes →
      (artifactsFrom settings taken classes).outcome = .ok (classes.map (artifactOf settings))) ∧
    (¬AllFresh settings taken classes → ∃ c owner, ClashesFirst settings taken classes c owner ∧
      (artifactsFrom settings taken classes).outcome =
        .error (.duplicateArtifact c.fullName owner (artifactName settings c))) := by
  have hnone : ∀ taken, AllFresh settings taken [] :=
    fun _ => ⟨List.nodup_nil, fun _ h => by cases h⟩
  induction classes generalizing taken with
  | nil => exact ⟨fun _ => rfl, fun h => absurd (hnone taken) h⟩
  | cons c rest ih =>
    cases howner : taken.owner? (artifactName settings c) with
    | some owner =>
      have hnot : ¬AllFresh settings taken (c :: rest) := by
        intro hfresh
        rw [hfresh.2 c List.mem_cons_self] at howner
        cases howner
      refine ⟨fun h => absurd h hnot, fun _ => ⟨c, owner, ?_, ?_⟩⟩
      · refine ⟨[], rest, rfl, hnone taken, ?_⟩
        rwa [List.map_nil, List.append_nil]
      · simp only [artifactsFrom, Traced.outcome_bind, Traced.outcome_checkpoint, Except.bind,
          howner, Traced.outcome_fail]
    | none =>
      have hrest := ih (taken ++ [takenBy settings c])
      rw [allFresh_cons taken c rest howner] at hrest
      rw [outcome_artifactsFrom_cons howner]
      refine ⟨fun hfresh => ?_, fun hnot => ?_⟩
      · rw [hrest.1 hfresh]
        rfl
      · obtain ⟨d, owner, hfirst, herror⟩ := hrest.2 hnot
        rw [herror]
        exact ⟨d, owner, hfirst.cons howner, rfl⟩

theorem artifactsFrom_eq_ok {taken : Taken} {classes : List ReactiveClass}
    {artifacts : List Artifact}
    (h : (artifactsFrom settings taken classes).outcome = .ok artifacts) :
    AllFresh settings taken classes ∧ artifacts = classes.map (artifactOf settings) := by
  obtain ⟨hfresh, hnot⟩ := @outcome_artifactsFrom settings taken classes
  by_cases hall : AllFresh settings taken classes
  · rw [hfresh hall] at h
    exact ⟨hall, (Except.ok.inj h).symm⟩
  · obtain ⟨c, owner, -, herror⟩ := hnot hall
    rw [herror] at h
    cases h

/-- Fewer classes leave more names free. -/
theorem AllFresh.sublist {taken : Taken} {classes fewer : List ReactiveClass}
    (h : AllFresh settings taken classes) (hfewer : fewer.Sublist classes) :
    AllFresh settings taken fewer :=
  ⟨h.1.sublist (hfewer.map _), fun c hc => h.2 c (hfewer.subset hc)⟩

/-! ## Whole batches -/

/-- The classes that a scan finds: without the marker there are none. -/
def scannedClasses (known : KnownTypes) (marker : String) (fragments : List Fragment) :
    List ReactiveClass :=
  if marker ∈ known.names then describedClasses known marker fragments else []

theorem outcome_scan {marker : String} {fragments : List Fragment}
    (hmarker : settings.markerFullName = .text marker)
    (hfields : ∀ f ∈ fragments, ∀ field ∈ f.fields, field.name ≠ "") :
    (Scan.scan settings known fragments).outcome =
      .ok (scannedClasses known marker fragments) := by
  have hgroups : ∀ g ∈ Scan.group fragments, ∀ f ∈ g.fragments, ∀ field ∈ f.fields,
      field.name ≠ "" := fun g hg f hf => hfields f (Scan.mem_of_mem_group hg hf)
  have hclasses : (Scan.classesOf known (.text marker) (Scan.group fragments)).outcome =
      .ok (describedClasses known marker fragments) := by
    rw [Scan.outcome_classesOf _ hgroups, Scan.filterMap_group]
  rw [Scan.scan, hmarker, Traced.outcome_bind, Traced.outcome_lift, scannedClasses, resolve?_text]
  by_cases hknown : marker ∈ known.names
  · simp only [if_pos hknown, Except.bind, hclasses]
  · simp only [if_neg hknown, Except.bind]
    rfl

/-- What a batch makes of the classes that its scan finds. -/
def artifactsOf (settings : Settings) (classes : List ReactiveClass) :
    Except Error (List Artifact) :=
  (KnownTypes.checkName settings.markerArtifact).bind fun _ =>
    (artifactsFrom settings [(settings.markerArtifact, settings.markerFullName.display)]
      classes).outcome.map (markerArtifact settings :: ·)

/-- A batch that nobody interrupts depends on its fragments through the scan alone. -/
theorem outcome_generate_eq (settings : Settings) (known : KnownTypes) (fragments : List Fragment) :
    (generate settings known fragments .never).outcome =
      (Scan.scan settings known fragments).outcome.bind (artifactsOf settings) := by
  rw [generate, outcome_noteCancelled, Traced.interrupt_never]
  simp only [run, Traced.outcome_bind, Traced.outcome_checkpoint, Traced.outcome_lift, Except.bind]
  cases (Scan.scan settings known fragments).outcome with
  | error e => rfl
  | ok classes =>
    simp only [artifactsOf, Except.bind]
    cases KnownTypes.checkName settings.markerArtifact with
    | error e => rfl
    | ok _ => cases (artifactsFrom settings _ classes).outcome <;> rfl

/-- A batch that nobody interrupts is the loop over the classes that the scan finds, after the
marker has taken its name. -/
theorem outcome_generate_artifactsFrom {marker file : String} {fragments : List Fragment}
    (hmarker : settings.markerFullName = .text marker)
    (hfile : settings.markerArtifact = .text file)
    (hfields : ∀ f ∈ fragments, ∀ field ∈ f.fields, field.name ≠ "") :
    (generate settings known fragments .never).outcome =
      (artifactsFrom settings [(.text file, marker)]
        (scannedClasses known marker fragments)).outcome.map (markerArtifact settings :: ·) := by
  rw [outcome_generate_eq, outcome_scan hmarker hfields, Except.bind, artifactsOf, hfile, hmarker]
  rfl

/-- A batch that nobody interrupts makes the marker's artifact and one for each class that the
scan finds, unless two names are equal. -/
theorem outcome_generate_never {marker file : String} {fragments : List Fragment}
    (hmarker : settings.markerFullName = .text marker)
    (hfile : settings.markerArtifact = .text file)
    (hfields : ∀ f ∈ fragments, ∀ field ∈ f.fields, field.name ≠ "") :
    let classes := scannedClasses known marker fragments
    (AllFresh settings [(.text file, marker)] classes →
      (generate settings known fragments .never).outcome =
        .ok (markerArtifact settings :: classes.map (artifactOf settings))) ∧
    (¬AllFresh settings [(.text file, marker)] classes →
      IsDuplicate (generate settings known fragments .never).outcome) := by
  intro classes
  have hloop := @outcome_artifactsFrom settings [(.text file, marker)] classes
  rw [outcome_generate_artifactsFrom hmarker hfile hfields]
  refine ⟨fun hfresh => ?_, fun hnot => ?_⟩
  · rw [hloop.1 hfresh]
    rfl
  · obtain ⟨c, owner, -, herror⟩ := hloop.2 hnot
    rw [herror]
    exact ⟨c.fullName, owner, artifactName settings c, rfl⟩

/-- If a batch succeeds for some classes, it succeeds for fewer, with the same artifact for each. -/
theorem artifactsOf_sublist {classes fewer : List ReactiveClass} {artifacts : List Artifact}
    (h : artifactsOf settings classes = .ok artifacts) (hfewer : fewer.Sublist classes) :
    artifacts = markerArtifact settings :: classes.map (artifactOf settings) ∧
      artifactsOf settings fewer =
        .ok (markerArtifact settings :: fewer.map (artifactOf settings)) := by
  unfold artifactsOf at h ⊢
  obtain ⟨_, hname, hmap⟩ := exists_of_bind_eq_ok h
  obtain ⟨others, hloop, rfl⟩ := exists_of_map_eq_ok hmap
  obtain ⟨hfresh, rfl⟩ := artifactsFrom_eq_ok hloop
  rw [hname, Except.bind, (outcome_artifactsFrom _ _).1 (hfresh.sublist hfewer)]
  exact ⟨rfl, rfl⟩

/-- A batch that succeeds, interrupted or not, has an artifact for the marker and one for each class
that its scan finds, and their names are fresh. -/
theorem exists_classes_of_generate {fragments : List Fragment} {moment : Moment}
    {artifacts : List Artifact}
    (h : (generate settings known fragments moment).outcome = .ok artifacts) :
    ∃ classes, (Scan.scan settings known fragments).outcome = .ok classes ∧
      AllFresh settings [(settings.markerArtifact, settings.markerFullName.display)] classes ∧
      artifacts = markerArtifact settings :: classes.map (artifactOf settings) := by
  have hnever : (generate settings known fragments .never).outcome = .ok artifacts := by
    rw [generate, outcome_noteCancelled, Traced.outcome_interrupt] at h
    rw [generate, outcome_noteCancelled, Traced.interrupt_never]
    split at h
    · cases h
    · exact h
  rw [outcome_generate_eq] at hnever
  obtain ⟨classes, hscan, hmade⟩ := exists_of_bind_eq_ok hnever
  obtain ⟨_, -, hmap⟩ := exists_of_bind_eq_ok hmade
  obtain ⟨others, hloop, rfl⟩ := exists_of_map_eq_ok hmap
  obtain ⟨hfresh, rfl⟩ := artifactsFrom_eq_ok hloop
  exact ⟨classes, hscan, hfresh, rfl⟩

/-- No two artifacts of a batch share a name. -/
theorem pairwise_name_of_generate {fragments : List Fragment} {moment : Moment}
    {artifacts : List Artifact}
    (h : (generate settings known fragments moment).outcome = .ok artifacts) :
    artifacts.Pairwise fun a b => a.name ≠ b.name := by
  obtain ⟨classes, -, ⟨hnodup, hfresh⟩, rfl⟩ := exists_classes_of_generate h
  refine List.pairwise_cons.mpr ⟨fun a ha hsame => ?_, ?_⟩
  · obtain ⟨c, hc, rfl⟩ := List.mem_map.mp ha
    have howner := hfresh c hc
    rw [Taken.owner?, Option.map_eq_none_iff, List.find?_eq_none] at howner
    refine howner _ List.mem_cons_self ?_
    simpa [markerArtifact, artifactOf] using hsame
  · rw [List.pairwise_map]
    refine (List.pairwise_map.mp hnodup).imp fun hne hsame => hne ?_
    exact Value.text.inj hsame

/-! ## Described classes -/

/-- The class is that of the fragment. -/
structure IsClassOf (f : Fragment) (c : ReactiveClass) : Prop where
  name : c.name = f.name
  space : c.space = f.space
  containers : c.containers = f.containers
  typeParameters : c.typeParameters = f.typeParameters
  fullName : c.fullName = f.fullName

theorem isClassOf_classOfReports? {marker : String} {reports : List Fragment} {c : ReactiveClass}
    (h : classOfReports? known marker reports = some c) : ∃ f ∈ reports, IsClassOf f c := by
  cases reports with
  | nil => cases h
  | cons first more =>
    rw [classOfReports?] at h
    split at h
    · cases h
    · cases h
      exact ⟨first, List.mem_cons_self, rfl, rfl, rfl, rfl, rfl⟩

/-- A described class is the class of a fragment. -/
theorem exists_isClassOf {marker : String} {fragments : List Fragment} {c : ReactiveClass}
    (h : c ∈ describedClasses known marker fragments) : ∃ f ∈ fragments, IsClassOf f c := by
  obtain ⟨name, -, hclass⟩ := List.mem_filterMap.mp h
  obtain ⟨f, hf, hof⟩ := isClassOf_classOfReports? hclass
  exact ⟨f, (mem_reportsOf hf).1, hof⟩

/-- No two described classes have one full name. -/
theorem pairwise_describedClasses (known : KnownTypes) (marker : String)
    (fragments : List Fragment) :
    (describedClasses known marker fragments).Pairwise fun c d => c.fullName ≠ d.fullName := by
  have hname : ∀ name c, classOfReports? known marker (reportsOf name fragments) = some c →
      c.fullName = name := by
    intro name c h
    obtain ⟨f, hf, hof⟩ := isClassOf_classOfReports? h
    exact hof.fullName.trans (mem_reportsOf hf).2
  refine List.Pairwise.filterMap _ ?_ (Scan.nodup_eraseDups (fragments.map Fragment.fullName))
  intro name name' hne c hc d hd
  rwa [hname name c hc, hname name' d hd]

theorem pairwise_scannedClasses (known : KnownTypes) (marker : String)
    (fragments : List Fragment) :
    (scannedClasses known marker fragments).Pairwise fun c d => c.fullName ≠ d.fullName := by
  rw [scannedClasses]
  split
  · exact pairwise_describedClasses known marker fragments
  · exact List.Pairwise.nil

end Batch

end Backfield
