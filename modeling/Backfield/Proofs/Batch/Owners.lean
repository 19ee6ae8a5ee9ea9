import Backfield.Proofs.Batch.Names

/-!
# Owners of names

Each artifact of a batch takes a name, and the batch fails at the first class whose name is taken.
Here that is said of the list of all names, without the table that the loop keeps.

* `allFresh_iff_nodup` says when the classes' names are all free: when no name is repeated among
  them and the marker's.
* `mem_owners_iff` tells who owns a name that the loop finds taken.
* `generate_or_first_clash` is the result for whole batches.
-/

namespace Backfield

namespace Batch

variable {settings : Settings} {marker file : String}

/-- The names of the artifacts of a batch, the marker's first. -/
def artifactNames (settings : Settings) (file : String) (classes : List ReactiveClass) :
    List String :=
  file :: classes.map (artifactName settings)

/-- The names of the artifacts of a batch, each beside the full name of its type. -/
def owners (settings : Settings) (file marker : String) (classes : List ReactiveClass) :
    List (String × String) :=
  (file, marker) :: classes.map fun c => (artifactName settings c, c.fullName)

theorem map_fst_owners (classes : List ReactiveClass) :
    (owners settings file marker classes).map Prod.fst = artifactNames settings file classes := by
  simp [owners, artifactNames, Function.comp_def]

/-- Once the marker has taken its name, those of the classes are free if no name is repeated. -/
theorem allFresh_iff_nodup (classes : List ReactiveClass) :
    AllFresh settings [(.text file, marker)] classes ↔
      (artifactNames settings file classes).Nodup := by
  have howner : ∀ name, Taken.owner? [(.text file, marker)] name = none ↔ file ≠ name := by
    intro name
    simp [Taken.owner?]
  unfold AllFresh artifactNames
  simp only [howner]
  rw [List.nodup_cons, and_comm, List.forall_mem_map.symm]
  exact and_congr_left' ⟨fun h hmem => h file hmem rfl, fun h name hname heq => h (heq ▸ hname)⟩

/-- The table that the loop keeps lists the owners of the names so far. -/
theorem mem_owners_of_owner? {classes : List ReactiveClass} {name owner : String}
    (h : Taken.owner? ([(.text file, marker)] ++ classes.map (takenBy settings)) name =
      some owner) :
    (name, owner) ∈ owners settings file marker classes := by
  obtain ⟨⟨key, full⟩, hfind, rfl⟩ := Option.map_eq_some_iff.mp h
  have hkey : key = .text name := by simpa using List.find?_some hfind
  have hmem := List.mem_of_find?_eq_some hfind
  rw [hkey, List.singleton_append, List.mem_cons, List.mem_map] at hmem
  rcases hmem with hentry | ⟨c, hc, hentry⟩
  · obtain ⟨hname, hfull⟩ := Prod.mk.inj hentry
    rw [Value.text.inj hname, hfull]
    exact List.mem_cons_self
  · obtain ⟨hname, hfull⟩ := Prod.mk.inj hentry
    rw [← Value.text.inj hname, ← hfull]
    exact List.mem_cons_of_mem _ (List.mem_map.mpr ⟨c, hc, rfl⟩)

/-- Where no name is repeated, a name that is taken has one owner. -/
theorem mem_owners_iff {classes : List ReactiveClass} {name owner : String}
    (hnodup : (artifactNames settings file classes).Nodup)
    (h : Taken.owner? ([(.text file, marker)] ++ classes.map (takenBy settings)) name =
      some owner) (other : String) :
    (name, other) ∈ owners settings file marker classes ↔ other = owner := by
  have howner := mem_owners_of_owner? h
  constructor
  · intro hother
    rw [← @map_fst_owners settings marker file classes] at hnodup
    exact congrArg Prod.snd (List.inj_on_of_nodup_map hnodup hother howner rfl)
  · rintro rfl
    exact howner

/-- A batch that nobody interrupts consists of the marker's artifact, in which the classes have no
part, and of one artifact for each class that the scan finds, in that order, if no two of their
names are equal.

Otherwise it fails at the first class whose name is taken, and the message tells the two types that
want the name: the class, and the marker or the earlier class that has it. -/
theorem generate_or_first_clash (settings : Settings) (known : KnownTypes)
    (fragments : List Fragment) (hmarker : settings.markerFullName = .text marker)
    (hfile : settings.markerArtifact = .text file)
    (hfields : ∀ f ∈ fragments, ∀ field ∈ f.fields, field.name ≠ "") :
    ∃ classes, (Scan.scan settings known fragments).outcome = .ok classes ∧
      let outcome := (generate settings known fragments .never).outcome
      ((artifactNames settings file classes).Nodup →
        outcome = .ok (⟨.text file, Layout.renderMarker settings⟩ ::
          classes.map fun c => ⟨.text (artifactName settings c), Layout.render settings c⟩)) ∧
      (¬(artifactNames settings file classes).Nodup → ∃ before c after owner,
        classes = before ++ c :: after ∧ (artifactNames settings file before).Nodup ∧
        (∀ other, (artifactName settings c, other) ∈ owners settings file marker before ↔
          other = owner) ∧
        let clash := Error.duplicateArtifact c.fullName owner (artifactName settings c)
        outcome = .error clash ∧ clash.message =
          c.fullName ++ " and " ++ owner ++ " both generate " ++ artifactName settings c) := by
  refine ⟨_, outcome_scan hmarker hfields, ?_⟩
  obtain ⟨hall, hfirst⟩ := @outcome_artifactsFrom settings [(.text file, marker)]
    (scannedClasses known marker fragments)
  rw [allFresh_iff_nodup] at hall hfirst
  rw [outcome_generate_artifactsFrom hmarker hfile hfields]
  refine ⟨fun hnodup => ?_, fun hrepeats => ?_⟩
  · rw [hall hnodup, ← hfile]
    rfl
  · obtain ⟨c, owner, ⟨before, after, hsplit, hfresh, howner⟩, herror⟩ := hfirst hrepeats
    rw [allFresh_iff_nodup] at hfresh
    rw [herror]
    exact ⟨before, c, after, owner, hsplit, hfresh, mem_owners_iff hfresh howner, rfl, rfl⟩

/-- The artifact of a class would have the name of the marker's. -/
theorem generate_or_first_clash_marker :
    let marker := "ReactiveObject.Generators.ReactivePropertyAttribute"
    let settings : Settings := {
      artifactSuffix := .text "Attribute.g.cs"
      markerArtifact := .text "CarAttribute.g.cs" }
    let car : Fragment :=
      { name := "Car", fields := [⟨"_speed", some "int", ["global::" ++ marker]⟩] }
    (∀ f ∈ [car], ∀ field ∈ f.fields, field.name ≠ "") ∧
      (generate settings markerOnly [car] .never).outcome =
        .error (.duplicateArtifact "Car" marker "CarAttribute.g.cs") := by
  intro marker settings car
  have hfields : ∀ f ∈ [car], ∀ field ∈ f.fields, field.name ≠ "" := by decide
  refine ⟨hfields, ?_⟩
  let carClass : ReactiveClass := {
    name := "Car"
    space := ""
    fullName := "Car"
    accessibility := .isInternal
    properties := [⟨"_speed", "Speed", .isInternal, "int"⟩] }
  have hscan : (Scan.scan settings markerOnly [car]).outcome = .ok [carClass] := by
    decide +kernel
  have hrepeats : ¬(artifactNames settings "CarAttribute.g.cs" [carClass]).Nodup := by
    decide +kernel
  obtain ⟨classes, hclasses, -, hclash⟩ :=
    generate_or_first_clash settings markerOnly [car] rfl rfl hfields
  obtain rfl := Except.ok.inj (hscan.symm.trans hclasses)
  obtain ⟨before, c, after, owner, hsplit, -, howner, herror, -⟩ := hclash hrepeats
  cases before with
  | nil =>
    obtain ⟨rfl, -⟩ := List.cons.inj hsplit
    have hmarker : marker = owner := (howner marker).mp List.mem_cons_self
    rw [herror, ← hmarker]
    rfl
  | cons first before =>
    obtain ⟨-, hnil⟩ := List.cons.inj hsplit
    exact absurd hnil (by simp)

end Batch

end Backfield
