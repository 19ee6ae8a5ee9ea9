import Backfield.Proofs.Batch.Artifacts
import Backfield.Proofs.Scan.Outcomes

/-!
# Classes do not affect each other

What a batch makes of a class depends on the fragments of that class alone, whatever stands
between them.

* `ofClass` selects the fragments of one full name.  A list and its selection have the same
  reports of the class (`reportsOf_ofClass`), so they describe it alike (`outcome_scan_ofClass`).
* `scan_eq_inTurn` is the result: a scan is the scans of the classes, one after the other, and a
  batch that succeeds has the artifacts that the batches of the classes make alone.
-/

namespace Backfield

open Scan (classNames reportsOf describe describeIn inTurn inTurn_nil inTurn_cons inTurn_congr
  foundFor inTurn_of_eq_ok resolve?_text)

namespace Batch

variable {settings : Settings} {known : KnownTypes}

/-! ## The fragments of one class -/

/-- The fragments of one full name, in order. -/
def ofClass (name : String) (fragments : List Fragment) : List Fragment :=
  fragments.filter fun f => f.fullName == name

theorem classNames_ofClass {name : String} {fragments : List Fragment}
    (h : name ∈ classNames fragments) : classNames (ofClass name fragments) = [name] := by
  have hmem : ∀ other, other ∈ classNames (ofClass name fragments) ↔ other = name := by
    intro other
    rw [classNames, List.mem_eraseDups, List.mem_map]
    constructor
    · rintro ⟨f, hf, rfl⟩
      exact beq_iff_eq.mp (List.mem_filter.mp hf).2
    · rintro rfl
      rw [classNames, List.mem_eraseDups] at h
      obtain ⟨f, hf, hname⟩ := List.mem_map.mp h
      exact ⟨f, List.mem_filter.mpr ⟨hf, beq_iff_eq.mpr hname⟩, hname⟩
  have hnodup : (classNames (ofClass name fragments)).Nodup := Scan.nodup_eraseDups _
  have hperm : (classNames (ofClass name fragments)).Perm [name] := by
    rw [List.perm_ext_iff_of_nodup hnodup (List.nodup_singleton name)]
    intro other
    rw [hmem, List.mem_singleton]
  exact List.perm_singleton.mp hperm

/-- Selecting the fragments of a class loses none of its reports. -/
theorem reportsOf_ofClass (name : String) (fragments : List Fragment) :
    reportsOf name (ofClass name fragments) = reportsOf name fragments := by
  rw [reportsOf, ofClass, List.filter_filter, reportsOf]
  simp only [Bool.and_self]

/-! ## Scans of one class -/

/-- A scan of the fragments of one class describes that class as it is described among all. -/
theorem outcome_scan_ofClass {marker name : String} {fragments : List Fragment}
    (hmarker : settings.markerFullName = .text marker) (hname : name ∈ classNames fragments) :
    (Scan.scan settings known (ofClass name fragments)).outcome =
      if marker ∈ known.names then describeIn known (.text marker) fragments name else .ok [] := by
  rw [Scan.outcome_scan_eq, hmarker, resolve?_text, classNames_ofClass hname, Except.bind]
  by_cases hknown : marker ∈ known.names
  · simp only [if_pos hknown, inTurn_cons, inTurn_nil, describeIn, reportsOf_ofClass]
    cases describe known (.text marker) (reportsOf name fragments) with
    | error e => rfl
    | ok found => exact congrArg Except.ok (List.append_nil _)
  · simp only [if_neg hknown]

/-- One class is described, if any. -/
theorem found_ofClass {marker name : String} {fragments : List Fragment}
    {classes : List ReactiveClass} (hmarker : settings.markerFullName = .text marker)
    (hname : name ∈ classNames fragments)
    (h : (Scan.scan settings known (ofClass name fragments)).outcome = .ok classes) :
    classes = classes.head?.toList := by
  rw [outcome_scan_ofClass hmarker hname, describeIn] at h
  split at h
  · cases hdescribe : describe known (.text marker) (reportsOf name fragments) with
    | error e =>
      rw [hdescribe] at h
      cases h
    | ok found =>
      rw [hdescribe] at h
      cases h
      cases found <;> rfl
  · cases h
    rfl

theorem inTurn_nothing {α : Type} (names : List String) :
    inTurn (fun _ => .ok ([] : List α)) names = .ok [] := by
  induction names with
  | nil => rfl
  | cons name rest ih =>
    rw [inTurn_cons, ih]
    rfl

/-- A scan is the scans of the classes in order of first appearance. -/
theorem outcome_scan_inTurn {marker : String} (known : KnownTypes) (fragments : List Fragment)
    (hmarker : settings.markerFullName = .text marker) :
    (Scan.scan settings known fragments).outcome =
      inTurn (fun name => (Scan.scan settings known (ofClass name fragments)).outcome)
        (classNames fragments) := by
  rw [inTurn_congr fun name hname => outcome_scan_ofClass hmarker hname, Scan.outcome_scan_eq,
    hmarker, resolve?_text, Except.bind]
  by_cases hknown : marker ∈ known.names
  · simp only [if_pos hknown]
  · simp only [if_neg hknown, inTurn_nothing]

/-! ## Batches of one class -/

/-- A scan is the scans of the fragments of each class, in order of first appearance, and ends
with the first failure of these.  Each artifact of a batch that succeeds is the one that a batch
of the fragments of its class alone makes beside the marker's, and if a class has none in the one
batch, it has none in the other. -/
theorem scan_eq_inTurn (settings : Settings) (known : KnownTypes) (fragments : List Fragment)
    {marker : String} (hmarker : settings.markerFullName = .text marker) :
    (Scan.scan settings known fragments).outcome =
      inTurn (fun name => (Scan.scan settings known (ofClass name fragments)).outcome)
        (classNames fragments) ∧
    ∀ artifacts, (generate settings known fragments .never).outcome = .ok artifacts →
      ∃ own : String → Option Artifact,
        artifacts = markerArtifact settings :: (classNames fragments).filterMap own ∧
        ∀ name ∈ classNames fragments,
          (generate settings known (ofClass name fragments) .never).outcome =
            .ok (markerArtifact settings :: (own name).toList) := by
  refine ⟨outcome_scan_inTurn known fragments hmarker, fun artifacts hgenerate => ?_⟩
  rw [outcome_generate_eq, outcome_scan_inTurn known fragments hmarker] at hgenerate
  let find := fun name => (Scan.scan settings known (ofClass name fragments)).outcome
  obtain ⟨classes, hturn, hmade⟩ := exists_of_bind_eq_ok hgenerate
  obtain ⟨hfound, hclasses⟩ := inTurn_of_eq_ok hturn
  let own := fun name => (foundFor find name).head?.map (artifactOf settings)
  -- Each class is described by one artifact at most, so the list of them is an option.
  have hown : ∀ name ∈ classNames fragments,
      (foundFor find name).map (artifactOf settings) = (own name).toList := by
    intro name hname
    have hone := found_ofClass hmarker hname (hfound name hname)
    calc (foundFor find name).map (artifactOf settings)
        = (foundFor find name).head?.toList.map (artifactOf settings) := by rw [← hone]
      _ = (own name).toList := Option.toList_map.symm
  refine ⟨own, ?_, fun name hname => ?_⟩
  · rw [(artifactsOf_sublist hmade (List.Sublist.refl _)).1, hclasses, List.map_flatMap,
      List.flatMap_congr hown, List.filterMap_eq_flatMap_toList]
  · have hsublist : (foundFor find name).Sublist classes := by
      rw [hclasses, List.flatMap_def]
      exact List.sublist_flatten_of_mem (List.mem_map_of_mem hname)
    have halone : (Scan.scan settings known (ofClass name fragments)).outcome =
        .ok (foundFor find name) := hfound name hname
    rw [outcome_generate_eq, halone, ← hown name hname]
    exact (artifactsOf_sublist hmade hsublist).2

/-- Fragments of two classes, one between those of the other. -/
theorem scan_eq_inTurn_interleaved :
    let mark := "ReactiveObject.Generators.ReactiveProperty"
    let first : Fragment := {
      name := "Car"
      accessibility := some .isPublic
      fields := [⟨"_speed", some "int", [mark]⟩] }
    let between : Fragment := {
      name := "Boat"
      fields := [⟨"_speed", some "long", [mark]⟩, ⟨"_name", some "string", []⟩] }
    let second : Fragment := {
      name := "Car"
      fields := [⟨"_owner", some "string", [mark]⟩] }
    let known := KnownTypes.ofNames ["ReactiveObject.Generators.ReactivePropertyAttribute"]
    ({} : Settings).markerFullName =
        .text "ReactiveObject.Generators.ReactivePropertyAttribute" ∧
      (Scan.scan {} known [first, between, second]).outcome =
        inTurn (fun name => (Scan.scan {} known (ofClass name [first, between, second])).outcome)
          ["Car", "Boat"] := by
  intro mark first between second known
  have hnames : classNames [first, between, second] = ["Car", "Boat"] := by decide +kernel
  refine ⟨rfl, ?_⟩
  rw [← hnames]
  exact (scan_eq_inTurn {} known [first, between, second] rfl).1

end Batch

end Backfield
