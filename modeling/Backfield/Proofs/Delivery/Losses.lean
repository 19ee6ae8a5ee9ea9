import Mathlib.Data.List.Pairwise
import Backfield.Proofs.Batch.Artifacts
import Backfield.Proofs.Delivery.Completion
import Backfield.Proofs.Disk.FileNames

/-!
# Artifacts that are lost

The names of a batch are told apart as texts, but they are written to the places that they lead to
as paths.  Where two of them lead to one place, the later artifact takes the place of the earlier
one, also in a delivery that must not overwrite anything.

* `AreApart` says that artifacts have places of their own, which they have if their names are plain,
  and `AreApart.holds` that none is lost then.
* `holds_iff_of_deliver` says that a delivery loses no artifact exactly when artifacts of one place
  have one text.  The artifacts of a batch whose names are plain have places of their own.
* `marker_lost` is a batch in which the marker's artifact is lost.
-/

namespace Backfield.Delivery

variable {disk disk' : Disk} {cwd : Key} {directory : Path} {artifacts : List Artifact}

/-- The file in which an artifact is delivered. -/
def fileOf (directory : Path) (a : Artifact) : Path × String := (pathOf directory a, a.text)

theorem mem_filesOf {file : Path × String} :
    file ∈ filesOf directory artifacts ↔ ∃ a ∈ artifacts, fileOf directory a = file :=
  List.mem_map

/-- Artifacts with different plain names are not written to one place. -/
theorem not_samePlace_of_isPlain {a b : Artifact}
    (hleaves : Leaves disk disk' cwd (filesOf directory artifacts)) (ha : a ∈ artifacts)
    (hnamed : IsNamed a ∧ IsNamed b) (hname : a.name ≠ b.name)
    (hplain : Path.IsPlain a.name.display ∧ Path.IsPlain b.name.display) :
    ¬SamePlace disk' cwd (fileOf directory a) (fileOf directory b) := by
  intro hsame
  obtain ⟨before, after, heq⟩ := List.append_of_mem (mem_filesOf.mpr ⟨a, ha, rfl⟩)
  obtain ⟨key, hlocate, -⟩ := hleaves.placed before _ after heq
  have hlocate' : disk'.locate cwd (pathOf directory b) = .ok key := hsame.symm.trans hlocate
  have hdisplay := Disk.eq_of_locate_of_isPlain hplain.1 hplain.2 hlocate hlocate'
  obtain ⟨⟨name, hnamea⟩, ⟨name', hnameb⟩⟩ := hnamed
  rw [hnamea, hnameb] at hdisplay
  apply hname
  rw [hnamea, hnameb, show name = name' from hdisplay]

/-- Every artifact is there exactly when artifacts of one place have one text. -/
theorem forall_holds_iff (hleaves : Leaves disk disk' cwd (filesOf directory artifacts)) :
    (∀ a ∈ artifacts, Holds disk' cwd (fileOf directory a)) ↔
      ∀ a ∈ artifacts, ∀ b ∈ artifacts,
        SamePlace disk' cwd (fileOf directory a) (fileOf directory b) → a.text = b.text := by
  have hfiles := hleaves.holds_iff
  simp only [mem_filesOf, forall_exists_index, and_imp, forall_apply_eq_imp_iff₂] at hfiles
  exact hfiles

/-- No two of the artifacts have one place. -/
def AreApart (disk : Disk) (cwd : Key) (directory : Path) (artifacts : List Artifact) : Prop :=
  artifacts.Pairwise fun a b => ¬SamePlace disk cwd (fileOf directory a) (fileOf directory b)

/-- Artifacts with different plain names have places of their own. -/
theorem areApart_of_isPlain (hleaves : Leaves disk disk' cwd (filesOf directory artifacts))
    (hnamed : ∀ a ∈ artifacts, IsNamed a)
    (hnames : artifacts.Pairwise fun a b => a.name ≠ b.name)
    (hplain : ∀ a ∈ artifacts, Path.IsPlain a.name.display) :
    AreApart disk' cwd directory artifacts := by
  refine hnames.imp_of_mem fun ha hb hname => ?_
  exact not_samePlace_of_isPlain hleaves ha ⟨hnamed _ ha, hnamed _ hb⟩ hname
    ⟨hplain _ ha, hplain _ hb⟩

/-- Artifacts with places of their own are all there. -/
theorem AreApart.holds (hapart : AreApart disk' cwd directory artifacts)
    (hleaves : Leaves disk disk' cwd (filesOf directory artifacts)) :
    ∀ a ∈ artifacts, Holds disk' cwd (fileOf directory a) := by
  apply (forall_holds_iff hleaves).mpr
  intro a ha b hb hsame
  by_contra htext
  have hne : a ≠ b := fun heq => htext (congrArg Artifact.text heq)
  have hsymm : Std.Symm fun a b =>
      ¬SamePlace disk' cwd (fileOf directory a) (fileOf directory b) :=
    ⟨fun _ _ h hsame => h hsame.symm⟩
  exact hapart.forall ha hb hne hsame

/-- A delivery that succeeds loses no artifact exactly when artifacts of one place have one text.
Two artifacts of a batch may have one place, since the batch compares their names and not their
paths; but if all names are plain, each artifact has a place of its own. -/
theorem holds_iff_of_deliver {settings : Settings} {known : KnownTypes} {fragments : List Fragment}
    {moment : Moment} {output : OutputSettings} {problemIn? : String → Option Nat}
    {paths : List Path}
    (hbatch : (Batch.generate settings known fragments moment).outcome = .ok artifacts)
    (hdone : (deliver output disk cwd directory artifacts problemIn?).written.outcome = .ok paths) :
    let after := (deliver output disk cwd directory artifacts problemIn?).disk
    ((∀ a ∈ artifacts, Holds after cwd (fileOf directory a)) ↔
      ∀ a ∈ artifacts, ∀ b ∈ artifacts,
        SamePlace after cwd (fileOf directory a) (fileOf directory b) → a.text = b.text) ∧
    ((∀ a ∈ artifacts, Path.IsPlain a.name.display) →
      (artifacts.Pairwise fun a b =>
        ¬SamePlace after cwd (fileOf directory a) (fileOf directory b)) ∧
      ∀ a ∈ artifacts, Holds after cwd (fileOf directory a)) := by
  intro after
  obtain ⟨hnamed, -, hleaves⟩ := leaves_deliver hdone
  refine ⟨forall_holds_iff hleaves, fun hplain => ?_⟩
  have hapart : AreApart after cwd directory artifacts :=
    areApart_of_isPlain hleaves hnamed (Batch.pairwise_name_of_generate hbatch) hplain
  exact ⟨hapart, hapart.holds hleaves⟩

/-! ## A batch that loses an artifact -/

/-- A class with one marked field. -/
def carFragment : Fragment where
  name := "Car"
  fields := [⟨"_speed", some "int", ["ReactiveProperty"]⟩]
  usings := ["ReactiveObject.Generators"]

/-- What a scan makes of the class. -/
def carClass : ReactiveClass where
  name := "Car"
  space := ""
  fullName := "Car"
  accessibility := .isInternal
  properties := [⟨"_speed", "Speed", .isInternal, "int"⟩]
  usings := ["ReactiveObject.Generators"]

/-- The marker of the default settings. -/
def defaultMarker : KnownTypes :=
  KnownTypes.ofNames ["ReactiveObject.Generators.ReactivePropertyAttribute"]

/-- Settings with a name for the marker's artifact. -/
def carSettings (marker : String) : Settings :=
  { markerArtifact := .text marker, banner := .bool false }

/-- The artifacts of the marker and of the class. -/
def carBatch (marker : String) : List Artifact :=
  [Batch.markerArtifact (carSettings marker), Batch.artifactOf (carSettings marker) carClass]

theorem generate_carBatch {marker : String} (hname : marker ≠ "CarReactiveProperty.g.cs") :
    (Batch.generate (carSettings marker) defaultMarker [carFragment] .never).outcome =
      .ok (carBatch marker) := by
  have hscan : (Scan.scan (carSettings marker) defaultMarker [carFragment]).outcome =
      .ok [carClass] := by
    show (Scan.scan {} defaultMarker [carFragment]).outcome = .ok [carClass]
    decide +kernel
  have hartifact : Batch.artifactName (carSettings marker) carClass =
      "CarReactiveProperty.g.cs" := by
    show Batch.artifactName {} carClass = "CarReactiveProperty.g.cs"
    decide +kernel
  have hfresh : Batch.AllFresh (carSettings marker)
      [((carSettings marker).markerArtifact, (carSettings marker).markerFullName.display)]
      [carClass] := by
    refine ⟨List.nodup_singleton _, fun c hc => ?_⟩
    rw [List.mem_singleton.mp hc, hartifact]
    simp [Batch.Taken.owner?, carSettings, hname]
  rw [Batch.outcome_generate_eq, hscan, Except.bind, Batch.artifactsOf,
    (Batch.outcome_artifactsFrom _ _).1 hfresh]
  rfl

theorem head?_append {front : String} {c : Char} (h : front.toList.head? = some c)
    (back : String) : (front ++ back).toList.head? = some c := by
  rw [String.toList_append, List.head?_append, h, Option.some_or]

theorem head?_intercalate {text : String} {c : Char} (h : text.toList.head? = some c)
    (separator : String) (rest : List String) :
    (separator.intercalate (text :: rest)).toList.head? = some c := by
  cases rest with
  | nil => simpa using h
  | cons next rest =>
    rw [String.intercalate_cons_cons, String.append_assoc]
    exact head?_append h _

/-- The texts of the two artifacts differ from the first letter on. -/
theorem text_carBatch (marker : String) :
    Layout.renderMarker (carSettings marker) ≠ Layout.render (carSettings marker) carClass := by
  have hbanner : Layout.bannerSection (carSettings marker) = [] := rfl
  have hmarker : (Layout.renderMarker (carSettings marker)).toList.head? = some 'n' := by
    have hspace : (carSettings marker).markerNamespace.isTrue = true := by
      show (({} : Settings).markerNamespace).isTrue = true
      decide
    rw [Layout.renderMarker, hbanner, Layout.markerSource, if_pos hspace, List.nil_append]
    apply head?_append
    apply head?_intercalate
    apply head?_intercalate
    apply head?_append
    decide
  have hclass : (Layout.render (carSettings marker) carClass).toList.head? = some 'u' := by
    rw [Layout.render, hbanner]
    apply head?_append
    apply head?_intercalate
    apply head?_intercalate
    apply head?_append
    decide
  intro h
  rw [h, hclass] at hmarker
  cases hmarker

/-- The marker's artifact has another name than that of the class, but the dot in front of it is no
part of its path.  The delivery may not overwrite anything and succeeds, and the marker is lost. -/
theorem marker_lost :
    let disk : Disk := ⟨[(["w"], .directory)]⟩
    let artifacts := carBatch "./CarReactiveProperty.g.cs"
    let delivery := deliver { validate := .bool false } disk ["w"] (Path.ofText "out") artifacts
    (Batch.generate (carSettings "./CarReactiveProperty.g.cs") defaultMarker [carFragment]
        .never).outcome = .ok artifacts ∧
      delivery.written.outcome = .ok [Path.ofText "out/CarReactiveProperty.g.cs",
        Path.ofText "out/CarReactiveProperty.g.cs"] ∧
      ¬∀ a ∈ artifacts, Holds delivery.disk ["w"] (fileOf (Path.ofText "out") a) := by
  intro disk artifacts delivery
  have hdone : delivery.written.outcome = .ok [Path.ofText "out/CarReactiveProperty.g.cs",
      Path.ofText "out/CarReactiveProperty.g.cs"] := by decide +kernel
  refine ⟨generate_carBatch (by decide), hdone, fun hall => ?_⟩
  obtain ⟨-, -, hleaves⟩ := leaves_deliver hdone
  have htexts := hleaves.holds_iff.mp fun file hfile => by
    obtain ⟨a, ha, rfl⟩ := mem_filesOf.mp hfile
    exact hall a ha
  have hplace : (fileOf (Path.ofText "out")
        (Batch.markerArtifact (carSettings "./CarReactiveProperty.g.cs"))).1 =
      (fileOf (Path.ofText "out")
        (Batch.artifactOf (carSettings "./CarReactiveProperty.g.cs") carClass)).1 := by
    show (Path.ofText "out").join (Path.ofText "./CarReactiveProperty.g.cs") =
      (Path.ofText "out").join (Path.ofText (Batch.artifactName {} carClass))
    decide +kernel
  apply text_carBatch "./CarReactiveProperty.g.cs"
  refine htexts _ ?_ _ ?_ (congrArg (Disk.locate _ _) hplace)
  · exact List.mem_map_of_mem List.mem_cons_self
  · exact List.mem_map_of_mem (List.mem_cons_of_mem _ List.mem_cons_self)

/-- Names without slashes are plain. -/
theorem holds_iff_of_deliver_plain :
    let disk : Disk := ⟨[(["w"], .directory)]⟩
    let artifacts := carBatch "Marker.g.cs"
    let delivery := deliver { validate := .bool false } disk ["w"] (Path.ofText "out") artifacts
    (Batch.generate (carSettings "Marker.g.cs") defaultMarker [carFragment] .never).outcome =
        .ok artifacts ∧
      delivery.written.outcome = .ok [Path.ofText "out/Marker.g.cs",
        Path.ofText "out/CarReactiveProperty.g.cs"] ∧
      (∀ a ∈ artifacts, Path.IsPlain a.name.display) ∧
      ∀ a ∈ artifacts, Holds delivery.disk ["w"] (fileOf (Path.ofText "out") a) := by
  intro disk artifacts delivery
  have hne : "Marker.g.cs" ≠ "CarReactiveProperty.g.cs" := by decide
  have hbatch := generate_carBatch hne
  have hdone : delivery.written.outcome = .ok [Path.ofText "out/Marker.g.cs",
      Path.ofText "out/CarReactiveProperty.g.cs"] := by decide +kernel
  have hplain : ∀ a ∈ artifacts, Path.IsPlain a.name.display := by
    have hnames : ∀ a ∈ artifacts, '/' ∉ a.name.display.toList ∧
        Path.isPart a.name.display = true ∧ a.name.display ≠ ".." := by decide +kernel
    intro a ha
    obtain ⟨hslash, hpart, hdots⟩ := hnames a ha
    exact Path.isPlain_of_not_mem hslash hpart hdots
  exact ⟨hbatch, hdone, hplain, ((holds_iff_of_deliver hbatch hdone).2 hplain).2⟩

end Backfield.Delivery
