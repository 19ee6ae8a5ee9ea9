import Backfield.Proofs.Delivery.Losses
import Backfield.Proofs.Delivery.Redelivery
import Backfield.Proofs.Source.Expansion

/-!
# Deliveries of generated files

A batch whose names are those of generated files, without directories in front, is out of sight for
a reader who leaves generated files out.

* `IsGeneratedName` says what such a name is, and `isGeneratedName_of_generate` that the two
  settings for names decide whether a batch has such names.
* `holds_of_generate` says that no file of the batch is lost.
* `keepsSources_of_leaves` says that nothing has changed for the reader, and
  `deliver_again_of_isGeneratedName` that a second delivery changes nothing at all.
-/

namespace Backfield.Delivery

open Source (EndsGenerated KeepsSources generatedSuffix sourceSuffix)

variable {disk disk' : Disk} {cwd key : Key} {directory : Path} {a : Artifact}
  {artifacts : List Artifact}

/-! ## Names of generated files -/

/-- The name is that of a generated file, and no directory is part of it. -/
structure IsGeneratedName (name : String) : Prop where
  ends : Text.endsWith name generatedSuffix = true
  slash : '/' ∉ name.toList

section

variable {name : String}

/-- A name that ends in the suffix is none of the names that a path leaves out or follows up. -/
theorem IsGeneratedName.ne_of_not_endsWith {other : String} (h : IsGeneratedName name)
    (hother : Text.endsWith other generatedSuffix = false) : name ≠ other := by
  rintro rfl
  rw [h.ends] at hother
  cases hother

theorem IsGeneratedName.isPart (h : IsGeneratedName name) : Path.isPart name = true := by
  rw [Path.isPart, Bool.and_eq_true, bne_iff_ne, bne_iff_ne]
  exact ⟨h.ne_of_not_endsWith (by decide), h.ne_of_not_endsWith (by decide)⟩

theorem IsGeneratedName.isPlain (h : IsGeneratedName name) : Path.IsPlain name :=
  Path.isPlain_of_not_mem h.slash h.isPart (h.ne_of_not_endsWith (by decide))

end

/-- The file stands right in the directory. -/
theorem pathOf_of_isGeneratedName (h : IsGeneratedName a.name.display) :
    pathOf directory a = ⟨directory.root, directory.parts ++ [a.name.display]⟩ := by
  rw [pathOf, Path.join_of_root h.isPlain.root, Path.ofText_of_not_mem h.slash h.isPart]

theorem parent_pathOf (h : IsGeneratedName a.name.display) :
    (pathOf directory a).parent = directory := by
  rw [pathOf_of_isGeneratedName h, Path.parent, List.dropLast_concat]

theorem parts_pathOf_ne_nil (h : IsGeneratedName a.name.display) :
    (pathOf directory a).parts ≠ [] := by
  rw [pathOf_of_isGeneratedName h]
  exact List.concat_ne_nil _ _

theorem isFull_pathOf (hdirectory : directory.IsFull) (h : IsGeneratedName a.name.display) :
    (pathOf directory a).IsFull := by
  rw [pathOf_of_isGeneratedName h]
  refine ⟨hdirectory.root, ?_⟩
  rw [List.mem_append, List.mem_singleton, not_or]
  exact ⟨hdirectory.dots, (h.ne_of_not_endsWith (by decide)).symm⟩

/-- The place of the file is named like a generated file. -/
theorem endsGenerated_of_locate (h : IsGeneratedName a.name.display)
    (hlocate : disk.locate cwd (pathOf directory a) = .ok key) : EndsGenerated key := by
  obtain ⟨base, -, hkey⟩ := Disk.exists_of_locate_join h.isPlain hlocate
  rw [hkey, Path.ofText_of_not_mem h.slash h.isPart, EndsGenerated, List.getLast?_concat]
  exact h.ends

/-! ## Names of a batch -/

theorem endsWith_append {front back word : String} (h : Text.endsWith back word = true) :
    Text.endsWith (front ++ back) word = true := by
  rw [Text.endsWith, List.isSuffixOf_iff_suffix] at h ⊢
  rw [String.toList_append]
  exact h.trans (List.suffix_append _ _)

section

variable {settings : Settings} {known : KnownTypes} {fragments : List Fragment} {moment : Moment}

/-- The names of a batch end as the settings for the marker's artifact and for the others do. -/
theorem isGeneratedName_of_generate
    (hbatch : (Batch.generate settings known fragments moment).outcome = .ok artifacts)
    (hsuffix : Text.endsWith settings.artifactSuffix.display generatedSuffix = true)
    (hmarker : Text.endsWith settings.markerArtifact.display generatedSuffix = true)
    (hslash : ∀ a ∈ artifacts, '/' ∉ a.name.display.toList) :
    ∀ a ∈ artifacts, IsGeneratedName a.name.display := by
  obtain ⟨classes, -, -, rfl⟩ := Batch.exists_classes_of_generate hbatch
  intro a ha
  refine ⟨?_, hslash a ha⟩
  rcases List.mem_cons.mp ha with rfl | ha
  · exact hmarker
  · obtain ⟨c, -, rfl⟩ := List.mem_map.mp ha
    exact endsWith_append hsuffix

/-- No file of the batch is lost. -/
theorem holds_of_generate
    (hbatch : (Batch.generate settings known fragments moment).outcome = .ok artifacts)
    (hnames : ∀ a ∈ artifacts, IsGeneratedName a.name.display)
    (hnamed : ∀ a ∈ artifacts, IsNamed a)
    (hleaves : Leaves disk disk' cwd (filesOf directory artifacts)) :
    ∀ a ∈ artifacts, Holds disk' cwd (fileOf directory a) := by
  have hapart : AreApart disk' cwd directory artifacts :=
    areApart_of_isPlain hleaves hnamed (Batch.pairwise_name_of_generate hbatch)
      fun a ha => (hnames a ha).isPlain
  exact hapart.holds hleaves

end

/-! ## What a reader sees -/

/-- What has changed is a file of the batch, or a directory that was not there. -/
theorem changed_cases (hleaves : Leaves disk disk' cwd (filesOf directory artifacts))
    (hchanged : disk'.get? key ≠ disk.get? key) :
    (∃ a ∈ artifacts, disk'.locate cwd (pathOf directory a) = .ok key) ∨
      (disk.get? key = none ∧ disk'.get? key = some .directory) := by
  rcases hleaves.others key with hsame | ⟨file, hfile, hlocate⟩ | ⟨_, -, hnone, hnew, -⟩
  · exact absurd hsame hchanged
  · obtain ⟨a, ha, rfl⟩ := mem_filesOf.mp hfile
    exact Or.inl ⟨a, ha, hlocate⟩
  · exact Or.inr ⟨hnone, hnew⟩

/-- Files of the batch and new directories that are not named like source files are out of sight
for a reader. -/
theorem keepsSources_of_leaves (hleaves : Leaves disk disk' cwd (filesOf directory artifacts))
    (hholds : ∀ a ∈ artifacts, Holds disk' cwd (fileOf directory a))
    (hnames : ∀ a ∈ artifacts, IsGeneratedName a.name.display)
    (hnew : ∀ key, disk.get? key = none → disk'.get? key = some .directory →
      Text.endsWith (key.getLast?.getD "") sourceSuffix = false) :
    KeepsSources disk disk' where
  directories := hleaves.keeps
  files := by
    intro key bytes hfile
    by_cases hsame : disk'.get? key = disk.get? key
    · exact ⟨bytes, hsame.trans hfile, fun _ => rfl⟩
    rcases changed_cases hleaves hsame with ⟨a, ha, hlocate⟩ | ⟨hnone, -⟩
    · have hplace : disk'.locate cwd (fileOf directory a).1 = .ok key := hlocate
      have hthere := (holds_iff_of_locate hplace).mp (hholds a ha)
      refine ⟨_, hthere, fun hkept => ?_⟩
      exact absurd (endsGenerated_of_locate (hnames a ha) hlocate) hkept
    · rw [hnone] at hfile
      cases hfile
  added := by
    intro key hnone hthere
    have hchanged : disk'.get? key ≠ disk.get? key := by
      rw [hnone]
      exact hthere
    rcases changed_cases hleaves hchanged with ⟨a, ha, hlocate⟩ | ⟨-, hdirectory⟩
    · exact Or.inl (endsGenerated_of_locate (hnames a ha) hlocate)
    · exact Or.inr (hnew key hnone hdirectory)

/-! ## The delivery once more -/

/-- A batch that may overwrite files and has been delivered is delivered again with the same
messages, and nothing changes. -/
theorem deliver_again_of_isGeneratedName {output : OutputSettings}
    {problemIn? : String → Option Nat} {paths : List Path}
    (hmode : output.mode ≠ .mode .refuse)
    (hdone : (deliver output disk cwd directory artifacts problemIn?).written.outcome = .ok paths)
    (hnames : ∀ a ∈ artifacts, IsGeneratedName a.name.display)
    (hholds : ∀ a ∈ artifacts, Holds
      (deliver output disk cwd directory artifacts problemIn?).disk cwd (fileOf directory a)) :
    let first := deliver output disk cwd directory artifacts problemIn?
    let again := deliver output first.disk cwd directory artifacts problemIn?
    again.written = first.written ∧ again.disk.get? = first.disk.get? := by
  apply deliver_again hmode hdone
  · intro file hfile
    obtain ⟨a, ha, rfl⟩ := mem_filesOf.mp hfile
    exact parts_pathOf_ne_nil (hnames a ha)
  · intro file hfile
    obtain ⟨a, ha, rfl⟩ := mem_filesOf.mp hfile
    exact hholds a ha

end Backfield.Delivery
