import Backfield.Proofs.Delivery.WritePhase

/-!
# Files that a delivery leaves alone

A delivery that must not overwrite anything refuses a batch one of whose targets exists.  So it
writes no file that has been there, also if it stops in the middle of the batch, and also if a
target comes into being only by the directories that it makes.

* `get?_keyOf_of_not_pathExists`: nothing stands at the key of a path that does not exist.
* `View.deliveredAll_of_file`: files that are delivered elsewhere leave a file as it is.
* `get?_deliver_of_file` is the result.
-/

namespace Backfield

/-- A path that does not exist has a free key.  If something stood there, all directories that lead
to it would be there too, and it would be found. -/
theorem Disk.get?_keyOf_of_not_pathExists {disk : Disk} {cwd : Key} {p : Path}
    (htree : View.IsTree disk.get?) (hstart : disk.get? (startOf cwd p.root) = some .directory)
    (hdots : ".." ∉ p.parts) (hfree : ¬disk.pathExists cwd p = true) :
    disk.get? (keyOf cwd p) = none := by
  by_contra hsome
  have hparent : disk.get? (keyOf cwd p.parent) = some .directory := by
    by_cases hparts : p.parts = []
    · rw [(keyOf_eq_startOf hparts).2]
      exact hstart
    · refine htree.directory_of_isPrefix hsome keyOf_parent_isPrefix fun heq => hparts ?_
      have hlength := congrArg List.length heq
      simp only [keyOf, Path.parent, List.length_append, List.length_dropLast] at hlength
      exact List.length_eq_zero_iff.mp (by omega)
  rw [pathExists, entry?, locate_of_directory htree hstart hdots hparent] at hfree
  exact hfree (Option.isSome_iff_ne_none.mpr hsome)

namespace View

variable {look : View} {key : Key} {bytes : List UInt8}

/-- A file that is delivered leaves the others as they are. -/
theorem delivered_of_file {target : Key} {written : List UInt8} (hne : key ≠ target)
    (hfile : look key = some (.file bytes)) :
    look.delivered target written key = some (.file bytes) := by
  rw [delivered, withFile, if_neg hne, withDirectories_of_some (by simp [hfile]), hfile]

theorem deliveredAll_of_file {files : List (Key × List UInt8)}
    (hne : ∀ file ∈ files, key ≠ file.1) (hfile : look key = some (.file bytes)) :
    look.deliveredAll files key = some (.file bytes) := by
  induction files generalizing look with
  | nil => exact hfile
  | cons file rest ih =>
    rw [List.forall_mem_cons] at hne
    exact ih hne.2 (delivered_of_file hne.1 hfile)

end View

namespace Delivery

variable {settings : OutputSettings} {disk : Disk} {cwd : Key} {directory : Path}
  {artifacts : List Artifact} {problemIn? : String → Option Nat}

/-- A delivery that must not overwrite leaves all files as they are, whether it succeeds, is
refused or stops halfway. -/
theorem get?_deliver_of_file (htree : disk.IsTree) (hcwd : disk.get? cwd = some .directory)
    (hdirectory : ".." ∉ directory.parts)
    (hnames : ∀ a ∈ artifacts, ".." ∉ (Path.ofText a.name.display).parts)
    (hmode : settings.mode = .mode .refuse) {key : Key} {bytes : List UInt8}
    (hfile : disk.get? key = some (.file bytes)) :
    (deliver settings disk cwd directory artifacts problemIn?).disk.get? key =
      some (.file bytes) := by
  have hprepares := prepares_prepare problemIn? settings disk cwd directory artifacts
  cases hprepared : prepare settings disk cwd directory artifacts problemIn? with
  | error e =>
    rw [deliver, hprepared]
    exact hfile
  | ok targets =>
    rw [hprepared] at hprepares
    cases hprepares with
    | passed _ _ hfree =>
      have htree' := Disk.isTree_iff.mp htree
      have hdots : ∀ file ∈ filesOf directory artifacts, ".." ∉ file.1.parts := by
        intro file hfile
        obtain ⟨a, ha, rfl⟩ := List.mem_map.mp hfile
        exact dots_not_mem_pathOf hdirectory (hnames a ha)
      obtain ⟨k, hk⟩ := exists_stopsAfter_writeAll (filesOf directory artifacts) htree' hcwd hdots
      rw [deliver_of_prepare_eq_ok hprepared, hk.view]
      refine View.deliveredAll_of_file (fun place hplace heq => ?_) hfile
      obtain ⟨file, hmem, rfl⟩ := List.mem_map.mp hplace
      obtain ⟨a, ha, rfl⟩ := List.mem_map.mp (List.mem_of_mem_take hmem)
      have hnone := Disk.get?_keyOf_of_not_pathExists htree' (get?_startOf hcwd _)
        (dots_not_mem_pathOf hdirectory (hnames a ha)) (hfree hmode a ha)
      rw [heq] at hfile
      exact absurd (hnone.symm.trans hfile) (by simp)

end Delivery

end Backfield
