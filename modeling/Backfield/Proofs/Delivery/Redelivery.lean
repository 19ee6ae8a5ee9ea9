import Backfield.Proofs.Delivery.Completion

/-!
# Deliveries of what is there already

A delivery that may overwrite files, made once more on the disk that it has left, succeeds again and
changes nothing.

* `writeFile_of_holds` is the step: a file that holds its text is written and stays what it is.
* `writeAll_of_holds` is the run, by induction over the files.
* `deliver_again` is the result for a batch, with the messages of both deliveries.
-/

namespace Backfield

namespace Disk

variable {disk disk' : Disk} {cwd key : Key} {p : Path}

/-! ## Disks with the same entries -/

theorem locate_of_get?_eq (h : disk'.get? = disk.get?) (cwd : Key) (p : Path) :
    disk'.locate cwd p = disk.locate cwd p := by
  have hwalk : ∀ (parts : List String) (here : Key),
      disk'.walk here parts = disk.walk here parts := by
    intro parts
    induction parts with
    | nil => exact fun _ => rfl
    | cons part rest ih =>
      intro here
      rw [walk, walk, h, ih, ih]
  exact hwalk p.parts _

theorem exists_of_entry?_eq_some {entry : Entry} (h : disk.entry? cwd p = some entry) :
    ∃ key, disk.locate cwd p = .ok key ∧ disk.get? key = some entry := by
  rw [Disk.entry?] at h
  cases hlocate : disk.locate cwd p with
  | error fault =>
    rw [hlocate] at h
    cases h
  | ok key =>
    rw [hlocate] at h
    exact ⟨key, rfl, h⟩

theorem entry?_of_get?_eq (h : disk'.get? = disk.get?) (cwd : Key) (p : Path) :
    disk'.entry? cwd p = disk.entry? cwd p := by
  rw [Disk.entry?, Disk.entry?, locate_of_get?_eq h, h]

/-! ## Directories and files that are there -/

/-- Making a directory that is there changes nothing. -/
theorem makeDirectories_of_directory (h : disk.entry? cwd p = some .directory) :
    disk.makeDirectories cwd p = ⟨disk, .ok ()⟩ := by
  obtain ⟨key, hlocate, hdirectory⟩ := exists_of_entry?_eq_some h
  have hthere : disk.makeDirectory cwd p = .error .alreadyThere := by
    rw [makeDirectory, hlocate]
    show (if (disk.get? key).isSome then _ else _) = _
    exact if_pos (Option.isSome_iff_exists.mpr ⟨_, hdirectory⟩)
  have hpath : (⟨p.root, p.parts.reverse.reverse⟩ : Path) = p := by
    rw [List.reverse_reverse]
  unfold makeDirectories makeDirectoriesFrom
  simp only [hpath, hthere, acceptDirectory, isDirectory, h, BEq.rfl, ↓reduceIte]

/-- A path that leads somewhere goes through a directory. -/
theorem entry?_parent_of_locate (hparts : p.parts ≠ []) (hlocate : disk.locate cwd p = .ok key) :
    disk.entry? cwd p.parent = some .directory := by
  have hlast := (parent_cases p).resolve_left fun h => hparts h.1
  rw [hlast] at hlocate
  obtain ⟨directory, hparent, hwalk⟩ := exists_of_bind_eq_ok hlocate
  rw [Disk.entry?, hparent]
  rw [walk] at hwalk
  split at hwalk
  · cases hwalk
  · cases hwalk
  · assumption

variable {bytes old : List UInt8}

theorem writeBytes_of_file (hlocate : disk.locate cwd p = .ok key)
    (hfile : disk.get? key = some (.file old)) :
    (disk.writeBytes cwd p bytes).result = .ok () := by
  simp only [writeBytes, hlocate, hfile]

end Disk

namespace Delivery

open Disk (PlacesFile)

variable {atomic : Bool} {disk disk' : Disk} {cwd : Key} {p : Path} {text : String}

/-! ## One file -/

theorem holds_of_get?_eq {file : Path × String} (h : disk'.get? = disk.get?) :
    Holds disk' cwd file ↔ Holds disk cwd file := by
  rw [Holds, Holds, Disk.entry?_of_get?_eq h]

theorem exists_of_holds (h : Holds disk cwd (p, text)) :
    ∃ key, disk.locate cwd p = .ok key ∧
      disk.get? key = some (.file (Text.Utf8.encode text)) :=
  Disk.exists_of_entry?_eq_some h

/-- Where the bytes are already, placing them changes nothing. -/
theorem get?_of_placesFile (h : Holds disk cwd (p, text))
    (hplaces : PlacesFile disk disk' cwd p (Text.Utf8.encode text)) :
    disk'.get? = disk.get? := by
  obtain ⟨key, hlocate, hfile⟩ := exists_of_holds h
  obtain ⟨key', hlocate', hfree, hview⟩ := hplaces
  have hkeeps := Disk.keepsDirectories_of_withFile hfree hview
  rw [Disk.locate_of_keepsDirectories hkeeps hlocate] at hlocate'
  rw [← Except.ok.inj hlocate'] at hview
  rw [hview]
  funext other
  rw [View.withFile]
  split
  · rename_i heq
    rw [heq, hfile]
  · rfl

/-- A file that holds its text is written, and nothing changes. -/
theorem writeFile_of_holds (hparts : p.parts ≠ []) (h : Holds disk cwd (p, text)) :
    (writeFile atomic cwd disk p text).result = .ok () ∧
      (writeFile atomic cwd disk p text).disk.get? = disk.get? := by
  obtain ⟨key, hlocate, hfile⟩ := exists_of_holds h
  rw [writeFile_eq, writeFile,
    Disk.makeDirectories_of_directory (Disk.entry?_parent_of_locate hparts hlocate)]
  have hresult : (disk.writeBytes cwd p (Text.Utf8.encode text)).result = .ok () :=
    Disk.writeBytes_of_file hlocate hfile
  exact ⟨hresult, get?_of_placesFile h (Disk.placesFile_writeBytes hresult)⟩

/-! ## A batch of files -/

/-- The trace of files that are all written: a message for each. -/
def writtenOf : List (Path × String) → Traced (List Path)
  | [] => return []
  | (target, _) :: rest => do
    Traced.log .info .delivery ("Wrote " ++ target.text)
    return target :: (← writtenOf rest)

/-- Files that are all written leave the same trace on any disk. -/
theorem written_writeAll {files : List (Path × String)} {paths : List Path}
    (h : (writeAll atomic cwd disk files).written.outcome = .ok paths) :
    (writeAll atomic cwd disk files).written = writtenOf files := by
  induction files generalizing disk paths with
  | nil => rfl
  | cons file rest ih =>
    obtain ⟨p, text⟩ := file
    cases hresult : (writeFile atomic cwd disk p text).result with
    | error stop =>
      rw [writeAll_of_error rest hresult] at h
      cases h
    | ok _ =>
      have hrest : ∃ others, (writeAll atomic cwd (writeFile atomic cwd disk p text).disk
          rest).written.outcome = .ok others := by
        rw [(writeAll_of_ok rest hresult).2] at h
        obtain ⟨others, hothers, -⟩ := exists_of_map_eq_ok h
        exact ⟨others, hothers⟩
      obtain ⟨others, hothers⟩ := hrest
      rw [writeAll, hresult, writtenOf, ← ih hothers]

/-- Files that all hold their texts are written, and nothing changes. -/
theorem writeAll_of_holds {files : List (Path × String)}
    (hparts : ∀ file ∈ files, file.1.parts ≠ [])
    (hholds : ∀ file ∈ files, Holds disk cwd file) :
    (∃ paths, (writeAll atomic cwd disk files).written.outcome = .ok paths) ∧
      (writeAll atomic cwd disk files).disk.get? = disk.get? := by
  induction files generalizing disk with
  | nil => exact ⟨⟨[], rfl⟩, rfl⟩
  | cons file rest ih =>
    obtain ⟨p, text⟩ := file
    rw [List.forall_mem_cons] at hparts hholds
    obtain ⟨hresult, hsame⟩ := @writeFile_of_holds atomic _ _ _ _ hparts.1 hholds.1
    obtain ⟨hdisk, hwritten⟩ := writeAll_of_ok rest hresult
    obtain ⟨⟨paths, hpaths⟩, hview⟩ := ih hparts.2 fun other hother =>
      (holds_of_get?_eq hsame).mpr (hholds.2 other hother)
    rw [hdisk, hwritten, hpaths, hview]
    exact ⟨⟨_, rfl⟩, hsame⟩

/-! ## Batches -/

variable {output : OutputSettings} {directory : Path} {artifacts : List Artifact}
  {problemIn? : String → Option Nat}

/-- A batch that may overwrite files is prepared alike on all disks. -/
theorem prepare_of_mode (hmode : output.mode ≠ .mode .refuse) (disk disk' : Disk) (cwd : Key) :
    prepare output disk' cwd directory artifacts problemIn? =
      prepare output disk cwd directory artifacts problemIn? := by
  unfold prepare
  simp only [hmode, ↓reduceIte]

/-- A batch that may overwrite files and has left each of them with its own text is delivered again
with the same messages, and nothing changes. -/
theorem deliver_again {paths : List Path} (hmode : output.mode ≠ .mode .refuse)
    (hdone : (deliver output disk cwd directory artifacts problemIn?).written.outcome = .ok paths)
    (hparts : ∀ file ∈ filesOf directory artifacts, file.1.parts ≠ [])
    (hholds : ∀ file ∈ filesOf directory artifacts,
      Holds (deliver output disk cwd directory artifacts problemIn?).disk cwd file) :
    let first := deliver output disk cwd directory artifacts problemIn?
    let again := deliver output first.disk cwd directory artifacts problemIn?
    again.written = first.written ∧ again.disk.get? = first.disk.get? := by
  intro first again
  cases hprepared : prepare output disk cwd directory artifacts problemIn? with
  | error e =>
    rw [deliver, hprepared] at hdone
    cases hdone
  | ok targets =>
    have hfirst : first = writeAll output.atomic.isTrue cwd disk (filesOf directory artifacts) :=
      deliver_of_prepare_eq_ok hprepared
    have hagain : again =
        writeAll output.atomic.isTrue cwd first.disk (filesOf directory artifacts) :=
      deliver_of_prepare_eq_ok ((prepare_of_mode hmode disk first.disk cwd).trans hprepared)
    obtain ⟨⟨paths', hpaths'⟩, hview⟩ :=
      @writeAll_of_holds output.atomic.isTrue _ _ _ hparts hholds
    have hwritten : first.written = writtenOf (filesOf directory artifacts) := by
      have hfirstDone : first.written.outcome = .ok paths := hdone
      rw [hfirst] at hfirstDone ⊢
      exact written_writeAll hfirstDone
    rw [hagain, hwritten]
    exact ⟨written_writeAll hpaths', hview⟩

end Delivery

end Backfield
