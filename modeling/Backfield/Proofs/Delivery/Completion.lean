import Backfield.Proofs.Delivery.WritePhase
import Backfield.Proofs.Disk.Places

/-!
# Deliveries that succeed

What is on a disk once a batch has been delivered, for any tree of files and directories and any
names.  Where two paths lead to one place the later file is there.

* `leavesFile_writeFile` is the step: the file is there, and nothing else has changed but that
  directories on the way to it may be new.
* `Leaves` says the same of a batch, with the last file that is written to each place, and
  `leaves_writeAll` proves it by induction over the batch.
* `leaves_deliver` is the result for a batch of artifacts.
* `holds_iff` says that every file holds its own bytes exactly when no two files with other bytes
  have one place.
-/

namespace Backfield.Delivery

open Disk (IsMadeFor KeepsDirectories MakesWay PlacesFile)

variable {atomic : Bool} {disk disk' : Disk} {cwd key : Key} {p : Path} {text : String}

/-! ## One file -/

/-- The path leads to a file with the bytes, and nothing else has changed but that directories on
the way to it have been made. -/
def LeavesFile (disk disk' : Disk) (cwd : Key) (p : Path) (bytes : List UInt8) : Prop :=
  ∃ key, disk'.locate cwd p = .ok key ∧ disk.get? key ≠ some .directory ∧
    disk'.get? key = some (.file bytes) ∧
    ∀ other, other ≠ key →
      disk'.get? other = disk.get? other ∨ IsMadeFor disk disk' cwd p.parent other

theorem LeavesFile.keepsDirectories {bytes : List UInt8}
    (h : LeavesFile disk disk' cwd p bytes) : KeepsDirectories disk disk' := by
  obtain ⟨key, -, hplace, -, hothers⟩ := h
  intro other hother
  have hne : other ≠ key := by
    intro heq
    rw [heq] at hother
    exact hplace hother
  rcases hothers other hne with hsame | ⟨hnone, -⟩
  · rw [hsame, hother]
  · rw [hother] at hnone
    cases hnone

/-- A file in a directory that has just been made. -/
theorem leavesFile_of_placesFile {made : Disk} {bytes : List UInt8}
    (hway : MakesWay disk made cwd p.parent) (hplaces : PlacesFile made disk' cwd p bytes) :
    LeavesFile disk disk' cwd p bytes := by
  obtain ⟨key, hlocate, hplace, hview⟩ := hplaces
  have hkeeps := Disk.keepsDirectories_of_withFile hplace hview
  refine ⟨key, hlocate, fun hdirectory => hplace (hway.keepsDirectories key hdirectory), ?_, ?_⟩
  · rw [hview, View.withFile, if_pos rfl]
  · intro other hne
    have hsame : disk'.get? other = made.get? other := by
      rw [hview, View.withFile, if_neg hne]
    rcases hway other with hold | ⟨hnone, hnew, q, hq, hreach⟩
    · exact Or.inl (hsame.trans hold)
    · exact Or.inr ⟨hnone, hsame.trans hnew, q, hq,
        Disk.locate_of_keepsDirectories hkeeps hreach⟩

/-- A file that is written is there, whichever way it is written. -/
theorem leavesFile_writeFile (h : (writeFile atomic cwd disk p text).result = .ok ()) :
    LeavesFile disk (writeFile atomic cwd disk p text).disk cwd p (Text.Utf8.encode text) := by
  have hway := Disk.makesWay_makeDirectories disk cwd p.parent
  rw [writeFile_eq, writeFile] at h ⊢
  cases hmade : (disk.makeDirectories cwd p.parent).result with
  | error stop =>
    simp only [hmade] at h
    cases h
  | ok _ =>
    simp only [hmade] at h ⊢
    exact leavesFile_of_placesFile hway (Disk.placesFile_writeBytes h)

/-! ## A batch of files -/

/-- What files that are written one after the other leave on a disk. -/
structure Leaves (disk disk' : Disk) (cwd : Key) (files : List (Path × String)) : Prop where
  keeps : KeepsDirectories disk disk'
  /-- Each file has a place, and it is there unless a later one has the same place. -/
  placed : ∀ before file after, files = before ++ file :: after →
    ∃ key, disk'.locate cwd file.1 = .ok key ∧
      ((∀ later ∈ after, disk'.locate cwd later.1 ≠ .ok key) →
        disk'.get? key = some (.file (Text.Utf8.encode file.2)))
  /-- Nothing else has changed but that directories on the way to a file have been made. -/
  others : ∀ key, disk'.get? key = disk.get? key ∨
    (∃ file ∈ files, disk'.locate cwd file.1 = .ok key) ∨
    ∃ file ∈ files, IsMadeFor disk disk' cwd file.1.parent key

theorem Leaves.nil (disk : Disk) (cwd : Key) : Leaves disk disk cwd [] where
  keeps := fun _ hkey => hkey
  placed := by
    intro before file after h
    cases before <;> cases h
  others := fun _ => Or.inl rfl

/-- One file and then the others. -/
theorem Leaves.cons {disk'' : Disk} {rest : List (Path × String)}
    (hfile : LeavesFile disk disk' cwd p (Text.Utf8.encode text))
    (hrest : Leaves disk' disk'' cwd rest) : Leaves disk disk'' cwd ((p, text) :: rest) := by
  have hkeeps := hfile.keepsDirectories
  obtain ⟨place, hlocate, hfree, hthere, hothers⟩ := hfile
  have hstill := Disk.locate_of_keepsDirectories hrest.keeps hlocate
  refine ⟨hkeeps.trans hrest.keeps, fun before file after heq => ?_, fun key => ?_⟩
  · cases before with
    | nil =>
      cases heq
      refine ⟨place, hstill, fun hlast => ?_⟩
      rcases hrest.others place with hsame | ⟨later, hlater, hsame⟩ | ⟨later, -, hnone, -⟩
      · rw [hsame, hthere]
      · exact absurd hsame (hlast later hlater)
      · rw [hthere] at hnone
        cases hnone
    | cons first before =>
      cases heq
      exact hrest.placed before file after rfl
  · by_cases hplace : key = place
    · subst hplace
      exact Or.inr (Or.inl ⟨_, List.mem_cons_self, hstill⟩)
    · rcases hrest.others key with hsame | ⟨later, hlater, hreach⟩ | ⟨later, hlater, hnone, hnew⟩
      · rcases hothers key hplace with hold | ⟨hnone, hnew, q, hq, hreach⟩
        · exact Or.inl (hsame.trans hold)
        · exact Or.inr (Or.inr ⟨_, List.mem_cons_self, hnone, hsame.trans hnew, q, hq,
            Disk.locate_of_keepsDirectories hrest.keeps hreach⟩)
      · exact Or.inr (Or.inl ⟨later, List.mem_cons_of_mem _ hlater, hreach⟩)
      · rcases hothers key hplace with hold | ⟨-, hmade, -⟩
        · exact Or.inr (Or.inr ⟨later, List.mem_cons_of_mem _ hlater, hold ▸ hnone, hnew⟩)
        · rw [hmade] at hnone
          cases hnone

/-- Files that are all written are left on the disk, and their paths are returned. -/
theorem leaves_writeAll {files : List (Path × String)} {paths : List Path}
    (h : (writeAll atomic cwd disk files).written.outcome = .ok paths) :
    Leaves disk (writeAll atomic cwd disk files).disk cwd files ∧ paths = files.map Prod.fst := by
  induction files generalizing disk paths with
  | nil => exact ⟨.nil disk cwd, (Except.ok.inj h).symm⟩
  | cons file rest ih =>
    obtain ⟨p, text⟩ := file
    cases hresult : (writeFile atomic cwd disk p text).result with
    | error stop =>
      rw [writeAll_of_error rest hresult] at h
      cases h
    | ok _ =>
      obtain ⟨hdisk, hwritten⟩ := writeAll_of_ok rest hresult
      rw [hwritten] at h
      obtain ⟨others, hothers, rfl⟩ := exists_of_map_eq_ok h
      obtain ⟨hleaves, hpaths⟩ := ih hothers
      rw [hdisk, hpaths]
      exact ⟨.cons (leavesFile_writeFile hresult) hleaves, rfl⟩

/-- A batch that is delivered has text for names.  Its files are left on the disk, and their paths
are returned. -/
theorem leaves_deliver {settings : OutputSettings} {directory : Path} {artifacts : List Artifact}
    {problemIn? : String → Option Nat} {paths : List Path}
    (h : (deliver settings disk cwd directory artifacts problemIn?).written.outcome = .ok paths) :
    (∀ a ∈ artifacts, IsNamed a) ∧ paths = artifacts.map (pathOf directory) ∧
      Leaves disk (deliver settings disk cwd directory artifacts problemIn?).disk cwd
        (filesOf directory artifacts) := by
  have hprepares := prepares_prepare problemIn? settings disk cwd directory artifacts
  cases hprepared : prepare settings disk cwd directory artifacts problemIn? with
  | error e =>
    rw [deliver, hprepared] at h
    cases h
  | ok targets =>
    rw [deliver_of_prepare_eq_ok hprepared] at h ⊢
    obtain ⟨hleaves, hpaths⟩ := leaves_writeAll h
    rw [hprepared] at hprepares
    cases hprepares with
    | passed _ hnames _ =>
      refine ⟨hnames, ?_, hleaves⟩
      rw [hpaths, filesOf, List.map_map]
      rfl

/-! ## Files that hold their own bytes -/

/-- The path leads to a file with the bytes of the text. -/
def Holds (disk : Disk) (cwd : Key) (file : Path × String) : Prop :=
  disk.entry? cwd file.1 = some (.file (Text.Utf8.encode file.2))

/-- The paths of the two files lead to one place. -/
def SamePlace (disk : Disk) (cwd : Key) (file other : Path × String) : Prop :=
  disk.locate cwd file.1 = disk.locate cwd other.1

theorem holds_iff_of_locate {file : Path × String} (hlocate : disk.locate cwd file.1 = .ok key) :
    Holds disk cwd file ↔ disk.get? key = some (.file (Text.Utf8.encode file.2)) := by
  rw [Holds, Disk.entry?, hlocate]

/-- The bytes of a text tell the text. -/
theorem encode_injective : Function.Injective Text.Utf8.encode := by
  intro text other h
  rw [Text.Utf8.encode_eq, Text.Utf8.encode_eq, Array.toList_inj] at h
  exact String.toByteArray_inj.mp (ByteArray.ext h)

variable {files : List (Path × String)}

/-- At the place of each file the last file is there that is written to it. -/
theorem Leaves.exists_last (h : Leaves disk disk' cwd files) :
    ∀ file ∈ files, ∃ last ∈ files, SamePlace disk' cwd file last ∧ Holds disk' cwd last := by
  -- The induction is on the files that are written after the file.
  have hall : ∀ n before file after, after.length ≤ n → files = before ++ file :: after →
      ∃ last ∈ files, SamePlace disk' cwd file last ∧ Holds disk' cwd last := by
    intro n
    induction n with
    | zero =>
      intro before file after hlength heq
      obtain ⟨key, hlocate, hplaced⟩ := h.placed before file after heq
      have hnil : after = [] := List.length_eq_zero_iff.mp (Nat.le_zero.mp hlength)
      refine ⟨file, by simp [heq], rfl, (holds_iff_of_locate hlocate).mpr (hplaced ?_)⟩
      simp [hnil]
    | succ n ih =>
      intro before file after hlength heq
      obtain ⟨key, hlocate, hplaced⟩ := h.placed before file after heq
      by_cases hlast : ∀ later ∈ after, disk'.locate cwd later.1 ≠ .ok key
      · exact ⟨file, by simp [heq], rfl, (holds_iff_of_locate hlocate).mpr (hplaced hlast)⟩
      · push Not at hlast
        obtain ⟨later, hmem, hlater⟩ := hlast
        obtain ⟨between, rest, rfl⟩ := List.append_of_mem hmem
        have hshorter : rest.length ≤ n := by
          rw [List.length_append, List.length_cons] at hlength
          omega
        have hlonger : files = (before ++ file :: between) ++ later :: rest := by simp [heq]
        obtain ⟨last, hmem', hsame, hholds⟩ := ih _ later rest hshorter hlonger
        exact ⟨last, hmem', (hlocate.trans hlater.symm).trans hsame, hholds⟩
  intro file hfile
  obtain ⟨before, after, heq⟩ := List.append_of_mem hfile
  exact hall after.length before file after (Nat.le_refl _) heq

/-- Every file holds its own bytes exactly when files of one place have one text. -/
theorem Leaves.holds_iff (h : Leaves disk disk' cwd files) :
    (∀ file ∈ files, Holds disk' cwd file) ↔
      ∀ file ∈ files, ∀ other ∈ files, SamePlace disk' cwd file other → file.2 = other.2 := by
  have hentry : ∀ file other : Path × String, SamePlace disk' cwd file other →
      disk'.entry? cwd file.1 = disk'.entry? cwd other.1 := by
    intro file other hsame
    rw [Disk.entry?, hsame, ← Disk.entry?]
  constructor
  · intro hholds file hfile other hother hsame
    have hboth := (hholds file hfile).symm.trans
      ((hentry file other hsame).trans (hholds other hother))
    apply encode_injective
    simpa using hboth
  · intro htexts file hfile
    obtain ⟨last, hlast, hsame, hholds⟩ := h.exists_last file hfile
    rw [Holds, hentry file last hsame, hholds, htexts file hfile last hlast hsame]

end Backfield.Delivery
