import Backfield.Proofs.Disk.Tree

/-!
# Directories that lead to a path

On a tree a path without double dots has one key, and there are three ways in which looking for
it can go.  `locate_cases` tells them apart by what stands at the key of the path's directory.
`makeDirectories_cases` says what making directories does: everything that is missing is made,
or a file is in the way and nothing changes.
-/

namespace Backfield.Disk

/-- Where paths with this root start: without a root at the working directory. -/
def startOf (cwd : Key) (root : String) : Key := if root == "" then cwd else []

/-- The key of a path without double dots. -/
def keyOf (cwd : Key) (p : Path) : Key := startOf cwd p.root ++ p.parts

variable {disk : Disk} {cwd : Key} {p : Path}

/-! ## Keys of directories -/

theorem keyOf_parent_isPrefix : keyOf cwd p.parent <+: keyOf cwd p :=
  (List.prefix_append_right_inj _).mpr (List.dropLast_prefix p.parts)

/-- The directory of a path is the directory of its key, unless the path leads to where it
starts. -/
theorem keyOf_parent_eq_dropLast (hparts : p.parts ≠ []) :
    keyOf cwd p.parent = (keyOf cwd p).dropLast :=
  (List.dropLast_append_of_ne_nil hparts).symm

theorem keyOf_eq_startOf (hparts : p.parts = []) :
    keyOf cwd p = startOf cwd p.root ∧ keyOf cwd p.parent = startOf cwd p.root := by
  simp [keyOf, Path.parent, hparts]

theorem dots_not_mem_parent (hdots : ".." ∉ p.parts) : ".." ∉ p.parent.parts :=
  fun hmem => hdots (List.mem_of_mem_dropLast hmem)

/-! ## Looking for a path -/

/-- From a directory on, components either lead through directories, or meet a file, or leave
what is there. -/
theorem walk_cases {here : Key} {parts : List String} (htree : View.IsTree disk.get?)
    (hhere : disk.get? here = some .directory) (hdots : ".." ∉ parts) :
    (disk.walk here parts = .ok (here ++ parts) ∧
        disk.get? (here ++ parts.dropLast) = some .directory) ∨
      (disk.walk here parts = .error .notDirectory ∧
        View.FileOn disk.get? (here ++ parts.dropLast)) ∨
      (disk.walk here parts = .error .notFound ∧
        disk.get? (here ++ parts.dropLast) = none ∧
        ¬View.FileOn disk.get? (here ++ parts.dropLast)) := by
  induction parts generalizing here with
  | nil =>
    refine Or.inl ⟨?_, ?_⟩
    · simp [walk]
    · simpa using hhere
  | cons part rest ih =>
    rw [List.mem_cons, not_or] at hdots
    have hpart : ¬(part == "..") = true := by simpa using Ne.symm hdots.1
    have hstep : disk.walk here (part :: rest) = disk.walk (here ++ [part]) rest := by
      rw [walk, hhere]
      exact if_neg hpart
    cases rest with
    | nil =>
      refine Or.inl ⟨?_, ?_⟩
      · rw [hstep]
        rfl
      · simpa using hhere
    | cons next rest =>
      have hkey : here ++ (part :: next :: rest) = (here ++ [part]) ++ (next :: rest) := by simp
      have hdirectory : here ++ (part :: next :: rest).dropLast =
          (here ++ [part]) ++ (next :: rest).dropLast := by simp
      have hbegins : here ++ [part] <+: (here ++ [part]) ++ (next :: rest).dropLast :=
        List.prefix_append _ _
      rw [hstep, hkey, hdirectory]
      cases hentry : disk.get? (here ++ [part]) with
      | none =>
        refine Or.inr (Or.inr ⟨?_, htree.not_fileOn_of_missing hhere hentry hbegins⟩)
        rw [walk, hentry]
      | some entry =>
        cases entry with
        | directory => exact ih hentry hdots.2
        | file bytes =>
          refine Or.inr (Or.inl ⟨?_, here ++ [part], hbegins, bytes, hentry⟩)
          rw [walk, hentry]

/-- The three ways in which looking for a path can go. -/
theorem locate_cases (htree : View.IsTree disk.get?)
    (hstart : disk.get? (startOf cwd p.root) = some .directory) (hdots : ".." ∉ p.parts) :
    (disk.locate cwd p = .ok (keyOf cwd p) ∧
        disk.get? (keyOf cwd p.parent) = some .directory) ∨
      (disk.locate cwd p = .error .notDirectory ∧ View.FileOn disk.get? (keyOf cwd p.parent)) ∨
      (disk.locate cwd p = .error .notFound ∧ disk.get? (keyOf cwd p.parent) = none ∧
        ¬View.FileOn disk.get? (keyOf cwd p.parent)) :=
  walk_cases htree hstart hdots

/-- A path in a directory is found. -/
theorem locate_of_directory (htree : View.IsTree disk.get?)
    (hstart : disk.get? (startOf cwd p.root) = some .directory) (hdots : ".." ∉ p.parts)
    (hparent : disk.get? (keyOf cwd p.parent) = some .directory) :
    disk.locate cwd p = .ok (keyOf cwd p) := by
  rcases locate_cases htree hstart hdots with ⟨hlocate, -⟩ | ⟨-, hfile⟩ | ⟨-, hmissing, -⟩
  · exact hlocate
  · exact absurd hfile (htree.not_fileOn_of_directory hparent)
  · rw [hparent] at hmissing
    cases hmissing

/-! ## Making a directory -/

theorem makeDirectory_of_error {fault : FileFault} (hlocate : disk.locate cwd p = .error fault) :
    disk.makeDirectory cwd p = .error fault := by
  rw [makeDirectory, hlocate]
  rfl

theorem makeDirectory_of_some {key : Key} (hlocate : disk.locate cwd p = .ok key)
    (hsome : (disk.get? key).isSome) : disk.makeDirectory cwd p = .error .alreadyThere := by
  rw [makeDirectory, hlocate]
  exact if_pos hsome

theorem makeDirectory_of_none {key : Key} (hlocate : disk.locate cwd p = .ok key)
    (hnone : disk.get? key = none) :
    disk.makeDirectory cwd p = .ok (disk.put key .directory) := by
  rw [makeDirectory, hlocate]
  exact if_neg (by simp [hnone])

theorem isDirectory_eq_true_iff {key : Key} (hlocate : disk.locate cwd p = .ok key) :
    disk.isDirectory cwd p = true ↔ disk.get? key = some .directory := by
  rw [isDirectory, entry?, hlocate, beq_iff_eq]

theorem isDirectory_of_error {fault : FileFault} (hlocate : disk.locate cwd p = .error fault) :
    disk.isDirectory cwd p = false := by
  rw [isDirectory, entry?, hlocate]
  rfl

/-! ## Making all directories -/

/-- The directories up to the key of a path are there now, and nothing else has changed. -/
def Change.Makes (change : Change) (disk : Disk) (key : Key) : Prop :=
  ¬View.FileOn disk.get? key ∧ change.result = .ok () ∧
    change.disk.get? = View.withDirectories disk.get? key

/-- A file is in the way, and nothing has changed. -/
def Change.IsRefused (change : Change) (disk : Disk) (key : Key) : Prop :=
  View.FileOn disk.get? key ∧ change.disk = disk ∧
    ∃ p fault, change.result = .error (p, fault) ∧ fault ≠ .notFound

/-- A directory that is there need not be made. -/
theorem makes_acceptDirectory {key : Key} {fault : FileFault} (htree : View.IsTree disk.get?)
    (hlocate : disk.locate cwd p = .ok key) (hdirectory : disk.get? key = some .directory) :
    (acceptDirectory disk cwd p fault).Makes disk key := by
  refine ⟨htree.not_fileOn_of_directory hdirectory, ?_,
    (htree.withDirectories_of_directory hdirectory).symm⟩
  rw [acceptDirectory, if_pos ((isDirectory_eq_true_iff hlocate).mpr hdirectory)]

theorem isRefused_acceptDirectory {key : Key} {fault : FileFault}
    (hfile : View.FileOn disk.get? key) (hother : disk.isDirectory cwd p = false)
    (hfault : fault ≠ .notFound) :
    (acceptDirectory disk cwd p fault).IsRefused disk key := by
  refine ⟨hfile, rfl, p, fault, ?_, hfault⟩
  rw [acceptDirectory, hother]
  rfl

/-- A directory made in a directory completes the way to it. -/
theorem get?_put_directory {key : Key} {part : String} (htree : View.IsTree disk.get?)
    (hparent : disk.get? key = some .directory) (hnone : disk.get? (key ++ [part]) = none) :
    (disk.put (key ++ [part]) .directory).get? =
      View.withDirectories disk.get? (key ++ [part]) := by
  funext other
  rw [get?_put (by simp), View.withDirectories]
  by_cases heq : other = key ++ [part]
  · subst heq
    rw [if_pos rfl, if_pos ⟨List.prefix_rfl, hnone⟩]
  · rw [if_neg heq, if_neg]
    rintro ⟨hbegins, hmissing⟩
    rcases List.prefix_concat_iff.mp hbegins with hsame | habove
    · exact heq hsame
    · rw [htree.directory_of_isPrefix_directory hparent habove] at hmissing
      cases hmissing

/-- Once the directories up to a key are made the disk is still a tree, the key is a directory
and all directories are there. -/
theorem tree_of_made {made : Disk} {key : Key} (htree : View.IsTree disk.get?)
    (hclear : ¬View.FileOn disk.get? key)
    (hview : made.get? = View.withDirectories disk.get? key) :
    View.IsTree made.get? ∧ made.get? key = some .directory ∧
      ∀ other, disk.get? other = some .directory → made.get? other = some .directory := by
  rw [hview]
  refine ⟨htree.withDirectories hclear, View.withDirectories_self hclear, fun other hother => ?_⟩
  rw [View.withDirectories_of_some (by simp [hother]), hother]

/-- Below directories that have just been made the next one can be made. -/
theorem makeDirectory_of_made {made : Disk} {key : Key} {part : String}
    (htree : View.IsTree disk.get?) (hstart : disk.get? (startOf cwd p.root) = some .directory)
    (hdots : ".." ∉ p.parts) (hkey : keyOf cwd p = key ++ [part])
    (hparent : keyOf cwd p.parent = key) (hbelow : disk.get? (key ++ [part]) = none)
    (hclear : ¬View.FileOn disk.get? key) (hview : made.get? = View.withDirectories disk.get? key) :
    ∃ disk', made.makeDirectory cwd p = .ok disk' ∧
      disk'.get? = View.withDirectories disk.get? (key ++ [part]) := by
  obtain ⟨hmade, hdirectory, hkeep⟩ := tree_of_made htree hclear hview
  have hlocate := locate_of_directory hmade (hkeep _ hstart) hdots (hparent ▸ hdirectory)
  rw [hkey] at hlocate
  have hstill : made.get? (key ++ [part]) = none := by
    rw [hview, View.withDirectories, if_neg, hbelow]
    rintro ⟨hbegins, -⟩
    have hlength := hbegins.length_le
    rw [List.length_append, List.length_singleton] at hlength
    omega
  refine ⟨_, makeDirectory_of_none hlocate hstill, ?_⟩
  rw [get?_put_directory hmade hdirectory hstill, hview, View.withDirectories_concat]

/-- A name in a directory is made or is there already, unless a file has it. -/
theorem makeDirectoriesFrom_of_directory {root part : String} {above : List String} {key : Key}
    (htree : View.IsTree disk.get?)
    (hlocate : disk.locate cwd ⟨root, (part :: above).reverse⟩ = .ok (key ++ [part]))
    (hdirectory : disk.get? key = some .directory) :
    (makeDirectoriesFrom cwd root (part :: above) disk).Makes disk (key ++ [part]) ∨
      (makeDirectoriesFrom cwd root (part :: above) disk).IsRefused disk (key ++ [part]) := by
  rw [makeDirectoriesFrom]
  cases hentry : disk.get? (key ++ [part]) with
  | none =>
    simp only [makeDirectory_of_none hlocate hentry]
    refine Or.inl ⟨?_, rfl, get?_put_directory htree hdirectory hentry⟩
    exact View.not_fileOn_concat (htree.not_fileOn_of_directory hdirectory) hentry
  | some entry =>
    simp only [makeDirectory_of_some hlocate (by simp [hentry])]
    cases entry with
    | directory => exact Or.inl (makes_acceptDirectory htree hlocate hentry)
    | file bytes =>
      refine Or.inr (isRefused_acceptDirectory ⟨_, List.prefix_rfl, bytes, hentry⟩ ?_ (by simp))
      rw [← Bool.not_eq_true, isDirectory_eq_true_iff hlocate, hentry]
      simp

/-- Where the directory of a name is missing it is made first, and the name in it. -/
theorem makes_of_missing {root part : String} {above : List String} {key : Key}
    (htree : View.IsTree disk.get?) (hstart : disk.get? (startOf cwd root) = some .directory)
    (hdots : ".." ∉ (part :: above).reverse)
    (hkey : keyOf cwd ⟨root, (part :: above).reverse⟩ = key ++ [part])
    (hparent : keyOf cwd (Path.parent ⟨root, (part :: above).reverse⟩) = key)
    (hlocate : disk.locate cwd ⟨root, (part :: above).reverse⟩ = .error .notFound)
    (hmissing : disk.get? key = none) (hclear : ¬View.FileOn disk.get? key)
    (habove : (makeDirectoriesFrom cwd root above disk).Makes disk key) :
    (makeDirectoriesFrom cwd root (part :: above) disk).Makes disk (key ++ [part]) := by
  obtain ⟨-, hresult, hview⟩ := habove
  have hbelow : disk.get? (key ++ [part]) = none := by
    by_contra hsome
    rw [htree.parent _ _ hsome] at hmissing
    cases hmissing
  obtain ⟨disk', hlast, hview'⟩ := makeDirectory_of_made (p := ⟨root, (part :: above).reverse⟩)
    htree hstart hdots hkey hparent hbelow hclear hview
  rw [makeDirectoriesFrom]
  simp only [makeDirectory_of_error hlocate, hresult, hlast]
  exact ⟨View.not_fileOn_concat hclear hbelow, rfl, hview'⟩

/-- The loop goes up from a path until it meets a directory or a file, and then down again. -/
theorem makeDirectoriesFrom_cases {root : String} (reversed : List String) (disk : Disk)
    (htree : View.IsTree disk.get?) (hstart : disk.get? (startOf cwd root) = some .directory)
    (hdots : ".." ∉ reversed) :
    (makeDirectoriesFrom cwd root reversed disk).Makes disk
        (keyOf cwd ⟨root, reversed.reverse⟩) ∨
      (makeDirectoriesFrom cwd root reversed disk).IsRefused disk
        (keyOf cwd ⟨root, reversed.reverse⟩) := by
  induction reversed with
  | nil =>
    have hlocate : disk.locate cwd ⟨root, []⟩ = .ok (startOf cwd root) := rfl
    have hkey : keyOf cwd ⟨root, [].reverse⟩ = startOf cwd root := List.append_nil _
    rw [makeDirectoriesFrom, hkey]
    simp only [List.reverse_nil, makeDirectory_of_some hlocate (by simp [hstart])]
    exact Or.inl (makes_acceptDirectory htree hlocate hstart)
  | cons part above ih =>
    rw [List.mem_cons, not_or] at hdots
    have hdots' : ".." ∉ (part :: above).reverse := by simpa using ⟨hdots.2, hdots.1⟩
    have hkey : keyOf cwd ⟨root, (part :: above).reverse⟩ =
        keyOf cwd ⟨root, above.reverse⟩ ++ [part] := by
      simp [keyOf]
    have hparent : keyOf cwd (Path.parent ⟨root, (part :: above).reverse⟩) =
        keyOf cwd ⟨root, above.reverse⟩ := by
      simp [keyOf, Path.parent]
    have hcases := locate_cases (p := ⟨root, (part :: above).reverse⟩) htree hstart hdots'
    rw [hkey, hparent] at hcases
    rw [hkey]
    rcases hcases with ⟨hlocate, hdirectory⟩ | ⟨hlocate, hfile⟩ | ⟨hlocate, hmissing, hclear⟩
    · exact makeDirectoriesFrom_of_directory htree hlocate hdirectory
    · rw [makeDirectoriesFrom]
      simp only [makeDirectory_of_error hlocate]
      exact Or.inr (isRefused_acceptDirectory (hfile.of_isPrefix (List.prefix_append _ _))
        (isDirectory_of_error hlocate) (by simp))
    · -- No file is in the way of a directory that is missing, so it can be made.
      have habove := (ih hdots.2).resolve_right fun hrefused => hclear hrefused.1
      exact Or.inl (makes_of_missing htree hstart hdots' hkey hparent hlocate hmissing hclear habove)

/-- Making the directories of a path makes all of them, or a file is in the way. -/
theorem makeDirectories_cases (htree : View.IsTree disk.get?)
    (hstart : disk.get? (startOf cwd p.root) = some .directory) (hdots : ".." ∉ p.parts) :
    (disk.makeDirectories cwd p).Makes disk (keyOf cwd p) ∨
      (disk.makeDirectories cwd p).IsRefused disk (keyOf cwd p) := by
  have hcases := makeDirectoriesFrom_cases p.parts.reverse disk htree hstart (by simpa using hdots)
  rwa [List.reverse_reverse] at hcases

end Backfield.Disk
