import Backfield.Proofs.Delivery.Preparation
import Backfield.Proofs.Disk.Files

/-!
# What a delivery writes

Once the checks are passed, files are written one after the other.  Each of them is delivered,
with the directories that lead to it, or it is blocked and leaves everything as it was.  So a
delivery that stops has delivered the first files of its batch, and no more.

* `writeFile_eq` says that both ways of writing a file end alike.
* `writeFile_cases` is the step.
* `StopsAfter` says where writing stops, and `exists_stopsAfter_writeAll` that it does.
* `exists_stopsAfter_deliver` is the result for a batch of artifacts on a tree.
* `deliver_atomic_eq_plain` says that the way of writing does not matter to a batch.
-/

namespace Backfield

/-! ## Files one after the other -/

namespace View

/-- The view after files have been delivered one after the other. -/
def deliveredAll (look : View) (files : List (Key × List UInt8)) : View :=
  files.foldl (fun look file => look.delivered file.1 file.2) look

/-- Nothing blocks the files while they are delivered one after the other. -/
def Accepts : View → List (Key × List UInt8) → Prop
  | _, [] => True
  | look, file :: rest => ¬look.Blocked file.1 ∧ Accepts (look.delivered file.1 file.2) rest

end View

/-- The bytes of a text are those that Lean keeps it in. -/
theorem Text.Utf8.encode_eq (text : String) :
    Text.Utf8.encode text = text.toUTF8.data.toList := by
  have hbytes : text.toUTF8 = text.toList.utf8Encode := String.utf8Encode_toList.symm
  rw [Text.Utf8.encode, hbytes, List.utf8Encode, List.toList_data_toByteArray]

namespace Delivery

variable {atomic : Bool} {disk : Disk} {cwd : Key} {p : Path} {text : String}

/-! ## One file -/

/-- It does not matter whether a file is written by way of a temporary one. -/
theorem writeFile_eq (atomic : Bool) (cwd : Key) (disk : Disk) (p : Path) (text : String) :
    writeFile atomic cwd disk p text = writeFile false cwd disk p text := by
  cases atomic with
  | true =>
    rw [writeFile, writeFile]
    simp only [Disk.writeAtomically_eq_writeBytes, if_true, Bool.false_eq_true, if_false]
  | false => rfl

/-- The file has been delivered. -/
def Delivers (change : Disk.Change) (disk : Disk) (key : Key) (bytes : List UInt8) : Prop :=
  ¬View.Blocked disk.get? key ∧ change.result = .ok () ∧
    change.disk.get? = View.delivered disk.get? key bytes

/-- The file is blocked, and nothing has changed. -/
def IsBlocked (change : Disk.Change) (disk : Disk) (key : Key) : Prop :=
  View.Blocked disk.get? key ∧ change.disk.get? = disk.get? ∧
    ∃ p fault, change.result = .error (p, fault) ∧ fault ≠ .notFound

/-- A file on the way to the directory of a path blocks the path. -/
theorem blocked_of_fileOn_parent (htree : View.IsTree disk.get?)
    (hstart : disk.get? (Disk.startOf cwd p.root) = some .directory)
    (hfile : View.FileOn disk.get? (Disk.keyOf cwd p.parent)) :
    View.Blocked disk.get? (Disk.keyOf cwd p) := by
  have hparts : p.parts ≠ [] := by
    intro hnil
    rw [(Disk.keyOf_eq_startOf hnil).2] at hfile
    exact htree.not_fileOn_of_directory hstart hfile
  rw [Disk.keyOf_parent_eq_dropLast hparts] at hfile
  exact Or.inr hfile

/-- A file written into a directory that has just been made is delivered. -/
theorem delivers_of_writes {made : Disk} {change : Disk.Change} {bytes : List UInt8}
    (htree : View.IsTree disk.get?)
    (hclear : ¬View.FileOn disk.get? (Disk.keyOf cwd p.parent))
    (hview : made.get? = View.withDirectories disk.get? (Disk.keyOf cwd p.parent))
    (hwrites : change.Writes made (Disk.keyOf cwd p) bytes) :
    Delivers change disk (Disk.keyOf cwd p) bytes := by
  obtain ⟨hfree, hresult, hwritten⟩ := hwrites
  have hparts : p.parts ≠ [] := by
    intro hnil
    have hself := View.withDirectories_self hclear
    rw [← hview, (Disk.keyOf_eq_startOf hnil).2, ← (Disk.keyOf_eq_startOf hnil).1] at hself
    exact hfree hself
  rw [Disk.keyOf_parent_eq_dropLast hparts] at hclear hview
  rw [hview, htree.withDirectories_dropLast] at hfree
  refine ⟨?_, hresult, by rw [hwritten, hview]; rfl⟩
  rintro (hdirectory | hfile)
  · exact hfree hdirectory
  · exact hclear hfile

theorem isBlocked_of_meetsDirectory {made : Disk} {change : Disk.Change}
    (htree : View.IsTree disk.get?)
    (hstart : disk.get? (Disk.startOf cwd p.root) = some .directory)
    (hview : made.get? = View.withDirectories disk.get? (Disk.keyOf cwd p.parent))
    (hmeets : change.MeetsDirectory made (Disk.keyOf cwd p)) :
    IsBlocked change disk (Disk.keyOf cwd p) := by
  obtain ⟨hdirectory, hsame, q, hresult⟩ := hmeets
  have hbefore : disk.get? (Disk.keyOf cwd p) = some .directory := by
    by_cases hparts : p.parts = []
    · rw [(Disk.keyOf_eq_startOf hparts).1, hstart]
    · rw [Disk.keyOf_parent_eq_dropLast hparts] at hview
      rwa [hview, htree.withDirectories_dropLast] at hdirectory
  have hparent : disk.get? (Disk.keyOf cwd p.parent) = some .directory :=
    htree.directory_of_isPrefix_directory hbefore Disk.keyOf_parent_isPrefix
  refine ⟨Or.inl hbefore, ?_, q, .isDirectory, hresult, by simp⟩
  rw [hsame, hview, htree.withDirectories_of_directory hparent]

/-- A file is delivered, or it is blocked and nothing changes. -/
theorem writeFile_cases (htree : View.IsTree disk.get?)
    (hstart : disk.get? (Disk.startOf cwd p.root) = some .directory) (hdots : ".." ∉ p.parts) :
    Delivers (writeFile atomic cwd disk p text) disk (Disk.keyOf cwd p)
        (Text.Utf8.encode text) ∨
      IsBlocked (writeFile atomic cwd disk p text) disk (Disk.keyOf cwd p) := by
  rw [writeFile_eq, writeFile]
  rcases Disk.makeDirectories_cases (p := p.parent) htree hstart
    (Disk.dots_not_mem_parent hdots) with
    ⟨hclear, hresult, hview⟩ | ⟨hfile, hsame, q, fault, hresult, hfault⟩
  · simp only [hresult]
    generalize (disk.makeDirectories cwd p.parent).disk = made at hview ⊢
    obtain ⟨hmade, hparent, hkeep⟩ := Disk.tree_of_made htree hclear hview
    exact (Disk.writeBytes_cases hmade (hkeep _ hstart) hdots hparent).imp
      (delivers_of_writes htree hclear hview) (isBlocked_of_meetsDirectory htree hstart hview)
  · simp only [hresult]
    refine Or.inr ⟨blocked_of_fileOn_parent htree hstart hfile, ?_, q, fault, hresult, hfault⟩
    rw [hsame]

/-! ## A batch of files -/

/-- Where a file goes, and the bytes that it holds there. -/
def placeOf (cwd : Key) (file : Path × String) : Key × List UInt8 :=
  (Disk.keyOf cwd file.1, file.2.toUTF8.data.toList)

/-- Writing stops after the first files of a batch. -/
structure StopsAfter (outcome : Outcome) (disk : Disk) (cwd : Key) (files : List (Path × String))
    (k : Nat) : Prop where
  le : k ≤ files.length
  /-- Those files have been delivered in order, and nothing else has changed. -/
  view : outcome.disk.get? = View.deliveredAll disk.get? ((files.take k).map (placeOf cwd))
  accepts : View.Accepts disk.get? ((files.take k).map (placeOf cwd))
  /-- Those are all files, or the next one is blocked. -/
  ends : (k = files.length ∧ outcome.written.outcome = .ok (files.map Prod.fst)) ∨
    ∃ file, files[k]? = some file ∧ View.Blocked outcome.disk.get? (placeOf cwd file).1 ∧
      ∃ path fault, outcome.written.outcome = .error (.file path fault) ∧ fault ≠ .notFound

/-- A path starts at the working directory or at the root. -/
theorem get?_startOf (hcwd : disk.get? cwd = some .directory) (root : String) :
    disk.get? (Disk.startOf cwd root) = some .directory := by
  rw [Disk.startOf]
  split
  · exact hcwd
  · rfl

theorem writeAll_of_ok (rest : List (Path × String))
    (hresult : (writeFile atomic cwd disk p text).result = .ok ()) :
    (writeAll atomic cwd disk ((p, text) :: rest)).disk =
        (writeAll atomic cwd (writeFile atomic cwd disk p text).disk rest).disk ∧
      (writeAll atomic cwd disk ((p, text) :: rest)).written.outcome =
        (writeAll atomic cwd (writeFile atomic cwd disk p text).disk rest).written.outcome.map
          (p :: ·) := by
  constructor
  · rw [writeAll]
    simp only [hresult]
  · rw [writeAll]
    simp only [hresult]
    rw [Traced.outcome_bind, Traced.outcome_log, Except.bind, Traced.outcome_bind]
    rfl

theorem writeAll_of_error (rest : List (Path × String)) {q : Path} {fault : FileFault}
    (hresult : (writeFile atomic cwd disk p text).result = .error (q, fault)) :
    writeAll atomic cwd disk ((p, text) :: rest) =
      ⟨(writeFile atomic cwd disk p text).disk, Traced.fail (.file q.text fault)⟩ := by
  rw [writeAll]
  simp only [hresult]

/-- It does not matter whether files are written by way of temporary ones: the step leaves the same
disk either way, so the next file meets the same disk. -/
theorem writeAll_eq (atomic : Bool) (cwd : Key) (disk : Disk) (files : List (Path × String)) :
    writeAll atomic cwd disk files = writeAll false cwd disk files := by
  induction files generalizing disk with
  | nil => rfl
  | cons file rest ih =>
    obtain ⟨p, text⟩ := file
    rw [writeAll, writeAll, writeFile_eq]
    simp only [ih]

/-- Writing goes on until a file is blocked. -/
theorem exists_stopsAfter_writeAll (files : List (Path × String))
    (htree : View.IsTree disk.get?) (hcwd : disk.get? cwd = some .directory)
    (hdots : ∀ file ∈ files, ".." ∉ file.1.parts) :
    ∃ k, StopsAfter (writeAll atomic cwd disk files) disk cwd files k := by
  induction files generalizing disk with
  | nil => exact ⟨0, Nat.le_refl 0, rfl, trivial, Or.inl ⟨rfl, rfl⟩⟩
  | cons file rest ih =>
    obtain ⟨p, text⟩ := file
    have hplace : placeOf cwd (p, text) = (Disk.keyOf cwd p, Text.Utf8.encode text) := by
      rw [placeOf, Text.Utf8.encode_eq]
    have hcases : Delivers (writeFile atomic cwd disk p text) disk (Disk.keyOf cwd p)
          (Text.Utf8.encode text) ∨
        IsBlocked (writeFile atomic cwd disk p text) disk (Disk.keyOf cwd p) :=
      writeFile_cases htree (get?_startOf hcwd p.root) (hdots _ List.mem_cons_self)
    rcases hcases with
      ⟨hclear, hresult, hview⟩ | ⟨hblocked, hview, q, fault, hresult, hfault⟩
    · obtain ⟨hdisk, hwritten⟩ := writeAll_of_ok rest hresult
      have htree' : View.IsTree (writeFile atomic cwd disk p text).disk.get? := by
        rw [hview]
        exact htree.delivered hclear
      have hcwd' : (writeFile atomic cwd disk p text).disk.get? cwd = some .directory := by
        rw [hview]
        exact View.delivered_of_directory hclear hcwd
      obtain ⟨k, hk⟩ := ih htree' hcwd' fun file hfile => hdots file (List.mem_cons_of_mem _ hfile)
      have hstate := hk.view
      have haccepts := hk.accepts
      rw [hview] at hstate haccepts
      refine ⟨k + 1, Nat.succ_le_succ hk.le, ?_, ?_, ?_⟩
      · rw [hdisk, hstate, List.take_succ_cons, List.map_cons, hplace]
        rfl
      · rw [List.take_succ_cons, List.map_cons, hplace]
        exact ⟨hclear, haccepts⟩
      · rw [hdisk, hwritten]
        rcases hk.ends with ⟨hlength, hpaths⟩ | ⟨file, hfile, hnext, path, fault, herror, hfault⟩
        · exact Or.inl ⟨congrArg Nat.succ hlength, by rw [hpaths]; rfl⟩
        · exact Or.inr ⟨file, hfile, hnext, path, fault, by rw [herror]; rfl, hfault⟩
    · refine ⟨0, Nat.zero_le _, ?_, trivial, Or.inr ⟨(p, text), rfl, ?_⟩⟩
      · rw [writeAll_of_error rest hresult, hview]
        rfl
      · rw [writeAll_of_error rest hresult, hview, hplace]
        exact ⟨hblocked, q.text, fault, rfl, hfault⟩

/-! ## A batch of artifacts -/

/-- The files that a batch is delivered in. -/
def filesOf (directory : Path) (artifacts : List Artifact) : List (Path × String) :=
  artifacts.map fun a => (pathOf directory a, a.text)

variable {settings : OutputSettings} {directory : Path} {artifacts : List Artifact}
  {targets : List Path} {problemIn? : String → Option Nat}

theorem prepare_eq_ok
    (hprepared : prepare settings disk cwd directory artifacts problemIn? = .ok targets) :
    targets = artifacts.map (pathOf directory) := by
  have hprepares := prepares_prepare problemIn? settings disk cwd directory artifacts
  rw [hprepared] at hprepares
  cases hprepares with
  | passed _ _ _ => rfl

theorem deliver_of_prepare_eq_ok
    (hprepared : prepare settings disk cwd directory artifacts problemIn? = .ok targets) :
    deliver settings disk cwd directory artifacts problemIn? =
      writeAll settings.atomic.isTrue cwd disk (filesOf directory artifacts) := by
  rw [deliver, hprepared]
  dsimp only
  rw [prepare_eq_ok hprepared, List.zip_map', filesOf]

theorem dots_not_mem_pathOf {a : Artifact} (hdirectory : ".." ∉ directory.parts)
    (hname : ".." ∉ (Path.ofText a.name.display).parts) :
    ".." ∉ (pathOf directory a).parts := by
  rw [pathOf, Path.join]
  split
  · simpa using ⟨hdirectory, hname⟩
  · exact hname

/-- On a tree, a batch that passes the checks is delivered up to its first artifact that is
blocked, and nothing else changes. -/
theorem exists_stopsAfter_deliver (htree : disk.IsTree)
    (hcwd : disk.get? cwd = some .directory) (hdirectory : ".." ∉ directory.parts)
    (hnames : ∀ a ∈ artifacts, ".." ∉ (Path.ofText a.name.display).parts)
    (hprepared : prepare settings disk cwd directory artifacts problemIn? = .ok targets) :
    ∃ k, StopsAfter (deliver settings disk cwd directory artifacts problemIn?) disk cwd
      (filesOf directory artifacts) k := by
  rw [deliver_of_prepare_eq_ok hprepared]
  refine exists_stopsAfter_writeAll _ (Disk.isTree_iff.mp htree) hcwd fun file hfile => ?_
  obtain ⟨a, ha, rfl⟩ := List.mem_map.mp hfile
  exact dots_not_mem_pathOf hdirectory (hnames a ha)

/-- The second artifact is to stand below the first one, which is a file by then. -/
theorem exists_stopsAfter_deliver_nested :
    let disk : Disk := ⟨[(["w"], .directory), (["w", "notes"], .file [65])]⟩
    let directory := Path.ofText "out"
    let artifacts : List Artifact :=
      [⟨.text "a/x.cs", "class A { }"⟩, ⟨.text "a/x.cs/y.cs", "class B { }"⟩,
        ⟨.text "z.cs", "class C { }"⟩]
    disk.IsTree ∧ disk.get? ["w"] = some .directory ∧ ".." ∉ directory.parts ∧
      (∀ a ∈ artifacts, ".." ∉ (Path.ofText a.name.display).parts) ∧
      prepare {} disk ["w"] directory artifacts = .ok (artifacts.map (pathOf directory)) ∧
      ∃ k, StopsAfter (deliver {} disk ["w"] directory artifacts) disk ["w"]
        (filesOf directory artifacts) k := by
  intro disk directory artifacts
  have htree : disk.IsTree := by decide
  have hdirectory : ".." ∉ directory.parts := by decide
  have hnames : ∀ a ∈ artifacts, ".." ∉ (Path.ofText a.name.display).parts := by decide
  have hprepared : prepare {} disk ["w"] directory artifacts =
      .ok (artifacts.map (pathOf directory)) := by decide +kernel
  exact ⟨htree, rfl, hdirectory, hnames, hprepared,
    exists_stopsAfter_deliver htree rfl hdirectory hnames hprepared⟩

/-- Whether a batch is written by way of temporary files or at once, it is returned the same paths
or fails in the same way, with the same messages, and leaves the same disk.  This is so in either
mode, with or without validation, and whatever grammar validates.

It is about trees of files and directories, and names that lead to a place below the directory.
Over a link to a file the two ways part.  Over a name that ends in a double dot both fail, but a
system may report that the directory is busy to one of them. -/
theorem deliver_atomic_eq_plain (problemIn? : String → Option Nat) (settings : OutputSettings)
    (disk : Disk) (cwd : Key) (directory : Path) (artifacts : List Artifact) :
    deliver { settings with atomic := .bool true } disk cwd directory artifacts problemIn? =
      deliver { settings with atomic := .bool false } disk cwd directory artifacts problemIn? := by
  have hprepare :
      prepare { settings with atomic := .bool true } disk cwd directory artifacts problemIn? =
        prepare { settings with atomic := .bool false } disk cwd directory artifacts problemIn? :=
    rfl
  rw [deliver, deliver, hprepare]
  cases prepare { settings with atomic := .bool false } disk cwd directory artifacts problemIn? with
  | error e => rfl
  | ok targets => exact writeAll_eq _ cwd disk _

end Delivery

end Backfield
