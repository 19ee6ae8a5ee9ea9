import Backfield.Proofs.CommandLine.Outcomes
import Backfield.Proofs.Delivery.Preservation
import Backfield.Proofs.Settings.OutputMode

/-!
# Permission to overwrite files

A run overwrites files only if it has been told to, by a flag or by its settings document.  A dry
run changes nothing at all.

* `disk_run` says that only requests change the disk.
* `exists_of_mayOverwrite_settingsOf` says where a permission can come from, and
  `exists_refuse_of_prepared` that without one the mode is to refuse.  Any other mode does not get
  past the listing of the settings.
* `run_keeps_files` is the result for a whole run.
-/

namespace Backfield.CommandLine

variable {disk : Disk} {cwd : Key} {r : Request} {interrupted : Bool}

/-! ## The request of a command line -/

/-- A run changes the disk as its request does. -/
theorem disk_run (disk : Disk) (cwd : Key) (time : String) (interrupted : Bool)
    (args : List String) :
    (run disk cwd time interrupted args).disk =
      ((requestOf? disk cwd args).map fun r =>
        (perform disk cwd r interrupted).disk).getD disk := by
  cases hrequest : requestOf? disk cwd args with
  | none =>
    obtain ⟨result, hdisk, hrun⟩ := exists_of_no_request hrequest
    rw [hrun, hdisk]
    rfl
  | some r =>
    rw [run_of_request hrequest, disk_result]
    rfl

/-- A path without its dots has no double dots. -/
theorem dots_not_mem_dropDots (parts : List String) : ".." ∉ dropDots parts := by
  induction parts using List.reverseRecOn with
  | nil => exact List.not_mem_nil
  | append_singleton parts part ih =>
    rw [dropDots, List.foldl_append, ← dropDots, List.foldl_cons, List.foldl_nil]
    split
    · exact fun hmem => ih (List.dropLast_subset _ hmem)
    · rename_i hpart
      rw [List.mem_append, List.mem_singleton, not_or]
      exact ⟨ih, fun heq => hpart (beq_iff_eq.mpr heq.symm)⟩

theorem dots_not_mem_resolvePath (cwd : Key) (text : String) :
    ".." ∉ (resolvePath cwd text).parts := by
  rw [resolvePath]
  split <;> exact dots_not_mem_dropDots _

/-- The directory of a request is a full path, in which double dots have been followed already. -/
theorem dots_not_mem_output {args : List String} (h : requestOf? disk cwd args = some r) :
    ".." ∉ r.output.parts := by
  obtain ⟨a, -, -, hmakes⟩ := requestOf?_eq_some_iff.mp h
  rw [hmakes.output]
  exact dots_not_mem_resolvePath _ _

/-! ## The settings of a request -/

/-- The document in the file that a request names for its settings. -/
def Request.document? (disk : Disk) (cwd : Key) (r : Request) : Option Value :=
  r.config.bind fun p => (disk.readBytes cwd p).toOption.bind fun bytes =>
    (Text.Utf8.decodeFrom 0 bytes).toOption.bind fun chars => Json.parse? (String.ofList chars)

/-- Settings in a file are those of the document that it holds. -/
theorem exists_of_settingsOfBytes_eq_ok {bytes : List UInt8} {settings : Settings}
    (h : settingsOfBytes bytes = .ok settings) :
    ∃ chars document, Text.Utf8.decodeFrom 0 bytes = .ok chars ∧
      Json.parse? (String.ofList chars) = some document ∧
      Settings.ofValue document = .ok settings := by
  rw [settingsOfBytes] at h
  split at h
  · cases h
  · rename_i chars hchars
    split at h
    · cases h
    · rename_i document hparse
      exact ⟨chars, document, hchars, hparse, h⟩

/-- A permission in a settings file comes from the `output` mode of its document. -/
theorem exists_of_mayOverwrite_fileSettings {settings : Settings}
    (h : fileSettings disk cwd r = .ok settings) (hs : settings.MayOverwrite) :
    ∃ document, r.document? disk cwd = some document ∧
      Settings.documentMode? document = some (.text "force") := by
  rw [fileSettings] at h
  split at h
  · cases h
    exact absurd hs Settings.not_mayOverwrite_default
  · rename_i p hconfig
    split at h
    · cases h
    · rename_i bytes hbytes
      obtain ⟨chars, document, hchars, hparse, hof⟩ := exists_of_settingsOfBytes_eq_ok h
      refine ⟨document, ?_, Settings.documentMode?_of_mayOverwrite hparse hof hs⟩
      simp only [Request.document?, hconfig, hbytes, hchars, Except.toOption, Option.bind_some,
        hparse]

/-- Changes that leave the mode alone neither give nor take a permission. -/
theorem mayOverwrite_mapOutput_iff {settings settings' : Settings}
    {change : OutputSettings → OutputSettings}
    (hchange : ∀ output, (change output).mode = output.mode)
    (h : settings.mapOutput change = .ok settings') :
    settings'.MayOverwrite ↔ settings.MayOverwrite := by
  rw [Settings.mapOutput] at h
  split at h
  · rename_i output houtput
    cases h
    constructor
    · rintro ⟨output', heq, hmode⟩
      cases heq
      exact ⟨output, houtput, (hchange output).symm.trans hmode⟩
    · rintro ⟨output', heq, hmode⟩
      rw [houtput] at heq
      cases heq
      exact ⟨change output, rfl, (hchange output).trans hmode⟩
  · cases h

/-- The settings that a flag changes, or leaves as they are. -/
def changedBy (flag : Bool) (change : OutputSettings → OutputSettings) (settings : Settings) :
    Except Error Settings :=
  if flag then settings.mapOutput change else .ok settings

/-- Settings are read, and then two flags and a third one change them. -/
theorem exists_of_settingsOf_eq_ok {settings : Settings}
    (h : settingsOf disk cwd r = .ok settings) :
    ∃ read forced, fileSettings disk cwd r = .ok read ∧
      changedBy (r.has .force) ({ · with mode := .mode .overwrite }) read = .ok forced ∧
      (settings.MayOverwrite ↔ forced.MayOverwrite) := by
  have hsteps : settingsOf disk cwd r =
      (fileSettings disk cwd r).bind fun read =>
        (changedBy (r.has .force) ({ · with mode := .mode .overwrite }) read).bind fun forced =>
          (changedBy (r.has .noValidate) ({ · with validate := .bool false }) forced).map
            fun checked =>
              if r.has .simpleNames then { checked with qualifyNames := .bool false }
              else checked := by
    rw [settingsOf]
    cases r.has .force <;> cases r.has .noValidate <;> rfl
  rw [hsteps] at h
  obtain ⟨read, hread, h⟩ := exists_of_bind_eq_ok h
  obtain ⟨forced, hforced, h⟩ := exists_of_bind_eq_ok h
  obtain ⟨checked, hchecked, rfl⟩ := exists_of_map_eq_ok h
  have hmode : checked.MayOverwrite ↔ forced.MayOverwrite := by
    rw [changedBy] at hchecked
    split at hchecked
    · refine mayOverwrite_mapOutput_iff ?_ hchecked
      exact fun _ => rfl
    · cases hchecked
      rfl
  refine ⟨read, forced, hread, hforced, ?_⟩
  split
  · exact hmode
  · exact hmode

/-- Without the flag, a permission comes from the settings document. -/
theorem exists_of_mayOverwrite_settingsOf {settings : Settings}
    (h : settingsOf disk cwd r = .ok settings) (hforce : r.has .force = false)
    (hs : settings.MayOverwrite) :
    ∃ document, r.document? disk cwd = some document ∧
      Settings.documentMode? document = some (.text "force") := by
  obtain ⟨read, forced, hread, hforced, hmode⟩ := exists_of_settingsOf_eq_ok h
  rw [hforce] at hforced
  cases hforced
  exact exists_of_mayOverwrite_fileSettings hread (hmode.mp hs)

/-- With the flag, there is a permission. -/
theorem mayOverwrite_of_force {settings : Settings} (h : settingsOf disk cwd r = .ok settings)
    (hforce : r.has .force = true) : settings.MayOverwrite := by
  obtain ⟨read, forced, -, hforced, hmode⟩ := exists_of_settingsOf_eq_ok h
  rw [hforce, changedBy, if_pos rfl, Settings.mapOutput] at hforced
  apply hmode.mpr
  split at hforced
  · cases hforced
    exact ⟨_, rfl, rfl⟩
  · cases hforced

/-! ## Requests without a permission -/

/-- The request has no permission to overwrite files, neither by a flag nor by its settings
document, and no artifact of it has a double dot in its name. -/
structure Request.IsCautious (disk : Disk) (cwd : Key) (interrupted : Bool) (r : Request) :
    Prop where
  flag : r.has .force = false
  document : ∀ document, r.document? disk cwd = some document →
    Settings.documentMode? document ≠ some (.text "force")
  names : ∀ settings artifacts,
    (prepared disk cwd r interrupted).outcome = .ok (settings, artifacts) →
      ∀ a ∈ artifacts, ".." ∉ (Path.ofText a.name.display).parts

/-- Settings get past their listing only with one of the two modes, and without a permission this
is to refuse. -/
theorem exists_refuse_of_prepared {settings : Settings} {artifacts : List Artifact}
    (hcautious : r.IsCautious disk cwd interrupted)
    (h : (prepared disk cwd r interrupted).outcome = .ok (settings, artifacts)) :
    ∃ output, settings.output = .settings output ∧ output.mode = .mode .refuse := by
  obtain ⟨hsettings, ⟨listed, hlisted⟩, -⟩ := prepared_eq_ok_iff.mp h
  refine Settings.exists_refuse_of_toEntries hlisted fun hmay => ?_
  obtain ⟨document, hdocument, hmode⟩ :=
    exists_of_mayOverwrite_settingsOf hsettings hcautious.flag hmay
  exact hcautious.document document hdocument hmode

/-- A request without a permission leaves all files as they are. -/
theorem get?_perform_of_file (htree : disk.IsTree) (hcwd : disk.get? cwd = some .directory)
    (hdots : ".." ∉ r.output.parts) (hcautious : r.IsCautious disk cwd interrupted) {key : Key}
    {bytes : List UInt8} (hfile : disk.get? key = some (.file bytes)) :
    (perform disk cwd r interrupted).disk.get? key = some (.file bytes) := by
  rw [perform]
  cases hprepared : (prepared disk cwd r interrupted).outcome with
  | error e => exact hfile
  | ok made =>
    obtain ⟨settings, artifacts⟩ := made
    obtain ⟨output, houtput, hmode⟩ := exists_refuse_of_prepared hcautious hprepared
    simp only [houtput]
    split
    · exact hfile
    · exact Delivery.get?_deliver_of_file htree hcwd hdots
        (hcautious.names settings artifacts hprepared) hmode hfile

theorem disk_perform_of_dryRun (h : r.has .dryRun = true) :
    (perform disk cwd r interrupted).disk = disk := by
  rw [perform]
  cases hprepared : (prepared disk cwd r interrupted).outcome with
  | error e => rfl
  | ok made =>
    dsimp only
    rw [if_pos h]

/-! ## Whole runs -/

/-- A dry run leaves the disk as it is, also with the flag that allows overwriting.  Any other run
without a permission leaves all files as they are that have been there before, however it ends. -/
theorem run_keeps_files (disk : Disk) (cwd : Key) (time : String) (interrupted : Bool)
    (args : List String) :
    (∀ r, requestOf? disk cwd args = some r → r.has .dryRun = true →
        (run disk cwd time interrupted args).disk = disk) ∧
      (disk.IsTree → disk.get? cwd = some .directory →
        (∀ r, requestOf? disk cwd args = some r → r.IsCautious disk cwd interrupted) →
          ∀ key bytes, disk.get? key = some (.file bytes) →
            (run disk cwd time interrupted args).disk.get? key = some (.file bytes)) := by
  rw [disk_run]
  cases hrequest : requestOf? disk cwd args with
  | none => exact ⟨fun _ _ _ => rfl, fun _ _ _ _ _ hfile => hfile⟩
  | some r =>
    refine ⟨fun r' hr hdry => ?_, fun htree hcwd hcautious key bytes hfile => ?_⟩
    · cases hr
      exact disk_perform_of_dryRun hdry
    · exact get?_perform_of_file htree hcwd (dots_not_mem_output hrequest) (hcautious r rfl) hfile

/-- The artifact of the class is to stand below a file.  By then the marker's artifact has been
written, and the run fails, but the file is still there.  A dry run with the flag that allows
overwriting writes nothing. -/
theorem run_keeps_files_halfway :
    let source :=
      "using ReactiveObject.Generators; partial class Car \x7b [ReactiveProperty] int s; \x7d"
    let settings := "\x7b\"artifact_suffix\": \"/x.cs\"\x7d"
    let disk : Disk := ⟨[
      (["w"], .directory),
      (["w", "Car.cs"], .file (Text.Utf8.encode source)),
      (["w", "s.json"], .file (Text.Utf8.encode settings)),
      (["w", "Car"], .file [65])]⟩
    let args := ["--config", "s.json", "--no-validate", "Car.cs"]
    (disk.IsTree ∧ disk.get? ["w"] = some .directory ∧
      ∀ r, requestOf? disk ["w"] args = some r → r.IsCautious disk ["w"] false) ∧
    (run disk ["w"] "12:00" false ("--dry-run" :: "--force" :: args)).disk = disk ∧
    let done := run disk ["w"] "12:00" false args
    done.exitCode = 1 ∧ (done.disk.get? ["w", "ReactivePropertyAttribute.g.cs"]).isSome = true ∧
      done.disk.get? ["w", "Car"] = some (.file [65]) := by
  intro source settings disk args
  let request : Request := {
    output := ⟨"/", ["w"]⟩
    config := some ⟨"/", ["w", "s.json"]⟩
    sources := [⟨"/", ["w", "Car.cs"]⟩]
    flags := [.noValidate] }
  have htree : disk.IsTree := by decide +kernel
  have hcwd : disk.get? ["w"] = some .directory := by decide +kernel
  have hfile : disk.get? ["w", "Car"] = some (.file [65]) := by decide +kernel
  have hrequest : requestOf? disk ["w"] args = some request := by decide +kernel
  have hcautious : request.IsCautious disk ["w"] false := by
    refine ⟨rfl, fun document hdocument => ?_, fun made artifacts hmade => ?_⟩
    · have hread : request.document? disk ["w"] =
          some (.object [("artifact_suffix", .text "/x.cs")]) := by
        decide +kernel
      obtain rfl := Option.some.inj (hread.symm.trans hdocument)
      decide +kernel
    · have hnames : (prepared disk ["w"] request false).outcome.map (fun made =>
          made.2.all fun a => !(Path.ofText a.name.display).parts.contains "..") = .ok true := by
        decide +kernel
      rw [hmade] at hnames
      have hall := List.all_eq_true.mp (Except.ok.inj hnames)
      intro a ha
      simpa using hall a ha
  have hall : ∀ r, requestOf? disk ["w"] args = some r → r.IsCautious disk ["w"] false := by
    intro r hr
    obtain rfl := Option.some.inj (hrequest.symm.trans hr)
    exact hcautious
  have hdry : requestOf? disk ["w"] ("--dry-run" :: "--force" :: args) =
      some { request with flags := [.dryRun, .force, .noValidate] } := by
    decide +kernel
  have hkeeps := (run_keeps_files disk ["w"] "12:00" false args).2 htree hcwd hall
  have hchanges : (run disk ["w"] "12:00" false args).exitCode = 1 ∧
      ((run disk ["w"] "12:00" false args).disk.get?
        ["w", "ReactivePropertyAttribute.g.cs"]).isSome = true := by
    decide +kernel
  refine ⟨⟨htree, hcwd, hall⟩, ?_, hchanges.1, hchanges.2, hkeeps _ _ hfile⟩
  exact (run_keeps_files disk ["w"] "12:00" false _).1 _ hdry rfl

end Backfield.CommandLine
