import Backfield.Proofs.CommandLine.Permission
import Backfield.Proofs.Delivery.Completion

/-!
# Dry runs

A dry run does all that the real run does up to the delivery, and then lists the artifacts in place
of delivering them.

* `parse_dryRun` puts the flag in front of a command line, and `Arguments.IsDryOf` says that two
  command lines differ in the flag alone, wherever it stands.
* `prepared_of_isDryOf` is the step that both runs have in common, and `perform_of_isDryOf` says what
  follows from it for a request.
* `run_agrees_with_dryRun` is the result for whole runs.
-/

namespace Backfield.CommandLine

open Delivery (Leaves filesOf IsNamed leaves_deliver)

variable {disk : Disk} {cwd : Key} {interrupted : Bool}

/-! ## Command lines with the flag -/

/-- The arguments with more flags in front. -/
def Arguments.after (flags : List Flag) (a : Arguments) : Arguments :=
  { a with flags := flags ++ a.flags }

section

variable (flags : List Flag) (a : Arguments)

theorem after_addFlag (f : Flag) : (a.after flags).addFlag f = (a.addFlag f).after flags := by
  rw [Arguments.after, Arguments.addFlag, Arguments.addFlag, Arguments.after, List.append_assoc]

theorem readLong_after (name : String) (value : Option String) :
    readLong (a.after flags) name value =
      (readLong a name value).map fun read => (read.1.after flags, read.2) := by
  unfold readLong
  split
  · rfl
  · split
    · rw [after_addFlag]
      rfl
    · rfl
    · rfl
    · rfl

theorem readShort_after (letters : List Char) :
    readShort (a.after flags) letters =
      (readShort a letters).map fun read => (read.1.after flags, read.2) := by
  induction letters generalizing a with
  | nil => rfl
  | cons c rest ih =>
    unfold readShort
    dsimp only
    split
    · rfl
    · split
      · rw [after_addFlag, ih]
      · split
        · rfl
        · rfl

theorem readArgument_after (arg : String) :
    readArgument (a.after flags) arg =
      (readArgument a arg).map fun read => (read.1.after flags, read.2) := by
  unfold readArgument
  split
  · exact readLong_after flags a _ _
  · exact readShort_after flags a _
  · rfl

/-- Flags that are there already are still there in the end, and change nothing else. -/
theorem readArguments_after (pending : Pending) (args : List String) :
    readArguments (a.after flags) pending args =
      (readArguments a pending args).map (Arguments.after flags) := by
  induction args generalizing a pending with
  | nil => cases pending <;> rfl
  | cons arg rest ih =>
    cases pending with
    | some option => exact ih (a.addValue option.1 arg) none
    | none =>
      rw [readArguments, readArguments]
      split
      · rfl
      · rw [readArgument_after]
        cases readArgument a arg with
        | error fault => rfl
        | ok read => exact ih read.1 read.2

end

/-- The flag in front of a command line changes nothing but the flags. -/
theorem parse_dryRun (args : List String) :
    parse ("--dry-run" :: args) = (parse args).map (Arguments.after [.dryRun]) := by
  have hread : readArgument {} "--dry-run" = .ok (({} : Arguments).after [.dryRun], none) := by
    decide +kernel
  have hfirst : parse ("--dry-run" :: args) =
      readArguments (({} : Arguments).after [.dryRun]) none args := by
    rw [parse, readArguments, if_neg (by decide), hread]
    rfl
  rw [hfirst, readArguments_after]
  rfl

/-- The first arguments are those of a dry run, and the others are the same without the flag. -/
structure Arguments.IsDryOf (d a : Arguments) : Prop where
  values : d.values = a.values
  paths : d.paths = a.paths
  dry : Flag.dryRun ∈ d.flags
  real : Flag.dryRun ∉ a.flags
  flags : ∀ f, f ≠ .dryRun → (f ∈ d.flags ↔ f ∈ a.flags)

/-- A command line with the flag in front is that of a dry run. -/
theorem isDryOf_after {a : Arguments} (h : Flag.dryRun ∉ a.flags) :
    (a.after [.dryRun]).IsDryOf a where
  values := rfl
  paths := rfl
  dry := List.mem_cons_self
  real := h
  flags := by
    intro f hf
    show f ∈ .dryRun :: a.flags ↔ f ∈ a.flags
    rw [List.mem_cons]
    exact or_iff_right hf

/-! ## Requests with the flag -/

/-- The first request is for a dry run, and the other is the same without the flag. -/
structure Request.IsDryOf (d r : Request) : Prop where
  output : d.output = r.output
  config : d.config = r.config
  sources : d.sources = r.sources
  dry : d.has .dryRun = true
  real : r.has .dryRun = false
  flags : ∀ f, f ≠ .dryRun → d.has f = r.has f

/-- Other flags do not change what is asked for. -/
theorem request_with_flags (a : Arguments) (flags : List Flag) :
    ({ a with flags } : Arguments).request disk cwd =
      (a.request disk cwd).map fun r => { r with flags } := by
  have hchecks : ({ a with flags } : Arguments).parameters.forM
      (checkParameter disk cwd { a with flags }) =
        a.parameters.forM (checkParameter disk cwd a) := rfl
  rw [Arguments.request, Arguments.request, hchecks]
  cases a.parameters.forM (checkParameter disk cwd a) with
  | error fault => rfl
  | ok _ =>
    dsimp only [bind, Except.bind]
    split
    · rfl
    · cases a.paths.mapM (checkPath disk cwd .source) <;> rfl

/-- The requests of two such command lines are of the same kind.  If one is refused, so is the
other, and for the same reason. -/
theorem request_of_isDryOf {d a : Arguments} (h : d.IsDryOf a) :
    (∃ fault, d.request disk cwd = .error fault ∧ a.request disk cwd = .error fault) ∨
      ∃ dry r, d.request disk cwd = .ok dry ∧ a.request disk cwd = .ok r ∧ dry.IsDryOf r := by
  have hsame : d = { a with flags := d.flags } := by
    obtain ⟨flags, values, paths⟩ := d
    obtain ⟨rfl, rfl⟩ : values = a.values ∧ paths = a.paths := ⟨h.values, h.paths⟩
    rfl
  have hdry := @request_with_flags disk cwd a d.flags
  rw [← hsame] at hdry
  cases hreal : a.request disk cwd with
  | error fault =>
    rw [hreal] at hdry
    exact Or.inl ⟨fault, hdry, rfl⟩
  | ok r =>
    rw [hreal] at hdry
    have hflags : r.flags = a.flags := (request_eq_ok_iff.mp hreal).flags
    refine Or.inr ⟨_, r, hdry, rfl, rfl, rfl, rfl, ?_, ?_, fun f hf => ?_⟩
    · show d.flags.contains .dryRun = true
      exact List.contains_iff_mem.mpr h.dry
    · rw [Request.has, hflags, ← Bool.not_eq_true, List.contains_iff_mem]
      exact h.real
    · show d.flags.contains f = r.flags.contains f
      rw [hflags, Bool.eq_iff_iff, List.contains_iff_mem, List.contains_iff_mem]
      exact h.flags f hf

section

variable {d r : Request}

theorem shown_of_isDryOf (h : d.IsDryOf r) : d.shown = r.shown := by
  rw [Request.shown, Request.shown, h.flags .debug (by decide), h.flags .verbose (by decide)]

theorem settingsOf_of_isDryOf (h : d.IsDryOf r) :
    settingsOf disk cwd d = settingsOf disk cwd r := by
  rw [settingsOf, settingsOf, fileSettings, fileSettings, h.config, h.flags .force (by decide),
    h.flags .noValidate (by decide), h.flags .simpleNames (by decide)]

/-- Both requests prepare the same artifacts, or fail alike. -/
theorem prepared_of_isDryOf (h : d.IsDryOf r) :
    prepared disk cwd d interrupted = prepared disk cwd r interrupted := by
  have hartifacts : artifactsOf disk cwd d interrupted = artifactsOf disk cwd r interrupted := by
    funext settings
    rw [artifactsOf, artifactsOf, h.sources, h.flags .includeGenerated (by decide)]
  rw [prepared, prepared, loggedSettings, loggedSettings, settingsOf_of_isDryOf h, hartifacts]

/-- The names of artifacts, one on each line. -/
def listing (names : List String) : String := String.join (names.map (· ++ "\n"))

/-- If the artifacts cannot be prepared, both requests fail alike.  Otherwise the request for a dry
run lists them. -/
theorem perform_of_isDryOf (h : d.IsDryOf r) :
    (∀ e, (perform disk cwd d interrupted).output.outcome = .error e →
      perform disk cwd r interrupted = perform disk cwd d interrupted) ∧
    ∀ settings artifacts,
      (prepared disk cwd r interrupted).outcome = .ok (settings, artifacts) →
        (perform disk cwd d interrupted).output.outcome =
          .ok (String.join (artifacts.map (nameLine ·.name))) := by
  rw [perform, perform, prepared_of_isDryOf h, h.dry]
  refine ⟨fun e he => ?_, fun settings artifacts hprepared => ?_⟩
  · cases hprepared : (prepared disk cwd r interrupted).outcome with
    | error e' => rfl
    | ok made =>
      rw [hprepared] at he
      cases he
  · rw [hprepared]
    rfl

/-- Names that are texts are listed as they are. -/
theorem join_nameLine {artifacts : List Artifact} (hnamed : ∀ a ∈ artifacts, IsNamed a) :
    ∃ names : List String, artifacts.map Artifact.name = names.map Value.text ∧
      String.join (artifacts.map (nameLine ·.name)) = listing names := by
  refine ⟨artifacts.map (·.name.display), ?_, ?_⟩
  · rw [List.map_map]
    refine List.map_congr_left fun a ha => ?_
    obtain ⟨name, hname⟩ := hnamed a ha
    rw [Function.comp_apply, hname]
    rfl
  · rw [listing, List.map_map]
    congr 1
    refine List.map_congr_left fun a ha => ?_
    obtain ⟨name, hname⟩ := hnamed a ha
    rw [Function.comp_apply, hname]
    rfl

/-- The listing of a dry run and what the real run does with the same artifacts. -/
theorem result_of_isDryOf (h : d.IsDryOf r) (time : String) :
    let dry := (perform disk cwd d interrupted).result time d.shown
    let real := (perform disk cwd r interrupted).result time r.shown
    dry.disk = disk ∧ (dry.exitCode ≠ 0 → real = dry) ∧
      (real.exitCode = 0 → ∃ settings artifacts names,
        (prepared disk cwd r interrupted).outcome = .ok (settings, artifacts) ∧
        artifacts.map Artifact.name = names.map Value.text ∧
        dry.stdout = listing names ∧
        real.stdout = "Generated " ++ toString names.length ++ " file(s) in " ++
          r.output.text ++ "\n" ∧
        Leaves disk real.disk cwd (filesOf r.output artifacts)) := by
  intro dry real
  obtain ⟨hfails, hlists⟩ := @perform_of_isDryOf disk cwd interrupted d r h
  refine ⟨?_, fun hexit => ?_, fun hzero => ?_⟩
  · show ((perform disk cwd d interrupted).result time d.shown).disk = disk
    rw [disk_result]
    exact disk_perform_of_dryRun h.dry
  · cases houtcome : (perform disk cwd d interrupted).output.outcome with
    | error e =>
      show (perform disk cwd r interrupted).result time r.shown = dry
      rw [hfails e houtcome, ← shown_of_isDryOf h]
    | ok text =>
      refine absurd ?_ hexit
      show ((perform disk cwd d interrupted).result time d.shown).exitCode = 0
      rw [result_of_outcome houtcome]
  · obtain ⟨text, htext⟩ := exists_of_exitCode_result hzero
    obtain ⟨output, artifacts, paths, hdelivers⟩ := exists_delivers_of_perform h.real htext
    obtain ⟨hnamed, hpaths, hleaves⟩ := leaves_deliver hdelivers.delivered
    obtain ⟨names, hnames, hlisting⟩ := join_nameLine hnamed
    obtain ⟨settings, -, hprepared⟩ := hdelivers.prepared
    have hlength : paths.length = names.length := by
      have hlengths := congrArg List.length hnames
      rw [List.length_map, List.length_map] at hlengths
      rw [hpaths, List.length_map, hlengths]
    have hperform := perform_of_delivers h.real hdelivers
    refine ⟨settings, artifacts, names, hprepared, hnames, ?_, ?_, ?_⟩
    · show ((perform disk cwd d interrupted).result time d.shown).stdout = listing names
      rw [result_of_outcome (hlists settings artifacts hprepared)]
      exact hlisting
    · show ((perform disk cwd r interrupted).result time r.shown).stdout = _
      rw [hperform, ← hlength]
      rfl
    · show Leaves disk ((perform disk cwd r interrupted).result time r.shown).disk cwd _
      rw [disk_result, hperform]
      exact hleaves

end

/-! ## Whole runs -/

/-- A dry run changes nothing.  If it fails, the real run fails with it, in the same way and without
a change.  If both end well, the dry run lists the names of the artifacts in order, and the real run
leaves exactly the files of these names and says how many there are.  Help is help in both. -/
theorem run_agrees_with_dryRun (disk : Disk) (cwd : Key) (time : String) (interrupted : Bool)
    {dryArgs args : List String} {d a : Arguments} (hdryparse : parse dryArgs = .ok d)
    (hparse : parse args = .ok a) (hdry : d.IsDryOf a) :
    let dry := run disk cwd time interrupted dryArgs
    let real := run disk cwd time interrupted args
    dry.disk = disk ∧ (dry.exitCode ≠ 0 → real = dry) ∧
      (Flag.help ∈ a.flags → real = dry) ∧
      (Flag.help ∉ a.flags → dry.exitCode = 0 → real.exitCode = 0 →
        ∃ r settings artifacts names, requestOf? disk cwd args = some r ∧
          (prepared disk cwd r interrupted).outcome = .ok (settings, artifacts) ∧
          artifacts.map Artifact.name = names.map Value.text ∧
          dry.stdout = listing names ∧
          real.stdout = "Generated " ++ toString names.length ++ " file(s) in " ++
            r.output.text ++ "\n" ∧
          Leaves disk real.disk cwd (filesOf r.output artifacts)) := by
  intro dry real
  have hflag := hdry.flags .help (by decide)
  by_cases hhelp : Flag.help ∈ a.flags
  · have hreal : real = ⟨0, helpText, "", none, disk⟩ := run_of_help hparse hhelp time
    have hdone : dry = ⟨0, helpText, "", none, disk⟩ :=
      run_of_help hdryparse (hflag.mpr hhelp) time
    rw [hreal, hdone]
    exact ⟨rfl, fun _ => rfl, fun _ => rfl, fun hno => absurd hhelp hno⟩
  · have hhelp' : Flag.help ∉ d.flags := fun hmem => hhelp (hflag.mp hmem)
    rcases @request_of_isDryOf disk cwd d a hdry with ⟨fault, hd, ha⟩ | ⟨d', r, hd, ha, hrequests⟩
    · have hreal : real = fault.result disk := run_of_refusal hparse hhelp ha time
      have hdone : dry = fault.result disk := run_of_refusal hdryparse hhelp' hd time
      rw [hreal, hdone]
      refine ⟨rfl, fun _ => rfl, fun _ => rfl, fun _ hzero => ?_⟩
      cases hzero
    · have hr : requestOf? disk cwd args = some r :=
        requestOf?_eq_some_iff.mpr ⟨a, hparse, hhelp, request_eq_ok_iff.mp ha⟩
      have hd' : requestOf? disk cwd dryArgs = some d' :=
        requestOf?_eq_some_iff.mpr ⟨d, hdryparse, hhelp', request_eq_ok_iff.mp hd⟩
      have hreal : real = (perform disk cwd r interrupted).result time r.shown :=
        run_of_request hr time
      have hdone : dry = (perform disk cwd d' interrupted).result time d'.shown :=
        run_of_request hd' time
      obtain ⟨hdisk, hfails, hagrees⟩ := @result_of_isDryOf disk cwd interrupted d' r hrequests time
      rw [hreal, hdone]
      refine ⟨hdisk, hfails, fun h => absurd h hhelp, fun _ _ hzero => ?_⟩
      obtain ⟨settings, artifacts, names, hrest⟩ := hagrees hzero
      exact ⟨r, settings, artifacts, names, hr, hrest⟩

/-- A class with a marked field in the working directory. -/
def carDisk : Disk := ⟨[
  (["w"], .directory),
  (["w", "Car.cs"], .file (Text.Utf8.encode
    "using ReactiveObject.Generators; partial class Car \x7b [ReactiveProperty] int s; \x7d"))]⟩

theorem exitCode_carDisk :
    (run carDisk ["w"] "12:00" false ["--dry-run", "--no-validate", "Car.cs"]).exitCode = 0 ∧
      (run carDisk ["w"] "12:00" false ["--no-validate", "Car.cs"]).exitCode = 0 := by
  decide +kernel

/-- The flag in front of a command line that ends well. -/
theorem run_agrees_with_dryRun_car :
    (run carDisk ["w"] "12:00" false ["--dry-run", "--no-validate", "Car.cs"]).disk = carDisk ∧
      ∃ artifacts names, artifacts.map Artifact.name = names.map Value.text ∧
        (run carDisk ["w"] "12:00" false ["--dry-run", "--no-validate", "Car.cs"]).stdout =
          listing names ∧
        Leaves carDisk (run carDisk ["w"] "12:00" false ["--no-validate", "Car.cs"]).disk ["w"]
          (filesOf ⟨"/", ["w"]⟩ artifacts) := by
  let a : Arguments := { flags := [.noValidate], paths := ["Car.cs"] }
  have hparse : parse ["--no-validate", "Car.cs"] = .ok a := by decide +kernel
  have hdryparse : parse ["--dry-run", "--no-validate", "Car.cs"] = .ok (a.after [.dryRun]) := by
    rw [parse_dryRun, hparse]
    rfl
  obtain ⟨hdry, hreal⟩ := exitCode_carDisk
  obtain ⟨hdisk, -, -, hagrees⟩ := run_agrees_with_dryRun carDisk ["w"] "12:00" false hdryparse
    hparse (isDryOf_after (by decide))
  obtain ⟨r, -, artifacts, names, hr, -, hnames, hlisting, -, hleaves⟩ :=
    hagrees (by decide) hdry hreal
  have hrequest : requestOf? carDisk ["w"] ["--no-validate", "Car.cs"] =
      some ⟨⟨"/", ["w"]⟩, none, [⟨"/", ["w", "Car.cs"]⟩], [.noValidate]⟩ := by decide +kernel
  obtain rfl := Option.some.inj (hrequest.symm.trans hr)
  exact ⟨hdisk, artifacts, names, hnames, hlisting, hleaves⟩

end Backfield.CommandLine
