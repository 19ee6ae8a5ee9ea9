import Backfield.CommandLine.Run

/-!
# How runs end

What a run has done that ends well, read off its parts once.

* `request_eq_ok_iff` takes a request apart: the checks that its arguments have passed, and what
  they ask for (`Arguments.Makes`).
* `prepared_eq_ok_iff` takes apart what comes before the delivery.
* `exists_delivers_of_perform` and `perform_of_delivers` say that a request is carried out exactly
  when its artifacts are prepared and delivered (`Request.Delivers`), and how that ends.
* `requestOf?` is the request of a command line.  `run_of_request`, `run_of_help` and
  `run_of_refusal` say what a whole run is.
-/

namespace Backfield.CommandLine

variable {disk : Disk} {cwd : Key} {interrupted : Bool} {r : Request}

/-! ## Requests -/

/-- The arguments pass all checks on the disk and make the request. -/
structure Arguments.Makes (disk : Disk) (cwd : Key) (a : Arguments) (r : Request) : Prop where
  options : a.parameters.forM (checkParameter disk cwd a) = .ok ()
  named : a.paths ≠ []
  sources : a.paths.mapM (checkPath disk cwd .source) = .ok r.sources
  output : r.output = resolvePath cwd ((a.value? .output).getD ".")
  config : r.config = (a.value? .config).map (resolvePath cwd)
  flags : r.flags = a.flags

theorem request_eq_ok_iff {a : Arguments} : a.request disk cwd = .ok r ↔ a.Makes disk cwd r := by
  constructor
  · intro h
    rw [Arguments.request] at h
    obtain ⟨_, hoptions, hrest⟩ := exists_of_bind_eq_ok h
    split at hrest
    · cases hrest
    · rename_i hnamed
      obtain ⟨sources, hsources, hmade⟩ := exists_of_bind_eq_ok hrest
      cases hmade
      exact ⟨hoptions, fun hnil => hnamed (by rw [hnil]; rfl), hsources, rfl, rfl, rfl⟩
  · intro h
    have hnamed : ¬a.paths.isEmpty = true := fun hempty => h.named (List.isEmpty_iff.mp hempty)
    obtain ⟨output, config, sources, flags⟩ := r
    obtain ⟨hoptions, -, hsources, houtput, hconfig, hflags⟩ := h
    rw [Arguments.request, hoptions]
    dsimp only [bind, Except.bind]
    rw [if_neg hnamed]
    dsimp only [pure, Except.pure]
    rw [hsources, ← houtput, ← hconfig, ← hflags]

/-! ## Before the delivery -/

/-- Artifacts are prepared if the settings can be read and listed and the batch succeeds. -/
theorem prepared_eq_ok_iff {settings : Settings} {artifacts : List Artifact} :
    (prepared disk cwd r interrupted).outcome = .ok (settings, artifacts) ↔
      settingsOf disk cwd r = .ok settings ∧ (∃ listed, settings.toEntries = .ok listed) ∧
        (artifactsOf disk cwd r interrupted settings).outcome = .ok artifacts := by
  rw [prepared, loggedSettings, Traced.outcome_bind, Traced.outcome_bind, Traced.outcome_lift]
  constructor
  · intro h
    obtain ⟨made, hlogged, h⟩ := exists_of_bind_eq_ok h
    rw [Traced.outcome_bind] at h
    obtain ⟨artifacts', hartifacts, hpair⟩ := exists_of_bind_eq_ok h
    cases hpair
    obtain ⟨read, hread, hlogged⟩ := exists_of_bind_eq_ok hlogged
    rw [Traced.outcome_bind, Traced.outcome_lift] at hlogged
    obtain ⟨listed, hlisted, hlogged⟩ := exists_of_bind_eq_ok hlogged
    cases hlogged
    exact ⟨hread, ⟨listed, hlisted⟩, hartifacts⟩
  · rintro ⟨hread, ⟨listed, hlisted⟩, hartifacts⟩
    simp only [hread, hlisted, hartifacts, Traced.outcome_bind, Traced.outcome_lift,
      Traced.outcome_log, Traced.outcome_pure, Except.bind]

/-! ## Requests that are carried out -/

/-- The artifacts of the request are prepared and delivered. -/
structure Request.Delivers (disk : Disk) (cwd : Key) (interrupted : Bool) (r : Request)
    (output : OutputSettings) (artifacts : List Artifact) (paths : List Path) : Prop where
  prepared : ∃ settings, settings.output = .settings output ∧
    (prepared disk cwd r interrupted).outcome = .ok (settings, artifacts)
  delivered : (Delivery.deliver output disk cwd r.output artifacts).written.outcome = .ok paths

/-- What is printed in the end. -/
def Request.report (r : Request) (paths : List Path) : String :=
  "Generated " ++ toString paths.length ++ " file(s) in " ++ r.output.text ++ "\n"

/-- A request for a real run is carried out only if its artifacts are delivered. -/
theorem exists_delivers_of_perform {text : String} (hreal : r.has .dryRun = false)
    (h : (perform disk cwd r interrupted).output.outcome = .ok text) :
    ∃ output artifacts paths, r.Delivers disk cwd interrupted output artifacts paths := by
  rw [perform] at h
  cases hprepared : (prepared disk cwd r interrupted).outcome with
  | error e =>
    rw [hprepared] at h
    cases h
  | ok made =>
    obtain ⟨settings, artifacts⟩ := made
    simp only [hprepared, hreal, Bool.false_eq_true, ↓reduceIte] at h
    cases houtput : settings.output with
    | other v =>
      rw [houtput] at h
      cases h
    | settings output =>
      simp only [houtput, delivered, Traced.outcome_bind] at h
      obtain ⟨paths, hpaths, -⟩ := exists_of_bind_eq_ok h
      exact ⟨output, artifacts, paths, ⟨settings, houtput, hprepared⟩, hpaths⟩

/-- If its artifacts are delivered, the request is carried out. -/
theorem perform_of_delivers {output : OutputSettings} {artifacts : List Artifact}
    {paths : List Path} (hreal : r.has .dryRun = false)
    (h : r.Delivers disk cwd interrupted output artifacts paths) :
    let delivery := Delivery.deliver output disk cwd r.output artifacts
    perform disk cwd r interrupted = ⟨delivery.disk,
      ⟨(prepared disk cwd r interrupted).events ++ delivery.written.events,
        .ok (r.report paths)⟩⟩ := by
  intro delivery
  obtain ⟨⟨settings, houtput, hprepared⟩, hdelivered⟩ := h
  have hwritten : delivery.written = ⟨delivery.written.events, .ok paths⟩ := by
    rw [← hdelivered]
  have hdone : delivered disk cwd r output artifacts =
      ⟨delivery.disk, ⟨delivery.written.events, .ok (r.report paths)⟩⟩ := by
    show Done.mk delivery.disk (delivery.written >>= _) = _
    rw [hwritten]
    show Done.mk delivery.disk ⟨delivery.written.events ++ [], _⟩ = _
    rw [List.append_nil]
    rfl
  rw [perform, hprepared]
  simp only [hreal, Bool.false_eq_true, ↓reduceIte, houtput, hdone]

/-! ## Whole runs -/

/-- The request that a command line makes, unless it makes no sense or asks for help. -/
def requestOf? (disk : Disk) (cwd : Key) (args : List String) : Option Request :=
  match parse args with
  | .error _ => none
  | .ok a => if a.flags.contains .help then none else (a.request disk cwd).toOption

theorem requestOf?_eq_some_iff {args : List String} :
    requestOf? disk cwd args = some r ↔
      ∃ a, parse args = .ok a ∧ .help ∉ a.flags ∧ a.Makes disk cwd r := by
  rw [requestOf?]
  constructor
  · intro h
    split at h
    · cases h
    · rename_i a hparse
      split at h
      · cases h
      · rename_i hhelp
        refine ⟨a, hparse, by simpa using hhelp, request_eq_ok_iff.mp ?_⟩
        cases hrequest : a.request disk cwd with
        | error fault =>
          rw [hrequest] at h
          cases h
        | ok made =>
          rw [hrequest] at h
          exact congrArg Except.ok (Option.some.inj h)
  · rintro ⟨a, hparse, hhelp, hmakes⟩
    simp only [hparse, request_eq_ok_iff.mpr hmakes, List.contains_eq_mem, hhelp, decide_false,
      Bool.false_eq_true, ↓reduceIte, Except.toOption]

/-- A run with a request does what it asks for. -/
theorem run_of_request {args : List String} (h : requestOf? disk cwd args = some r)
    (time : String) :
    run disk cwd time interrupted args =
      (perform disk cwd r interrupted).result time r.shown := by
  obtain ⟨a, hparse, hhelp, hmakes⟩ := requestOf?_eq_some_iff.mp h
  simp only [run, hparse, request_eq_ok_iff.mpr hmakes, List.contains_eq_mem, hhelp, decide_false,
    Bool.false_eq_true, ↓reduceIte]

section

variable {args : List String} {a : Arguments}

theorem run_of_help (hparse : parse args = .ok a) (hhelp : Flag.help ∈ a.flags) (time : String) :
    run disk cwd time interrupted args = ⟨0, helpText, "", none, disk⟩ := by
  simp only [run, hparse, List.contains_eq_mem, hhelp, decide_true, ↓reduceIte]

theorem run_of_refusal {fault : UsageFault} (hparse : parse args = .ok a)
    (hhelp : Flag.help ∉ a.flags) (hrequest : a.request disk cwd = .error fault) (time : String) :
    run disk cwd time interrupted args = fault.result disk := by
  simp only [run, hparse, List.contains_eq_mem, hhelp, decide_false, Bool.false_eq_true,
    ↓reduceIte, hrequest]

end

/-- A run without a request changes nothing, and does not depend on the time of day. -/
theorem exists_of_no_request {args : List String} (h : requestOf? disk cwd args = none) :
    ∃ result : Result, result.disk = disk ∧
      ∀ time interrupted, run disk cwd time interrupted args = result := by
  cases hparse : parse args with
  | error fault =>
    refine ⟨fault.result disk, rfl, fun time interrupted => ?_⟩
    rw [run, hparse]
  | ok a =>
    by_cases hhelp : Flag.help ∈ a.flags
    · exact ⟨_, rfl, fun time _ => run_of_help hparse hhelp time⟩
    · cases hrequest : a.request disk cwd with
      | error fault => exact ⟨_, rfl, fun time _ => run_of_refusal hparse hhelp hrequest time⟩
      | ok r =>
        rw [requestOf?_eq_some_iff.mpr ⟨a, hparse, hhelp, request_eq_ok_iff.mp hrequest⟩] at h
        cases h

/-- A request that ends well ends with a text. -/
theorem exists_of_exitCode_result {time : String} {shown : Level} {done : Done}
    (h : (done.result time shown).exitCode = 0) : ∃ text, done.output.outcome = .ok text := by
  rw [Done.result] at h
  cases houtcome : done.output.outcome with
  | ok text => exact ⟨text, rfl⟩
  | error e =>
    rw [houtcome] at h
    dsimp only at h
    split at h
    · cases h
    · cases h

theorem disk_result (time : String) (shown : Level) (done : Done) :
    (done.result time shown).disk = done.disk := by
  rw [Done.result]
  split
  · rfl
  · split <;> rfl

theorem result_of_outcome {time text : String} {shown : Level} {done : Done}
    (h : done.output.outcome = .ok text) :
    done.result time shown =
      ⟨0, text, logText shown time done.output.entries, none, done.disk⟩ := by
  rw [Done.result, h]

end Backfield.CommandLine
