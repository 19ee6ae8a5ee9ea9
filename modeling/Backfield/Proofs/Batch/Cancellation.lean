import Backfield.Batch
import Backfield.Proofs.Trace.Interruption

/-!
# Cancellation of a batch

A batch that is cancelled either ends as if it had not been, or leaves nothing.  Which of the two
happens depends on the order of three kinds of step: checkpoints, bindings of attributes and
renderings of classes.

* `schedule` writes that order down: a checkpoint at the start, one before each class of the
  scan, which is followed by the bindings for the class, and one before each artifact, which is
  followed by the rendering.
* `steps_run` says that an uninterrupted batch goes through these steps.
* `confined_run` says that a batch never fails with a cancellation of its own.
* `generate_cancellation` is the result.
-/

namespace Backfield

open Traced

/-- No cancellation. -/
def NotCancelled (e : Error) : Prop := e ≠ .cancelled

/-- The binding of an attribute or a message. -/
def BindsOrLogs (e : Event) : Prop := e = .attributeBound ∨ e.isStep = false

namespace Scan

variable {known : KnownTypes} {marker : Value} {className : String}
variable {accessibility : Accessibility} {fragment : Fragment} {field : Field}

/-! ## The description of a class has no checkpoint -/

theorem bindsOrLogs_logged (entry : LogEntry) : BindsOrLogs (.logged entry) := Or.inr rfl

theorem confined_bindAttribute (written : String) :
    Confined BindsOrLogs NotCancelled (Binding.bindAttribute known fragment written) := by
  rw [Binding.bindAttribute]
  have hbound : Confined BindsOrLogs NotCancelled (emit .attributeBound) :=
    confined_emit (Or.inl rfl)
  split
  · exact confined_bind (confined_log (bindsOrLogs_logged _)) fun _ =>
      confined_bind hbound fun _ => confined_pure _
  · exact confined_bind hbound fun _ => confined_pure _

theorem confined_countMarks (attributes : List String) :
    Confined BindsOrLogs NotCancelled (countMarks known fragment marker attributes) := by
  induction attributes with
  | nil => exact confined_pure _
  | cons written rest ih =>
    exact confined_bind (confined_bindAttribute written) fun _ =>
      confined_bind ih fun _ => confined_pure _

theorem confined_isMarked :
    Confined BindsOrLogs NotCancelled (isMarked known fragment marker field) := by
  refine confined_bind (confined_countMarks _) fun marks => ?_
  split
  · exact confined_bind (confined_log (bindsOrLogs_logged _)) fun _ => confined_pure _
  · exact confined_pure _

theorem confined_nameProperty :
    Confined BindsOrLogs NotCancelled (nameProperty className field) := by
  rw [nameProperty]
  split
  · exact confined_fail (by simp [NotCancelled])
  · dsimp only
    split
    · exact confined_bind (confined_log (bindsOrLogs_logged _)) fun _ => confined_pure _
    · exact confined_pure _

theorem notCancelled_check_property {p : Property} {e : Error}
    (h : Property.check p = .error e) : NotCancelled e := by
  rw [Property.check] at h
  split at h
  · cases h
    simp [NotCancelled]
  · split at h
    · cases h
      simp [NotCancelled]
    · cases h

theorem notCancelled_check_class {c : ReactiveClass} {e : Error}
    (h : ReactiveClass.check c = .error e) : NotCancelled e := by
  rw [ReactiveClass.check] at h
  split at h
  · cases h
    simp [NotCancelled]
  · cases h

theorem confined_property? :
    Confined BindsOrLogs NotCancelled
      (property? known marker className accessibility fragment field) := by
  refine confined_bind confined_isMarked fun marked => ?_
  split
  · exact confined_pure _
  · split
    · exact confined_bind (confined_log (bindsOrLogs_logged _)) fun _ => confined_pure _
    · refine confined_bind confined_nameProperty fun name => ?_
      split
      · exact confined_pure _
      · exact confined_bind (confined_lift fun _ h => notCancelled_check_property h) fun _ =>
          confined_pure _

theorem confined_propertiesFrom (seen : List String) (entries : List (Fragment × Field)) :
    Confined BindsOrLogs NotCancelled
      (propertiesFrom known marker className accessibility seen entries) := by
  induction entries generalizing seen with
  | nil => exact confined_pure _
  | cons entry rest ih =>
    rw [propertiesFrom]
    split
    · exact ih seen
    · refine confined_bind confined_property? fun found => ?_
      split
      · exact ih seen
      · exact confined_bind (ih _) fun _ => confined_pure _

theorem confined_classOf? (g : Group) :
    Confined BindsOrLogs NotCancelled (classOf? known marker g) := by
  refine confined_bind (confined_propertiesFrom _ _) fun properties => ?_
  split
  · exact confined_pure _
  · exact confined_bind (confined_log (bindsOrLogs_logged _)) fun _ =>
      confined_bind (confined_lift fun _ h => notCancelled_check_class h) fun _ =>
        confined_pure _

/-! ## The steps of a scan -/

/-- How many attributes are bound for a class. -/
def bindingsOf (known : KnownTypes) (marker : Value) (g : Group) : Nat :=
  (classOf? known marker g).events.count .attributeBound

theorem steps_classOf? (g : Group) :
    (classOf? known marker g).steps =
      List.replicate (bindingsOf known marker g) .attributeBound := by
  have hall : ∀ e ∈ (classOf? known marker g).steps, .attributeBound = e := by
    intro e he
    obtain ⟨hmem, hstep⟩ := List.mem_filter.mp he
    rcases (confined_classOf? g).event e hmem with hbound | hlogged
    · exact hbound.symm
    · rw [hlogged] at hstep
      cases hstep
  have hcount : bindingsOf known marker g = (classOf? known marker g).steps.length := by
    rw [bindingsOf, ← List.count_eq_length.mpr hall]
    exact (List.count_filter rfl).symm
  rw [hcount]
  exact List.eq_replicate_of_mem fun e he => (hall e he).symm

/-- For each class a checkpoint and the bindings of its attributes, up to the first class that
fails. -/
def classSteps (known : KnownTypes) (marker : Value) : List Group → List Event
  | [] => []
  | g :: rest =>
    (.checkpoint :: List.replicate (bindingsOf known marker g) .attributeBound) ++
      match (classOf? known marker g).outcome with
      | .ok _ => classSteps known marker rest
      | .error _ => []

theorem steps_classesOf (groups : List Group) :
    (classesOf known marker groups).steps = classSteps known marker groups := by
  induction groups with
  | nil => rfl
  | cons g rest ih =>
    rw [classesOf, steps_bind, steps_bind, steps_classOf?, classSteps]
    cases (classOf? known marker g).outcome with
    | error e => rfl
    | ok found =>
      simp only [steps_bind_pure, ih]
      rfl

theorem confined_classesOf (groups : List Group) :
    Confined (fun _ => True) NotCancelled (classesOf known marker groups) := by
  induction groups with
  | nil => exact confined_pure _
  | cons g rest ih =>
    refine confined_bind (confined_emit trivial) fun _ => confined_bind ?_ fun found =>
      confined_bind ih fun _ => confined_pure _
    exact ⟨fun _ _ => trivial, (confined_classOf? g).error⟩

/-- A list or an object is no name, and nothing else goes wrong with names. -/
theorem notCancelled_checkName {v : Value} {e : Error}
    (h : KnownTypes.checkName v = .error e) : NotCancelled e := by
  cases v with
  | list items =>
    cases h
    simp [NotCancelled]
  | object entries =>
    cases h
    simp [NotCancelled]
  | null => cases h
  | bool b => cases h
  | number n => cases h
  | text s => cases h

theorem notCancelled_resolve? {v : Value} {e : Error} (h : known.resolve? v = .error e) :
    NotCancelled e := by
  unfold KnownTypes.resolve? at h
  cases hname : KnownTypes.checkName v with
  | error e' =>
    rw [hname] at h
    cases h
    exact notCancelled_checkName hname
  | ok _ =>
    rw [hname] at h
    cases v <;> cases h

theorem confined_scan (settings : Settings) (fragments : List Fragment) :
    Confined (fun _ => True) NotCancelled (scan settings known fragments) := by
  refine confined_bind (confined_lift fun _ h => notCancelled_resolve? h) fun found => ?_
  split
  · exact confined_bind (confined_log trivial) fun _ => confined_pure _
  · exact confined_classesOf _

end Scan

namespace Batch

variable {settings : Settings} {known : KnownTypes} {fragments : List Fragment}

/-! ## The steps of a batch -/

/-- For each class a checkpoint and the rendering, up to the first class whose name has been
taken. -/
def artifactSteps (settings : Settings) : Taken → List ReactiveClass → List Event
  | _, [] => []
  | taken, c :: rest =>
    .checkpoint ::
      match taken.owner? (artifactName settings c) with
      | some _ => []
      | none =>
        .renderingBegun ::
          artifactSteps settings (taken ++ [(.text (artifactName settings c), c.fullName)]) rest

theorem steps_artifactsFrom (taken : Taken) (classes : List ReactiveClass) :
    (artifactsFrom settings taken classes).steps = artifactSteps settings taken classes := by
  induction classes generalizing taken with
  | nil => rfl
  | cons c rest ih =>
    rw [artifactsFrom, steps_bind, artifactSteps]
    cases howner : taken.owner? (artifactName settings c) with
    | some owner => simp [howner]
    | none =>
      simp only [outcome_checkpoint, steps_checkpoint, howner, steps_bind, outcome_emit,
        outcome_log, steps_emit_renderingBegun, steps_log, ih]
      cases (artifactsFrom settings _ rest).outcome <;> simp

theorem confined_artifactsFrom (taken : Taken) (classes : List ReactiveClass) :
    Confined (fun _ => True) NotCancelled (artifactsFrom settings taken classes) := by
  induction classes generalizing taken with
  | nil => exact confined_pure _
  | cons c rest ih =>
    refine confined_bind (confined_emit trivial) fun _ => ?_
    dsimp only
    split
    · exact confined_fail (by simp [NotCancelled])
    · exact confined_bind (confined_emit trivial) fun _ =>
        confined_bind (confined_log trivial) fun _ => confined_bind (ih _) fun _ => confined_pure _

/-- A batch does not fail with a cancellation of its own. -/
theorem confined_run : Confined (fun _ => True) NotCancelled (run settings known fragments) :=
  confined_bind (confined_emit trivial) fun _ =>
    confined_bind (Scan.confined_scan _ _) fun _ =>
      confined_bind (confined_lift fun _ h => Scan.notCancelled_checkName h) fun _ =>
        confined_bind (confined_artifactsFrom _ _) fun _ => confined_pure _

theorem outcome_run_ne_cancelled :
    (run settings known fragments).outcome ≠ .error .cancelled := fun h =>
  confined_run.error _ h rfl

/-- The steps of the scan: none if the marker is not known. -/
def scanSteps (settings : Settings) (known : KnownTypes) (fragments : List Fragment) :
    List Event :=
  match known.resolve? settings.markerFullName with
  | .ok (some marker) => Scan.classSteps known marker (Scan.group fragments)
  | _ => []

/-- The steps after the scan: none if the scan fails or the marker's artifact has no name. -/
def renderingSteps (settings : Settings) (known : KnownTypes) (fragments : List Fragment) :
    List Event :=
  match (Scan.scan settings known fragments).outcome,
      KnownTypes.checkName settings.markerArtifact with
  | .ok classes, .ok _ =>
    artifactSteps settings [(settings.markerArtifact, settings.markerFullName.display)] classes
  | _, _ => []

/-- The checkpoints, bindings and renderings of a batch in the order in which they come. -/
def schedule (settings : Settings) (known : KnownTypes) (fragments : List Fragment) :
    List Event :=
  .checkpoint :: (scanSteps settings known fragments ++ renderingSteps settings known fragments)

theorem steps_scan :
    (Scan.scan settings known fragments).steps = scanSteps settings known fragments := by
  rw [Scan.scan, steps_bind, steps_lift, outcome_lift, List.nil_append, scanSteps]
  cases known.resolve? settings.markerFullName with
  | error e => rfl
  | ok found =>
    cases found with
    | none => rfl
    | some marker => exact Scan.steps_classesOf _

theorem steps_run :
    (run settings known fragments).steps = schedule settings known fragments := by
  rw [run, steps_bind, steps_bind, steps_scan, schedule, renderingSteps]
  cases (Scan.scan settings known fragments).outcome with
  | error e => rfl
  | ok classes =>
    cases KnownTypes.checkName settings.markerArtifact with
    | error e => simp [steps_bind]
    | ok _ =>
      simp only [steps_bind, steps_lift, outcome_lift, steps_artifactsFrom]
      cases (artifactsFrom settings _ classes).outcome <;> simp

/-! ## Cancelled batches -/

theorem outcome_noteCancelled (x : Traced (List Artifact)) :
    (noteCancelled x).outcome = x.outcome := by
  rw [noteCancelled]
  split <;> rfl

theorem outcome_generate (moment : Moment) :
    (generate settings known fragments moment).outcome =
      if (moment.cut? (schedule settings known fragments)).isSome then .error .cancelled
      else (run settings known fragments).outcome := by
  rw [generate, outcome_noteCancelled, outcome_interrupt, steps_run]

theorem steps_generate_never :
    (generate settings known fragments .never).steps = schedule settings known fragments := by
  have hplain : noteCancelled (run settings known fragments) = run settings known fragments := by
    rw [noteCancelled]
    split
    · rename_i h
      exact absurd h outcome_run_ne_cancelled
    · rfl
  rw [generate, interrupt_never, hplain, steps_run]

/-- A batch that is cancelled at any moment ends as the same batch without a cancellation, or it
is discarded.  It is discarded exactly when, in the schedule that the batch without a
cancellation goes through, a checkpoint comes after the moment. -/
theorem generate_cancellation (settings : Settings) (known : KnownTypes)
    (fragments : List Fragment) (moment : Moment) :
    ((generate settings known fragments moment).outcome =
        (generate settings known fragments .never).outcome ∨
      (generate settings known fragments moment).outcome = .error .cancelled) ∧
    ((generate settings known fragments moment).outcome = .error .cancelled ↔
      ∃ before after, schedule settings known fragments = before ++ after ∧
        moment.ArrivesAfter before ∧ Event.checkpoint ∈ after) ∧
    (generate settings known fragments .never).steps = schedule settings known fragments := by
  have hnever : (generate settings known fragments .never).outcome =
      (run settings known fragments).outcome := by
    rw [generate, outcome_noteCancelled, interrupt_never]
  refine ⟨?_, ?_, steps_generate_never⟩
  · rw [hnever, outcome_generate]
    split
    · exact Or.inr rfl
    · exact Or.inl rfl
  · rw [outcome_generate, ← isSome_cut?_iff]
    split
    · rename_i hcut
      exact ⟨fun _ => hcut, fun _ => rfl⟩
    · rename_i hcut
      exact ⟨fun h => absurd h outcome_run_ne_cancelled, fun h => absurd h hcut⟩

end Batch

end Backfield
