import Backfield.Proofs.Batch.Cancellation

/-!
# A batch that asks whether it is cancelled

A cancelled batch is told by cutting the trace of one that nobody cancels.  A program cannot do
that: it has a flag, which may be raised while it runs, and asks for it at each checkpoint.  This
module says that both come to the same.

* `Polled` is a computation that is handed the moment of the cancellation and passes on what is left
  to wait for.  `Polled.poll` asks.
* `interrupting_bind`, `interrupting_checkpoint` and `interrupting_of_noCheckpoint` say what cutting
  does to a sequence, to a checkpoint and to a part without one.
* `interrupting_classesOf` and `interrupting_artifactsFrom` are the two loops, by induction over
  them, and `generate_eq_polledRun` is the batch.
-/

namespace Backfield

/-! ## Asking -/

/-- A computation that is handed the moment at which a cancellation arrives. -/
def Polled (α : Type) := Moment → Traced α

namespace Polled

variable {α β : Type}

/-- The second part is handed what the first has left to wait for. -/
instance : Monad Polled where
  pure a := fun _ => pure a
  bind x f := fun moment =>
    x moment >>= fun a => f a ((x moment).events.foldl Moment.after moment)

/-- A computation that does not ask. -/
def unasked (x : Traced α) : Polled α := fun _ => x

/-- Fails if the cancellation is there. -/
def poll : Polled Unit := fun moment =>
  if moment = .atStart then Traced.fail .cancelled else Traced.checkpoint

/-- The computation whose trace is cut. -/
def interrupting (x : Traced α) : Polled α := fun moment => x.interrupt moment

theorem interrupting_bind (x : Traced α) (f : α → Traced β) :
    interrupting (x >>= f) = interrupting x >>= fun a => interrupting (f a) := by
  funext moment
  refine (Traced.interrupt_bind moment x f).trans ?_
  change _ = x.interrupt moment >>= fun a =>
    (f a).interrupt ((x.interrupt moment).events.foldl Moment.after moment)
  -- A computation that is cut does not come to its second part.
  rw [Traced.interrupt]
  cases moment.cut? x.events <;> rfl

theorem interrupting_checkpoint : interrupting Traced.checkpoint = poll :=
  funext Traced.interrupt_checkpoint

/-- Cutting has no effect where there is no checkpoint. -/
theorem interrupting_of_noCheckpoint {x : Traced α} (h : ∀ e ∈ x.events, e ≠ .checkpoint) :
    interrupting x = unasked x := by
  funext moment
  have hcut : ∀ (events : List Event) (moment : Moment), (∀ e ∈ events, e ≠ .checkpoint) →
      moment.cut? events = none := by
    intro events
    induction events with
    | nil => exact fun _ _ => rfl
    | cons e rest ih =>
      intro moment hall
      rw [List.forall_mem_cons] at hall
      rw [cut?_cons (Or.inr hall.1), ih _ hall.2, Option.map_none]
  rw [interrupting, Traced.interrupt, hcut _ _ h, unasked]

theorem interrupting_pure (a : α) : interrupting (pure a) = pure a :=
  interrupting_of_noCheckpoint fun _ h => absurd h List.not_mem_nil

theorem interrupting_lift (x : Except Error α) :
    interrupting (Traced.lift x) = unasked (Traced.lift x) :=
  interrupting_of_noCheckpoint fun _ h => absurd h List.not_mem_nil

theorem interrupting_fail (e : Error) :
    interrupting (Traced.fail e : Traced α) = unasked (Traced.fail e) :=
  interrupting_of_noCheckpoint fun _ h => absurd h List.not_mem_nil

theorem interrupting_renderingBegun :
    interrupting (Traced.emit .renderingBegun) = unasked (Traced.emit .renderingBegun) :=
  funext fun moment => Traced.interrupt_emit moment (by simp)

theorem interrupting_log (level : Level) (origin : Origin) (message : String) :
    interrupting (Traced.log level origin message) =
      unasked (Traced.log level origin message) :=
  funext fun moment => Traced.interrupt_emit moment (by simp)

end Polled

open Polled

/-! ## The classes of a scan -/

namespace Scan

/-- The classes of the groups, where the cancellation is asked for before each group. -/
def polledClasses (known : KnownTypes) (marker : Value) : List Group → Polled (List ReactiveClass)
  | [] => return []
  | g :: rest => do
    poll
    let found ← unasked (classOf? known marker g)
    let others ← polledClasses known marker rest
    return found.toList ++ others

/-- The scan, with a cancellation that is asked for. -/
def polledScan (settings : Settings) (known : KnownTypes) (fragments : List Fragment) :
    Polled (List ReactiveClass) := do
  match ← unasked (Traced.lift (known.resolve? settings.markerFullName)) with
  | none =>
    unasked (Traced.log .warning .scan
      ("Marker type " ++ settings.markerFullName.display ++
        " is not available, nothing to generate"))
    return []
  | some marker => polledClasses known marker (group fragments)

variable {known : KnownTypes} {marker : Value}

theorem interrupting_classOf? (g : Group) :
    interrupting (classOf? known marker g) = unasked (classOf? known marker g) := by
  refine interrupting_of_noCheckpoint fun e he => ?_
  rcases (confined_classOf? g).event e he with rfl | hlogged
  · simp
  · rintro rfl
    cases hlogged

theorem interrupting_classesOf (groups : List Group) :
    interrupting (classesOf known marker groups) = polledClasses known marker groups := by
  induction groups with
  | nil => exact interrupting_pure []
  | cons g rest ih =>
    simp only [classesOf, polledClasses, interrupting_bind, interrupting_checkpoint,
      interrupting_classOf?, interrupting_pure, ih]

theorem interrupting_scan (settings : Settings) (fragments : List Fragment) :
    interrupting (scan settings known fragments) = polledScan settings known fragments := by
  rw [scan, polledScan, interrupting_bind, interrupting_lift]
  congr 1
  funext found
  cases found with
  | none => rw [interrupting_bind, interrupting_log, interrupting_pure]
  | some marker => exact interrupting_classesOf _

end Scan

/-! ## The artifacts of a batch -/

namespace Batch

/-- The artifacts of the classes, where the cancellation is asked for before each of them. -/
def polledArtifacts (settings : Settings) :
    Taken → List ReactiveClass → Polled (List Artifact)
  | _, [] => return []
  | taken, c :: rest => do
    poll
    let name := artifactName settings c
    match taken.owner? name with
    | some owner => unasked (Traced.fail (.duplicateArtifact c.fullName owner name))
    | none =>
      unasked (Traced.emit .renderingBegun)
      let artifact : Artifact := ⟨.text name, Layout.render settings c⟩
      unasked (Traced.log .info .batch
        ("Generated " ++ name ++ " (" ++ toString c.properties.length ++ " properties)"))
      let others ← polledArtifacts settings (taken ++ [(.text name, c.fullName)]) rest
      return artifact :: others

/-- The batch, where the cancellation is asked for at the start, before each group of the scan and
before each artifact. -/
def polledRun (settings : Settings) (known : KnownTypes) (fragments : List Fragment) :
    Polled (List Artifact) := do
  poll
  let classes ← Scan.polledScan settings known fragments
  unasked (Traced.lift (KnownTypes.checkName settings.markerArtifact))
  let artifacts ←
    polledArtifacts settings [(settings.markerArtifact, settings.markerFullName.display)] classes
  return markerArtifact settings :: artifacts

variable {settings : Settings} {known : KnownTypes} {fragments : List Fragment}

theorem interrupting_artifactsFrom (taken : Taken) (classes : List ReactiveClass) :
    interrupting (artifactsFrom settings taken classes) =
      polledArtifacts settings taken classes := by
  induction classes generalizing taken with
  | nil => exact interrupting_pure []
  | cons c rest ih =>
    rw [artifactsFrom, polledArtifacts, interrupting_bind, interrupting_checkpoint]
    congr 1
    funext _
    dsimp only
    cases taken.owner? (artifactName settings c) with
    | some owner => exact interrupting_fail _
    | none =>
      simp only [interrupting_bind, interrupting_renderingBegun, interrupting_log,
        interrupting_pure, ih]

/-- A batch under a cancellation is the batch that asks for it. -/
theorem generate_eq_polledRun (settings : Settings) (known : KnownTypes)
    (fragments : List Fragment) (moment : Moment) :
    generate settings known fragments moment =
      noteCancelled (polledRun settings known fragments moment) := by
  have hrun : interrupting (run settings known fragments) =
      polledRun settings known fragments := by
    simp only [run, polledRun, interrupting_bind, interrupting_checkpoint, interrupting_lift,
      Scan.interrupting_scan, interrupting_artifactsFrom, interrupting_pure]
  rw [generate, ← hrun, interrupting]

end Batch

end Backfield
