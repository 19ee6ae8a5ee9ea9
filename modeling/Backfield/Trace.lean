import Backfield.Error

/-!
# Traced computations

A computation that leaves a trace: the messages it logs and the moments at which a
cancellation is noticed or may arrive.  A computation runs to its end as if nobody
interrupts it; `Traced.interrupt` then cuts its trace at the first checkpoint after a given
moment.  So whatever is true of the uninterrupted outcome can be said of a plain function.
-/

namespace Backfield

/-- How much a message matters. -/
inductive Level
  | debug
  | info
  | warning
  deriving DecidableEq, Repr

def Level.rank : Level → Nat
  | debug => 0
  | info => 1
  | warning => 2

def Level.name : Level → String
  | debug => "DEBUG"
  | info => "INFO"
  | warning => "WARNING"

/-- The part of the program that logs a message. -/
inductive Origin
  | reader
  | binding
  | scan
  | batch
  | delivery
  | command
  deriving DecidableEq, Repr

/-- A logged message. -/
structure LogEntry where
  level : Level
  origin : Origin
  message : String
  deriving DecidableEq, Repr

/-- One step of a trace. -/
inductive Event
  | logged (entry : LogEntry)
  /-- A cancellation that arrived before is noticed here. -/
  | checkpoint
  /-- One attribute has been bound. -/
  | attributeBound
  /-- The rendering of one class begins. -/
  | renderingBegun
  deriving DecidableEq, Repr

/-- A trace and the outcome at its end. -/
structure Traced (α : Type) where
  events : List Event
  outcome : Except Error α

namespace Traced

protected def pure {α : Type} (a : α) : Traced α := ⟨[], .ok a⟩

protected def bind {α β : Type} (x : Traced α) (f : α → Traced β) : Traced β :=
  match x.outcome with
  | .error e => ⟨x.events, .error e⟩
  | .ok a => ⟨x.events ++ (f a).events, (f a).outcome⟩

instance : Monad Traced where
  pure := Traced.pure
  bind := Traced.bind

/-- Ends with an error. -/
def fail {α : Type} (e : Error) : Traced α := ⟨[], .error e⟩

/-- A computation without a trace. -/
def lift {α : Type} (x : Except Error α) : Traced α := ⟨[], x⟩

/-- Leaves one step behind. -/
def emit (event : Event) : Traced Unit := ⟨[event], .ok ()⟩

def log (level : Level) (origin : Origin) (message : String) : Traced Unit :=
  emit (.logged ⟨level, origin, message⟩)

def checkpoint : Traced Unit := emit .checkpoint

variable {α β : Type}

@[simp] theorem outcome_pure (a : α) : (pure a : Traced α).outcome = .ok a := rfl

@[simp] theorem outcome_bind (x : Traced α) (f : α → Traced β) :
    (x >>= f).outcome = x.outcome.bind fun a => (f a).outcome := by
  show (Traced.bind x f).outcome = _
  unfold Traced.bind
  cases x.outcome <;> rfl

@[simp] theorem outcome_lift (x : Except Error α) : (lift x).outcome = x := rfl

@[simp] theorem outcome_emit (event : Event) : (emit event).outcome = .ok () := rfl

@[simp] theorem outcome_fail (e : Error) : (fail e : Traced α).outcome = .error e := rfl

@[simp] theorem outcome_log (level : Level) (origin : Origin) (message : String) :
    (log level origin message).outcome = .ok () := rfl

@[simp] theorem outcome_checkpoint : checkpoint.outcome = .ok () := rfl

/-- The messages of the trace, in order. -/
def entries (x : Traced α) : List LogEntry :=
  x.events.filterMap fun event => match event with
    | .logged entry => some entry
    | _ => none

end Traced

/-! ## Results and failures -/

section

variable {ε α β : Type}

/-- If a sequence succeeds, both parts do. -/
theorem exists_of_bind_eq_ok {x : Except ε α} {f : α → Except ε β} {b : β}
    (h : x.bind f = .ok b) : ∃ a, x = .ok a ∧ f a = .ok b := by
  cases x with
  | error e => cases h
  | ok a => exact ⟨a, rfl, h⟩

theorem exists_of_map_eq_ok {x : Except ε α} {f : α → β} {b : β} (h : x.map f = .ok b) :
    ∃ a, x = .ok a ∧ f a = b := by
  cases x with
  | error e => cases h
  | ok a => exact ⟨a, rfl, Except.ok.inj h⟩

/-- A sequence fails in one of its parts. -/
theorem bind_eq_error_iff {x : Except ε α} {f : α → Except ε β} {e : ε} :
    x.bind f = .error e ↔ x = .error e ∨ ∃ a, x = .ok a ∧ f a = .error e := by
  cases x <;> simp [Except.bind]

theorem map_eq_error_iff {x : Except ε α} {f : α → β} {e : ε} :
    x.map f = .error e ↔ x = .error e := by
  cases x <;> simp [Except.map]

end

/-! ## Cancellation -/

/-- When a cancellation arrives. -/
inductive Moment
  | never
  /-- Before the computation begins. -/
  | atStart
  /-- Right after the `n`-th attribute has been bound, counted from one. -/
  | afterAttribute (n : Nat)
  /-- When the rendering of the `n`-th class begins, counted from one. -/
  | atRendering (n : Nat)
  deriving DecidableEq, Repr

/-- What is left to wait for after a step. -/
def Moment.after : Moment → Event → Moment
  | .afterAttribute n, .attributeBound =>
    if n == 1 then .atStart else if n == 0 then .never else .afterAttribute (n - 1)
  | .atRendering n, .renderingBegun =>
    if n == 1 then .atStart else if n == 0 then .never else .atRendering (n - 1)
  | moment, _ => moment

/-- The steps up to the first checkpoint that comes after the moment, or none if every
checkpoint comes before it. -/
def Moment.cut? : Moment → List Event → Option (List Event)
  | _, [] => none
  | .atStart, .checkpoint :: _ => some []
  | moment, event :: rest => ((moment.after event).cut? rest).map (event :: ·)

/-- The computation with a cancellation at the given moment: it stops at the first
checkpoint after it. -/
def Traced.interrupt {α : Type} (moment : Moment) (x : Traced α) : Traced α :=
  match moment.cut? x.events with
  | none => x
  | some events => ⟨events, .error .cancelled⟩

/-- A flag that one side raises and the other asks for. -/
structure CancellationFlag where
  raised : Bool := false
  deriving DecidableEq, Repr

def CancellationFlag.raise (_ : CancellationFlag) : CancellationFlag := ⟨true⟩

/-- Fails once the flag has been raised. -/
def CancellationFlag.check (flag : CancellationFlag) : Except Error Unit :=
  if flag.raised then .error .cancelled else .ok ()

end Backfield
