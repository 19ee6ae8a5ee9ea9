import Backfield.Trace

/-!
# Steps of a computation

What a traced computation does besides logging, and what it can end with.

* `Traced.steps` is the trace without the messages; `steps_bind` puts the steps of a sequence
  together.
* `Traced.Confined` bounds the events and the errors of a computation.  The lemmas
  `confined_bind`, `confined_lift` and so on carry the bounds from the parts to the whole.
-/

namespace Backfield

/-- The event is more than a message. -/
def Event.isStep : Event → Bool
  | .logged _ => false
  | _ => true

namespace Traced

variable {α β : Type}

/-- The trace without the messages. -/
def steps (x : Traced α) : List Event := x.events.filter Event.isStep

/-! ## Events of a sequence -/

theorem events_bind (x : Traced α) (f : α → Traced β) :
    (x >>= f).events =
      x.events ++ (match x.outcome with | .ok a => (f a).events | .error _ => []) := by
  change (Traced.bind x f).events = _
  rw [Traced.bind]
  cases x.outcome with
  | error e => exact (List.append_nil _).symm
  | ok a => rfl

/-- What comes after a computation that succeeds depends on its result alone. -/
theorem bind_congr_of_outcome {x : Traced α} {a : α} {f g : α → Traced β} (hx : x.outcome = .ok a)
    (h : f a = g a) : x >>= f = x >>= g := by
  show Traced.bind x f = Traced.bind x g
  rw [Traced.bind, Traced.bind, hx]
  dsimp only
  rw [h]

theorem steps_bind (x : Traced α) (f : α → Traced β) :
    (x >>= f).steps =
      x.steps ++ (match x.outcome with | .ok a => (f a).steps | .error _ => []) := by
  rw [steps, events_bind, List.filter_append]
  cases x.outcome <;> rfl

@[simp] theorem steps_pure (a : α) : (pure a : Traced α).steps = [] := rfl

/-- What is computed from a result adds no step. -/
theorem steps_bind_pure (x : Traced α) (f : α → β) :
    (x >>= fun a => pure (f a)).steps = x.steps := by
  rw [steps_bind]
  cases x.outcome <;> simp

@[simp] theorem steps_lift (x : Except Error α) : (lift x).steps = [] := rfl

@[simp] theorem steps_fail (e : Error) : (fail e : Traced α).steps = [] := rfl

@[simp] theorem steps_log (level : Level) (origin : Origin) (message : String) :
    (log level origin message).steps = [] := rfl

@[simp] theorem steps_checkpoint : checkpoint.steps = [.checkpoint] := rfl

@[simp] theorem steps_emit_renderingBegun :
    (emit .renderingBegun).steps = [.renderingBegun] := rfl

/-! ## Bounds on events and errors -/

/-- Every event of the computation is one of `events`, and so is every error one of
`errors`. -/
structure Confined (events : Event → Prop) (errors : Error → Prop) (x : Traced α) : Prop where
  event : ∀ e ∈ x.events, events e
  error : ∀ e, x.outcome = .error e → errors e

variable {events : Event → Prop} {errors : Error → Prop}

theorem confined_pure (a : α) : Confined events errors (pure a : Traced α) where
  event := by
    intro e he
    cases he
  error := by
    intro e he
    cases he

theorem confined_bind {x : Traced α} {f : α → Traced β} (hx : Confined events errors x)
    (hf : ∀ a, Confined events errors (f a)) : Confined events errors (x >>= f) := by
  cases houtcome : x.outcome with
  | error e =>
    refine ⟨fun e' he' => ?_, fun e' he' => ?_⟩
    · rw [events_bind, houtcome, List.append_nil] at he'
      exact hx.event e' he'
    · rw [outcome_bind, houtcome] at he'
      cases he'
      exact hx.error e houtcome
  | ok a =>
    refine ⟨fun e' he' => ?_, fun e' he' => ?_⟩
    · rw [events_bind, houtcome] at he'
      rcases List.mem_append.mp he' with hleft | hright
      · exact hx.event e' hleft
      · exact (hf a).event e' hright
    · rw [outcome_bind, houtcome] at he'
      exact (hf a).error e' he'

theorem confined_lift {x : Except Error α} (h : ∀ e, x = .error e → errors e) :
    Confined events errors (lift x) where
  event := by
    intro e he
    cases he
  error := h

theorem confined_fail {e : Error} (h : errors e) :
    Confined events errors (fail e : Traced α) where
  event := by
    intro e' he'
    cases he'
  error := by
    intro e' he'
    cases he'
    exact h

theorem confined_emit {event : Event} (h : events event) :
    Confined events errors (emit event) where
  event := by
    intro e he
    rw [List.mem_singleton.mp he]
    exact h
  error := by
    intro e he
    cases he

theorem confined_log {level : Level} {origin : Origin} {message : String}
    (h : events (.logged ⟨level, origin, message⟩)) :
    Confined events errors (log level origin message) :=
  confined_emit h

end Traced

end Backfield
