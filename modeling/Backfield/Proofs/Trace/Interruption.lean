import Mathlib.Data.List.Count
import Backfield.Proofs.Trace.Steps

/-!
# Interruption

A cancellation cuts a trace at the first checkpoint after its moment.  This module says when
there is such a checkpoint, and that the cut agrees with a flag that is passed along.

* `isSome_cut?_iff` is the condition: the trace splits at the moment, and a checkpoint stands
  in what follows.  `isSome_cut?_filter` says that messages do not matter to it.
* `interrupt_bind`, `interrupt_checkpoint` and `interrupt_emit` say that interrupting a
  sequence interrupts its parts one after the other, each with what is left to wait for, and
  that only a checkpoint fails.
* `outcome_interrupt` is the outcome of an interrupted computation.
-/

namespace Backfield

/-! ## The moment within a trace -/

/-- The event has just happened for the `n`-th time at the end of the trace. -/
def EndsWithNth (event : Event) (n : Nat) (before : List Event) : Prop :=
  before.getLast? = some event ∧ before.count event = n

/-- The moment comes at the end of the trace. -/
def Moment.ArrivesAfter : Moment → List Event → Prop
  | .never, _ => False
  | .atStart, before => before = []
  | .afterAttribute n, before => EndsWithNth .attributeBound n before
  | .atRendering n, before => EndsWithNth .renderingBegun n before

theorem not_endsWithNth_nil (event : Event) (n : Nat) : ¬EndsWithNth event n [] := by
  rintro ⟨hlast, -⟩
  cases hlast

theorem endsWithNth_cons_of_ne {event e : Event} (hne : e ≠ event) (n : Nat)
    (before : List Event) :
    EndsWithNth event n (e :: before) ↔ EndsWithNth event n before := by
  cases before with
  | nil => simp [EndsWithNth, hne]
  | cons b rest =>
    rw [EndsWithNth, EndsWithNth, List.getLast?_cons_cons, List.count_cons_of_ne hne]

/-- The first of the events that are counted leaves one less to wait for. -/
theorem endsWithNth_cons_self (event : Event) (n : Nat) (before : List Event) :
    EndsWithNth event n (event :: before) ↔
      n = 1 ∧ before = [] ∨ 1 < n ∧ EndsWithNth event (n - 1) before := by
  cases before with
  | nil =>
    rw [EndsWithNth, List.getLast?_singleton, List.count_cons_self, List.count_nil]
    constructor
    · rintro ⟨-, hcount⟩
      exact Or.inl ⟨hcount.symm, rfl⟩
    · rintro (⟨hn, -⟩ | ⟨-, hends⟩)
      · exact ⟨rfl, hn.symm⟩
      · exact absurd hends (not_endsWithNth_nil event _)
  | cons b rest =>
    rw [EndsWithNth, EndsWithNth, List.getLast?_cons_cons, List.count_cons_self]
    constructor
    · rintro ⟨hlast, hcount⟩
      have hpositive : 0 < (b :: rest).count event :=
        List.count_pos_iff.mpr (List.mem_of_getLast? hlast)
      exact Or.inr ⟨by omega, hlast, by omega⟩
    · rintro (⟨-, hnil⟩ | ⟨hn, hlast, hcount⟩)
      · cases hnil
      · exact ⟨hlast, by omega⟩

/-- A moment that has not come waits on after the first step. -/
theorem arrivesAfter_cons {moment : Moment} (hstart : moment ≠ .atStart) (e : Event)
    (before : List Event) :
    moment.ArrivesAfter (e :: before) ↔ (moment.after e).ArrivesAfter before := by
  have hcount : ∀ (event : Event) (n : Nat) (counted : Nat → Moment),
      (∀ k, (counted k).ArrivesAfter before ↔ EndsWithNth event k before) →
      (EndsWithNth event n (event :: before) ↔
        (if n == 1 then Moment.atStart else if n == 0 then .never
          else counted (n - 1)).ArrivesAfter before) := by
    intro event n counted hcounted
    rw [endsWithNth_cons_self]
    rcases n with _ | _ | n
    · simp [Moment.ArrivesAfter]
    · simp [Moment.ArrivesAfter]
    · simp [hcounted]
  cases moment with
  | never => rfl
  | atStart => exact absurd rfl hstart
  | afterAttribute n =>
    cases e with
    | attributeBound => exact hcount .attributeBound n .afterAttribute fun k => Iff.rfl
    | logged entry => exact endsWithNth_cons_of_ne (by simp) n before
    | checkpoint => exact endsWithNth_cons_of_ne (by simp) n before
    | renderingBegun => exact endsWithNth_cons_of_ne (by simp) n before
  | atRendering n =>
    cases e with
    | renderingBegun => exact hcount .renderingBegun n .atRendering fun k => Iff.rfl
    | logged entry => exact endsWithNth_cons_of_ne (by simp) n before
    | checkpoint => exact endsWithNth_cons_of_ne (by simp) n before
    | attributeBound => exact endsWithNth_cons_of_ne (by simp) n before

theorem not_arrivesAfter_nil {moment : Moment} (hstart : moment ≠ .atStart) :
    ¬moment.ArrivesAfter [] := by
  cases moment with
  | never => exact id
  | atStart => exact absurd rfl hstart
  | afterAttribute n => exact not_endsWithNth_nil _ n
  | atRendering n => exact not_endsWithNth_nil _ n

/-! ## The cut -/

/-- One step that is not the checkpoint at which a cancellation is noticed. -/
theorem cut?_cons {moment : Moment} {e : Event} (h : moment ≠ .atStart ∨ e ≠ .checkpoint)
    (rest : List Event) :
    moment.cut? (e :: rest) = ((moment.after e).cut? rest).map (e :: ·) := by
  rw [Moment.cut?]
  rintro rfl rfl
  rcases h with h | h <;> exact h rfl

/-- A trace is cut exactly when a checkpoint stands after the moment. -/
theorem isSome_cut?_iff (moment : Moment) (events : List Event) :
    (moment.cut? events).isSome ↔
      ∃ before after, events = before ++ after ∧ moment.ArrivesAfter before ∧
        Event.checkpoint ∈ after := by
  induction events generalizing moment with
  | nil => simp [Moment.cut?]
  | cons e rest ih =>
    by_cases hstart : moment = .atStart
    · subst hstart
      -- The cancellation is there, so the trace is cut at its first checkpoint.
      have hsplit : (∃ before after, e :: rest = before ++ after ∧
          Moment.atStart.ArrivesAfter before ∧ Event.checkpoint ∈ after) ↔
            Event.checkpoint ∈ e :: rest := by
        constructor
        · rintro ⟨before, after, heq, rfl, hmem⟩
          rwa [heq]
        · intro hmem
          exact ⟨[], e :: rest, rfl, rfl, hmem⟩
      rw [hsplit]
      by_cases hcheckpoint : e = .checkpoint
      · subst hcheckpoint
        simp [Moment.cut?]
      · rw [cut?_cons (Or.inr hcheckpoint), Option.isSome_map, ih]
        have hafter : Moment.atStart.after e = .atStart := by cases e <;> rfl
        rw [hafter, List.mem_cons, or_iff_right (Ne.symm hcheckpoint)]
        constructor
        · rintro ⟨before, after, heq, rfl, hmem⟩
          rwa [heq]
        · intro hmem
          exact ⟨[], rest, rfl, rfl, hmem⟩
    · rw [cut?_cons (Or.inl hstart), Option.isSome_map, ih]
      constructor
      · rintro ⟨before, after, rfl, harrives, hmem⟩
        exact ⟨e :: before, after, rfl, (arrivesAfter_cons hstart e before).mpr harrives, hmem⟩
      · rintro ⟨before, after, heq, harrives, hmem⟩
        cases before with
        | nil => exact absurd harrives (not_arrivesAfter_nil hstart)
        | cons b before =>
          obtain ⟨rfl, rfl⟩ := List.cons.inj heq
          exact ⟨before, after, rfl, (arrivesAfter_cons hstart _ before).mp harrives, hmem⟩

/-- Messages have no part in a cut. -/
theorem isSome_cut?_filter (moment : Moment) (events : List Event) :
    (moment.cut? (events.filter Event.isStep)).isSome = (moment.cut? events).isSome := by
  induction events generalizing moment with
  | nil => rfl
  | cons e rest ih =>
    cases e with
    | logged entry =>
      have hafter : moment.after (.logged entry) = moment := by cases moment <;> rfl
      rw [List.filter_cons_of_neg (by simp [Event.isStep]), cut?_cons (Or.inr (by simp)),
        Option.isSome_map, hafter, ih]
    | checkpoint =>
      rw [List.filter_cons_of_pos rfl]
      by_cases hstart : moment = .atStart
      · subst hstart
        simp [Moment.cut?]
      · rw [cut?_cons (Or.inl hstart), cut?_cons (Or.inl hstart), Option.isSome_map,
          Option.isSome_map, ih]
    | attributeBound =>
      rw [List.filter_cons_of_pos rfl, cut?_cons (Or.inr (by simp)), cut?_cons (Or.inr (by simp)),
        Option.isSome_map, Option.isSome_map, ih]
    | renderingBegun =>
      rw [List.filter_cons_of_pos rfl, cut?_cons (Or.inr (by simp)), cut?_cons (Or.inr (by simp)),
        Option.isSome_map, Option.isSome_map, ih]

theorem cut?_append (moment : Moment) (first second : List Event) :
    moment.cut? (first ++ second) =
      (moment.cut? first).or
        (((first.foldl Moment.after moment).cut? second).map (first ++ ·)) := by
  induction first generalizing moment with
  | nil => simp [Moment.cut?]
  | cons e rest ih =>
    by_cases hcut : moment = .atStart ∧ e = .checkpoint
    · obtain ⟨rfl, rfl⟩ := hcut
      simp [Moment.cut?]
    · have hgoes : moment ≠ .atStart ∨ e ≠ .checkpoint := by
        by_cases hstart : moment = .atStart
        · exact Or.inr fun he => hcut ⟨hstart, he⟩
        · exact Or.inl hstart
      rw [List.cons_append, cut?_cons hgoes, cut?_cons hgoes, ih, List.foldl_cons]
      cases (moment.after e).cut? rest with
      | none => cases (rest.foldl Moment.after (moment.after e)).cut? second <;> rfl
      | some events => rfl

/-! ## Interrupted computations -/

namespace Traced

variable {α β : Type}

/-- An interrupted sequence is the sequence of its interrupted parts.  The second part waits
for what the first has left. -/
theorem interrupt_bind (moment : Moment) (x : Traced α) (f : α → Traced β) :
    (x >>= f).interrupt moment =
      x.interrupt moment >>= fun a => (f a).interrupt (x.events.foldl Moment.after moment) := by
  obtain ⟨events, outcome⟩ := x
  change Traced.interrupt moment (Traced.bind _ f) = Traced.bind _ _
  cases outcome with
  | error e =>
    simp only [Traced.bind, Traced.interrupt]
    cases moment.cut? events <;> rfl
  | ok a =>
    simp only [Traced.bind, Traced.interrupt, cut?_append]
    cases moment.cut? events with
    | none =>
      cases hsecond : (events.foldl Moment.after moment).cut? (f a).events with
      | none => simp [hsecond]
      | some kept => simp [hsecond]
    | some kept => rfl

/-- At a checkpoint a cancellation that has arrived is noticed. -/
theorem interrupt_checkpoint (moment : Moment) :
    checkpoint.interrupt moment =
      if moment = .atStart then fail .cancelled else checkpoint := by
  cases moment <;> rfl

/-- No other step fails. -/
theorem interrupt_emit (moment : Moment) {e : Event} (h : e ≠ .checkpoint) :
    (emit e).interrupt moment = emit e := by
  have hcut : moment.cut? [e] = none := by
    rw [cut?_cons (Or.inr h)]
    rfl
  simp only [Traced.interrupt, emit, hcut]

theorem outcome_interrupt (moment : Moment) (x : Traced α) :
    (x.interrupt moment).outcome =
      if (moment.cut? x.steps).isSome then .error .cancelled else x.outcome := by
  rw [steps, isSome_cut?_filter, Traced.interrupt]
  cases moment.cut? x.events <;> rfl

theorem interrupt_never (x : Traced α) : x.interrupt .never = x := by
  have hcut : ∀ events : List Event, Moment.never.cut? events = none := by
    intro events
    induction events with
    | nil => rfl
    | cons e rest ih =>
      rw [cut?_cons (Or.inl (by simp))]
      simp [Moment.after, ih]
  rw [Traced.interrupt, hcut]

end Traced

end Backfield
