import Mathlib.Logic.Basic

/-!
# Properties along a run

A run is a list of events, each taken from the state the earlier ones led to.
`Along` asks a relation between state and event at every step of it.
-/

namespace Runs

variable {State Model Event : Type}

def Along (step : State → Event → State) (holds : State → Event → Prop) :
    State → List Event → Prop
  | _, [] => True
  | state, event :: events =>
      holds state event ∧ Along step holds (step state event) events

variable {step : State → Event → State} {modelStep : Model → Event → Model}

@[simp] theorem along_nil (holds : State → Event → Prop) (state : State) :
    Along step holds state [] := trivial

@[simp] theorem along_cons (holds : State → Event → Prop) (state : State)
    (event : Event) (events : List Event) :
    Along step holds state (event :: events) ↔
      holds state event ∧ Along step holds (step state event) events :=
  Iff.rfl

theorem along_append (holds : State → Event → Prop) (state : State)
    (earlier later : List Event) :
    Along step holds state (earlier ++ later) ↔
      Along step holds state earlier ∧
        Along step holds (earlier.foldl step state) later := by
  induction earlier generalizing state with
  | nil => simp
  | cons event earlier induction =>
      rw [List.cons_append, along_cons, along_cons, List.foldl_cons,
        induction, and_assoc]

/-- An invariant kept by every admitted step holds at every step. -/
theorem Along.invariant
    {admits : State → Event → Prop} {invariant : State → Prop}
    (kept : ∀ state event, invariant state → admits state event →
      invariant (step state event))
    {state : State} {events : List Event}
    (admitted : Along step admits state events) (start : invariant state) :
    Along step (fun state event => invariant state ∧ admits state event)
      state events ∧ invariant (events.foldl step state) := by
  induction events generalizing state with
  | nil => exact ⟨trivial, start⟩
  | cons event events induction =>
      obtain ⟨first, rest⟩ := admitted
      obtain ⟨later, final⟩ := induction rest (kept state event start first)
      exact ⟨⟨⟨start, first⟩, later⟩, final⟩

/-- What is lost stays lost.  A run that ends without a loss has met the
condition whose breach loses it at every step. -/
theorem along_of_permanent {lost : State → Prop}
    {careful : State → Event → Prop}
    (permanent : ∀ state event, lost state → lost (step state event))
    (breach : ∀ state event, ¬careful state event → lost (step state event))
    {state : State} {events : List Event}
    (kept : ¬lost (events.foldl step state)) :
    Along step careful state events := by
  have stays : ∀ (events : List Event) (state : State), lost state →
      lost (events.foldl step state) := by
    intro events
    induction events with
    | nil => exact fun state gone => gone
    | cons event events induction =>
        exact fun state gone => induction _ (permanent state event gone)
  induction events generalizing state with
  | nil => trivial
  | cons event events induction =>
      refine ⟨?_, induction kept⟩
      apply Classical.byContradiction
      intro careless
      exact kept (stays events _ (breach state event careless))

theorem Along.mono {weaker stronger : State → Event → Prop}
    (implies : ∀ state event, stronger state event → weaker state event)
    {state : State} {events : List Event}
    (along : Along step stronger state events) :
    Along step weaker state events := by
  induction events generalizing state with
  | nil => trivial
  | cons event events induction =>
      exact ⟨implies state event along.1, induction along.2⟩

theorem Along.and {first second : State → Event → Prop} {state : State}
    {events : List Event} (firstAlong : Along step first state events)
    (secondAlong : Along step second state events) :
    Along step (fun state event => first state event ∧ second state event)
      state events := by
  induction events generalizing state with
  | nil => trivial
  | cons event events induction =>
      exact ⟨⟨firstAlong.1, secondAlong.1⟩,
        induction firstAlong.2 secondAlong.2⟩

/-- Two systems that move in step under a relation agree on a property along
a run, when related states agree on it and the property itself keeps the
relation. -/
theorem along_congr {related : State → Model → Prop}
    {admits : State → Event → Prop}
    {concrete : State → Event → Prop} {abstract : Model → Event → Prop}
    (agree : ∀ state model event, related state model → admits state event →
      (concrete state event ↔ abstract model event))
    (kept : ∀ state model event, related state model → admits state event →
      abstract model event →
      related (step state event) (modelStep model event))
    {state : State} {model : Model} {events : List Event}
    (start : related state model) (admitted : Along step admits state events) :
    Along step concrete state events ↔
      Along modelStep abstract model events := by
  induction events generalizing state model with
  | nil => exact Iff.rfl
  | cons event events induction =>
      obtain ⟨first, rest⟩ := admitted
      rw [along_cons, along_cons, agree state model event start first]
      constructor
      · rintro ⟨here, later⟩
        exact ⟨here, (induction (kept _ _ _ start first here) rest).mp later⟩
      · rintro ⟨here, later⟩
        exact ⟨here, (induction (kept _ _ _ start first here) rest).mpr later⟩

end Runs
