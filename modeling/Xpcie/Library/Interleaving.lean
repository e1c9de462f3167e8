import Mathlib.Algebra.BigOperators.Group.Finset.Basic
import Mathlib.Logic.Function.Basic
import Xpcie.Library.Runs

/-!
# Interleaved programs with exclusive windows

Straight-line programs act on one shared state, one action at a time and in
any order.  Each program has a window of positions that covers its guarded
actions, the only ones that change the shared state.  If no program enters
its window while another is inside, the windows never overlap, and what a
program has stored stays there until it leaves.
-/

namespace Interleaving

open Runs

variable {ι Action Shared : Type}

structure State (ι Shared : Type) where
  shared : Shared
  /-- How many actions each program has taken. -/
  position : ι → Nat

/-- Program `i` takes its next action, if it has one left. -/
def step [DecidableEq ι] (apply : Shared → Action → Shared)
    (program : ι → List Action) (state : State ι Shared) (i : ι) :
    State ι Shared :=
  match (program i)[state.position i]? with
  | some action =>
      { shared := apply state.shared action
        position := Function.update state.position i (state.position i + 1) }
  | none => state

section Step

variable [DecidableEq ι] {apply : Shared → Action → Shared}
  {program : ι → List Action} {state : State ι Shared} {i j : ι}

theorem step_of_some {action : Action}
    (next : (program i)[state.position i]? = some action) :
    step apply program state i =
      { shared := apply state.shared action
        position := Function.update state.position i
          (state.position i + 1) } := by
  rw [step, next]

theorem step_of_none (finished : (program i)[state.position i]? = none) :
    step apply program state i = state := by
  rw [step, finished]

theorem step_position_self {action : Action}
    (next : (program i)[state.position i]? = some action) :
    (step apply program state i).position i = state.position i + 1 := by
  rw [step_of_some next]
  exact Function.update_self i (state.position i + 1) state.position

theorem step_position_other (other : j ≠ i) :
    (step apply program state i).position j = state.position j := by
  cases next : (program i)[state.position i]? with
  | none => rw [step_of_none next]
  | some action =>
      rw [step_of_some next]
      exact Function.update_of_ne other _ state.position

end Step

section Trace

variable [DecidableEq ι] (apply : Shared → Action → Shared)
  (program : ι → List Action)

/-- The actions taken in a run, each with the program that takes it. -/
def trace : State ι Shared → List ι → List (ι × Action)
  | _, [] => []
  | state, i :: schedule =>
      ((program i)[state.position i]?).toList.map (Prod.mk i) ++
        trace (step apply program state i) schedule

/-- A program takes its actions in order. -/
theorem trace_own (state : State ι Shared) (schedule : List ι) (i : ι) :
    (program i).take (state.position i) ++
        ((trace apply program state schedule).filter
          fun taken => taken.1 = i).map Prod.snd =
      (program i).take
        ((schedule.foldl (step apply program) state).position i) := by
  induction schedule generalizing state with
  | nil => simp [trace]
  | cons j schedule induction =>
      rw [List.foldl_cons, ← induction, trace, List.filter_append,
        List.map_append, ← List.append_assoc]
      congr 1
      by_cases same : j = i
      · subst same
        cases next : (program j)[state.position j]? with
        | none => simp [step_of_none next]
        | some action =>
            rw [step_position_self next, List.take_add_one, next]
            simp
      · rw [step_position_other fun equal => same equal.symm]
        cases (program j)[state.position j]? <;> simp [same]

end Trace

section Additive

variable [DecidableEq ι] [Fintype ι] [AddCommMonoid Shared]
  (amount : Action → Shared) (program : ι → List Action)

/-- What program `i` has added in its first `count` actions. -/
def added (i : ι) (count : Nat) : Shared :=
  (((program i).take count).map amount).sum

variable {amount program} {start : Shared}

theorem step_shared_eq_sum {state : State ι Shared} (i : ι)
    (holds : state.shared = start + Finset.univ.sum fun j =>
      added amount program j (state.position j)) :
    let next := step (fun shared action => shared + amount action)
      program state i
    next.shared = start + Finset.univ.sum fun j =>
      added amount program j (next.position j) := by
  cases next : (program i)[state.position i]? with
  | none =>
      rw [step_of_none next]
      exact holds
  | some action =>
      have own : added amount program i (state.position i + 1) =
          added amount program i (state.position i) + amount action := by
        rw [added, List.take_add_one, next, Option.toList_some,
          List.map_append, List.sum_append, List.map_singleton,
          List.sum_singleton]
        rfl
      have others : (Finset.univ.erase i).sum (fun j =>
          added amount program j
            (Function.update state.position i (state.position i + 1) j)) =
            (Finset.univ.erase i).sum fun j =>
              added amount program j (state.position j) := by
        apply Finset.sum_congr rfl
        intro j member
        rw [Function.update_of_ne (Finset.ne_of_mem_erase member)]
      rw [step_of_some next]
      dsimp only
      rw [holds, ← Finset.add_sum_erase _ _ (Finset.mem_univ i),
        ← Finset.add_sum_erase _ _ (Finset.mem_univ i), others,
        Function.update_self, own, add_assoc, add_right_comm]

/-- When actions only add to the state, it is the sum of what the programs
have added, in whatever order. -/
theorem shared_eq_sum {state : State ι Shared} (schedule : List ι)
    (holds : state.shared = start + Finset.univ.sum fun j =>
      added amount program j (state.position j)) :
    let final := schedule.foldl
      (step (fun shared action => shared + amount action) program) state
    final.shared = start + Finset.univ.sum fun j =>
      added amount program j (final.position j) := by
  induction schedule generalizing state with
  | nil => exact holds
  | cons i schedule induction => exact induction (step_shared_eq_sum i holds)

end Additive

/-- Programs with windows that cover their guarded actions. -/
structure Protocol (ι Action Shared : Type) where
  program : ι → List Action
  apply : Shared → Action → Shared
  guarded : Action → Prop
  /-- A program is inside its window before the action at this position. -/
  inside : ι → Nat → Prop
  /-- What a program inside its window finds of its own in the state. -/
  owns : ι → Nat → Shared → Prop
  silent : ∀ shared action, ¬guarded action → apply shared action = shared
  entry : ∀ i position, ¬inside i position → inside i (position + 1) →
    ∃ action, (program i)[position]? = some action ∧ guarded action
  covered : ∀ i position action, (program i)[position]? = some action →
    guarded action → inside i position ∨ inside i (position + 1)
  stores : ∀ i position action shared,
    (program i)[position]? = some action → inside i (position + 1) →
    (inside i position → owns i position shared) →
    owns i (position + 1) (apply shared action)

namespace Protocol

variable (protocol : Protocol ι Action Shared)

/-- The next action of program `i`. -/
abbrev step [DecidableEq ι] (state : State ι Shared) (i : ι) :
    State ι Shared :=
  Interleaving.step protocol.apply protocol.program state i

def Inside (state : State ι Shared) (i : ι) : Prop :=
  protocol.inside i (state.position i)

/-- No program but `i` is inside its window. -/
def Alone (state : State ι Shared) (i : ι) : Prop :=
  ∀ j, j ≠ i → ¬protocol.Inside state j

/-- If `i` enters its window now, it is alone. -/
def EntersAlone (state : State ι Shared) (i : ι) : Prop :=
  ¬protocol.Inside state i → protocol.inside i (state.position i + 1) →
    protocol.Alone state i

/-- If the next action of `i` is guarded, `i` is alone and finds what it has
stored. -/
def ActsAlone (state : State ι Shared) (i : ι) : Prop :=
  ∀ action, (protocol.program i)[state.position i]? = some action →
    protocol.guarded action →
    protocol.Alone state i ∧
      (protocol.Inside state i →
        protocol.owns i (state.position i) state.shared)

/-- At most one program is inside its window, and it owns what it stored. -/
structure Separated (state : State ι Shared) : Prop where
  alone : ∀ i, protocol.Inside state i → protocol.Alone state i
  owned : ∀ i, protocol.Inside state i →
    protocol.owns i (state.position i) state.shared

variable {protocol}

theorem ActsAlone.entersAlone {state : State ι Shared} {i : ι}
    (acts : protocol.ActsAlone state i) : protocol.EntersAlone state i := by
  intro outside entering
  obtain ⟨action, next, guarded⟩ :=
    protocol.entry i (state.position i) outside entering
  exact (acts action next guarded).1

theorem Separated.actsAlone {state : State ι Shared} {i : ι}
    (separated : protocol.Separated state)
    (enters : protocol.EntersAlone state i) : protocol.ActsAlone state i := by
  intro action next guarded
  refine ⟨?_, separated.owned i⟩
  by_cases inside : protocol.Inside state i
  · exact separated.alone i inside
  · rcases protocol.covered i _ action next guarded with now | entering
    · exact absurd now inside
    · exact enters inside entering

section Step

variable [DecidableEq ι]

theorem step_inside_other {state : State ι Shared} {i j : ι}
    (other : j ≠ i) :
    protocol.Inside (protocol.step state i) j ↔ protocol.Inside state j := by
  rw [Inside, Inside, Protocol.step, step_position_other other]

/-- One step keeps the windows apart. -/
theorem Separated.step {state : State ι Shared} {i : ι}
    (separated : protocol.Separated state)
    (enters : protocol.EntersAlone state i) :
    protocol.Separated (protocol.step state i) := by
  cases next : (protocol.program i)[state.position i]? with
  | none =>
      rw [Protocol.step, step_of_none next]
      exact separated
  | some action =>
      have moved : protocol.Inside (protocol.step state i) i ↔
          protocol.inside i (state.position i + 1) := by
        rw [Inside, Protocol.step, step_position_self next]
      -- A program that is inside afterwards was alone before the step.
      have wasAlone : protocol.Inside (protocol.step state i) i →
          protocol.Alone state i := by
        intro after
        by_cases inside : protocol.Inside state i
        · exact separated.alone i inside
        · exact enters inside (moved.mp after)
      constructor
      · intro j inside
        by_cases same : j = i
        · subst same
          intro k other inside'
          exact wasAlone inside k other ((step_inside_other other).mp inside')
        · intro k other inside'
          have before := (step_inside_other same).mp inside
          by_cases moving : k = i
          · subst moving
            exact wasAlone inside' j same before
          · exact separated.alone j before k other
              ((step_inside_other moving).mp inside')
      · intro j inside
        by_cases same : j = i
        · subst same
          rw [Protocol.step, step_position_self next, step_of_some next]
          exact protocol.stores j _ action _ next (moved.mp inside)
            (separated.owned j)
        · have before := (step_inside_other same).mp inside
          -- Another program inside its window makes the action a silent one.
          have unguarded : ¬protocol.guarded action := by
            intro guarded
            exact (separated.actsAlone enters action next guarded).1 j same
              before
          rw [Protocol.step, step_position_other same, step_of_some next]
          dsimp only
          rw [protocol.silent _ _ unguarded]
          exact separated.owned j before

/-- Guarded actions are taken alone throughout a run exactly when windows
are entered alone. -/
theorem along_actsAlone_iff {state : State ι Shared}
    (start : protocol.Separated state) (schedule : List ι) :
    Along protocol.step protocol.ActsAlone state schedule ↔
      Along protocol.step protocol.EntersAlone state schedule := by
  constructor
  · exact Along.mono fun state i acts => acts.entersAlone
  · intro enters
    have invariant := Along.invariant
      (fun state i separated enters => Separated.step separated enters)
      enters start
    exact invariant.1.mono fun state i both => both.1.actsAlone both.2

end Step

end Protocol

end Interleaving
