import Mathlib.Algebra.Order.Ring.Int
import Mathlib.Algebra.BigOperators.Group.Finset.Basic
import Mathlib.Algebra.Order.BigOperators.Group.Finset
import Xpcie.Library.ReadersWriterExclusion
import Xpcie.Library.Runs

/-!
# Progress under the lock

A thread inside is never blocked, and once everyone has left, any thread may
enter.  So a run gets stuck only when all methods have returned, and no run
goes on forever.
-/

namespace ReadersWriter

open Runs

variable {ι Op Shared Local : Type} {code : Op → Method Shared Local}

/-- The thread has returned from all its methods. -/
structure Thread.Done (thread : Thread Op Shared Local) : Prop where
  waiting : thread.waiting = []
  phase : thread.phase = .idle

/-- The steps the thread still has to make. -/
def Thread.work (code : Op → Method Shared Local)
    (thread : Thread Op Shared Local) : Nat :=
  (thread.waiting.map fun method => (code method).body.length + 2).sum +
    match thread.phase with
    | .idle => 0
    | .inside _ rest _ => rest.length + 1

section Progress

variable [DecidableEq ι] {limit : Nat} {start : Local}
  {state : State ι Op Shared Local}

omit [DecidableEq ι] in
theorem Lock.acquire_free {lock : Lock ι} (noWriter : lock.writer = none)
    (noReaders : lock.readers = []) (exclusive : Bool) (i : ι) :
    (lock.acquire limit exclusive i).isSome := by
  cases exclusive with
  | true => simp [Lock.acquire, Lock.write, noWriter, noReaders]
  | false =>
      rw [Lock.acquire, if_neg Bool.false_ne_true, Lock.read, noWriter,
        Option.isSome_none, if_neg Bool.false_ne_true]
      split <;> rfl

omit [DecidableEq ι] in
/-- Nobody is ever stuck while work is left. -/
theorem Guards.progress (guards : Guards code state)
    (stuck : ∀ i, ¬CanMove code limit state i) (i : ι) :
    (state.thread i).Done := by
  have idle : ∀ j, (state.thread j).phase = .idle := by
    intro j
    cases phase : (state.thread j).phase with
    | idle => rfl
    | inside method rest mine =>
        apply absurd _ (stuck j)
        rw [CanMove, phase]
        trivial
  have noWriter : state.lock.writer = none := by
    cases held : state.lock.writer with
    | none => rfl
    | some w =>
        exact absurd ((guards.writer w).mp held)
          (Thread.not_holds_of_idle (idle w) true)
  have noReaders : state.lock.readers = [] := by
    apply List.eq_nil_iff_forall_not_mem.mpr
    intro j member
    exact absurd ((guards.readers j).mp member)
      (Thread.not_holds_of_idle (idle j) false)
  refine ⟨?_, idle i⟩
  cases waiting : (state.thread i).waiting with
  | nil => rfl
  | cons method later =>
      apply absurd _ (stuck i)
      rw [CanMove, idle i, waiting]
      exact Lock.acquire_free noWriter noReaders (code method).exclusive i

/-- A move does one step of the work of its thread. -/
theorem work_step (start : Local) {i : ι}
    (able : CanMove code limit state i) :
    ((step code limit start state i).thread i).work code + 1 =
      (state.thread i).work code := by
  cases step_moves code limit start state i with
  | stay stuck => exact absurd able stuck
  | enter method later lock phase waiting _ _ moved =>
      rw [moved, enter_self]
      simp only [Thread.work, phase, waiting, List.map_cons, List.sum_cons]
      omega
  | act method action rest mine phase _ moved =>
      rw [moved, act_self]
      simp only [Thread.work, phase, List.length_cons]
      omega
  | leave method mine phase _ moved =>
      rw [moved, leave_self]
      simp only [Thread.work, phase, List.length_nil]

theorem work_step_other {i j : ι} (other : j ≠ i) :
    ((step code limit start state i).thread j).work code =
      (state.thread j).work code := by
  cases step_moves code limit start state i with
  | stay _ _ moved => rw [moved]
  | enter method later lock _ _ _ _ moved => rw [moved, enter_other other]
  | act method action rest mine _ _ moved => rw [moved, act_other other]
  | leave method mine _ _ moved => rw [moved, leave_other other]

variable [Fintype ι]

def totalWork (code : Op → Method Shared Local)
    (state : State ι Op Shared Local) : Nat :=
  Finset.univ.sum fun i => (state.thread i).work code

theorem totalWork_step (start : Local) {i : ι}
    (able : CanMove code limit state i) :
    totalWork code (step code limit start state i) < totalWork code state := by
  have own := work_step start able
  apply Finset.sum_lt_sum
  · intro j _
    by_cases same : j = i
    · subst same
      exact own ▸ Nat.le_succ _
    · exact Nat.le_of_eq (work_step_other same)
  · exact ⟨i, Finset.mem_univ i, own ▸ Nat.lt_succ_self _⟩

/-- A run of moves is no longer than the work it starts with. -/
theorem totalWork_run {schedule : List ι}
    (moves : Along (step code limit start) (CanMove code limit) state
      schedule) :
    schedule.length + totalWork code (run code limit start state schedule) ≤
      totalWork code state := by
  induction schedule generalizing state with
  | nil =>
      rw [List.length_nil, Nat.zero_add]
      exact Nat.le_refl _
  | cons i schedule induction =>
      obtain ⟨able, later⟩ := moves
      have rest := induction later
      have less := totalWork_step start able
      change _ + totalWork code (run code limit start
        (step code limit start state i) schedule) ≤ _
      rw [List.length_cons]
      omega

end Progress

end ReadersWriter
