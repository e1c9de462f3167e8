import Mathlib.Algebra.BigOperators.Group.Finset.Basic
import Mathlib.Algebra.Group.Int.Defs
import Mathlib.Data.Int.Cast.Lemmas
import Xpcie.Library.ReadersWriterReplay
import Xpcie.Library.ReadersWriterProgress

/-!
# A value shared by threads

`LockedValue` keeps a value behind an `RWLock`.  Its methods take the lock,
touch the value once or more, and release the lock before they return.  The
result codes of the lock calls are not looked at, which matters only to a
program with more threads than there are read locks.
-/

namespace Xpcie

open ReadersWriter Runs

/-- The variables of a method: `t`, and where `++_value` is computed.  They
hold anything at first. -/
structure LockedLocals (α : Type) where
  t : α
  scratch : α

/-- A call of a method of `LockedValue<Type>`. -/
inductive LockedCall (α : Type) where
  | set (value : α)
  | get
  | increase
  | decrease

section Methods

variable {α : Type}

/-- `_value=value` -/
def assignValue (value : α) : Action α (LockedLocals α) :=
  fun (_, locals) => (value, locals)

/-- `t=_value` -/
def loadValue : Action α (LockedLocals α) :=
  fun (held, locals) => (held, { locals with t := held })

/-- The load and the computation of `++_value` or `--_value`. -/
def computeValue (update : α → α) : Action α (LockedLocals α) :=
  fun (held, locals) => (held, { locals with scratch := update held })

/-- The store of `++_value` or `--_value`. -/
def storeValue : Action α (LockedLocals α) :=
  fun (_, locals) => (locals.scratch, locals)

variable [Add α] [Sub α] [One α]

/-- What each method does between taking the lock and releasing it. -/
def LockedCall.method : LockedCall α → Method α (LockedLocals α)
  | .set value =>
      { exclusive := true
        body := [assignValue value] }
  | .get =>
      { exclusive := false
        body := [loadValue] }
  | .increase =>
      { exclusive := true
        body := [computeValue (· + 1), storeValue, loadValue] }
  | .decrease =>
      { exclusive := true
        body := [computeValue (· - 1), storeValue, loadValue] }

/-- What a call returns; `set` returns nothing. -/
def LockedCall.returns (call : LockedCall α) (locals : LockedLocals α) :
    Option α :=
  match call with
  | .set _ => none
  | .get | .increase | .decrease => some locals.t

/-- `LockedValue::LockedValue`, and what the threads are to call. -/
def lockedValue [Zero α] {ι : Type} (program : ι → List (LockedCall α)) :
    State ι (LockedCall α) α (LockedLocals α) :=
  initial 0 program

/-! ## The value nobody shares -/

/-- The value a call leaves, and what it returns. -/
def LockedCall.effect : LockedCall α → α → α × Option α
  | .set value, _ => (value, none)
  | .get, held => (held, some held)
  | .increase, held => (held + 1, some (held + 1))
  | .decrease, held => (held - 1, some (held - 1))

variable {ι : Type}

def callsValue (origin : α) (calls : List (ι × LockedCall α)) : α :=
  calls.foldl (fun held called => (called.2.effect held).1) origin

def callsReturn : α → List (ι × LockedCall α) → List (ι × Option α)
  | _, [] => []
  | origin, called :: later =>
      (called.1, (called.2.effect origin).2) ::
        callsReturn (called.2.effect origin).1 later

theorem LockedCall.guarded (call : LockedCall α) : call.method.Guarded := by
  intro mode
  cases call with
  | get =>
      intro action member both
      rw [List.mem_singleton.mp member]
      rfl
  | set value => cases mode
  | increase => cases mode
  | decrease => cases mode

theorem LockedCall.run_eq (call : LockedCall α) (locals : LockedLocals α)
    (held : α) :
    (call.method.run locals held).1 = (call.effect held).1 ∧
      call.returns (call.method.run locals held).2 = (call.effect held).2 := by
  cases call with
  | set value => exact ⟨rfl, rfl⟩
  | get => exact ⟨rfl, rfl⟩
  | increase => exact ⟨rfl, rfl⟩
  | decrease => exact ⟨rfl, rfl⟩

theorem replay_calls (locals : LockedLocals α) (origin : α)
    (calls : List (ι × LockedCall α)) :
    replay LockedCall.method locals origin calls = callsValue origin calls := by
  induction calls generalizing origin with
  | nil => rfl
  | cons called later induction =>
      have step := (called.2.run_eq locals origin).1
      change replay LockedCall.method locals
        (called.2.method.run locals origin).1 later = _
      rw [step]
      exact induction _

theorem ofThread_callsReturn [DecidableEq ι] (locals : LockedLocals α)
    (origin : α) (calls : List (ι × LockedCall α)) (i : ι) :
    ofThread i (callsReturn origin calls) =
      List.zipWith LockedCall.returns (ofThread i calls)
        (ofThread i
          (sequentialResults LockedCall.method locals origin calls)) := by
  induction calls generalizing origin with
  | nil => rfl
  | cons called later induction =>
      obtain ⟨j, call⟩ := called
      have step := call.run_eq locals origin
      have rest := induction (call.effect origin).1
      rw [callsReturn, sequentialResults, step.1]
      by_cases same : j = i
      · subst same
        simpa [ofThread, step.2] using rest
      · simpa [ofThread, same] using rest

end Methods

/-! ## Every run agrees with one that takes the calls in turn -/

section Runs

variable {α ι : Type} [Add α] [Sub α] [One α] [Zero α] [DecidableEq ι]

/-- The state after a run; the threads move in the order of the schedule. -/
def lockedRun (program : ι → List (LockedCall α)) (limit : Nat)
    (garbage : LockedLocals α) (schedule : List ι) :
    State ι (LockedCall α) α (LockedLocals α) :=
  run LockedCall.method limit garbage (lockedValue program) schedule

/-- The calls made in a run, in the order in which they take the lock. -/
def lockedOrder (program : ι → List (LockedCall α)) (limit : Nat)
    (garbage : LockedLocals α) (schedule : List ι) :
    List (ι × LockedCall α) :=
  history LockedCall.method limit garbage (lockedValue program) schedule

/-- What the calls of a thread have returned. -/
def returnedValues (program : ι → List (LockedCall α))
    (state : State ι (LockedCall α) α (LockedLocals α)) (i : ι) :
    List (Option α) :=
  List.zipWith LockedCall.returns (program i) (state.thread i).returned

/-- Nobody is inside a method. -/
def Quiescent (state : State ι (LockedCall α) α (LockedLocals α)) : Prop :=
  ∀ i, (state.thread i).phase = .idle

/-- The calls, made one after another in this order, return and leave what
they do in the run. -/
structure CallsLinearize (program : ι → List (LockedCall α)) (limit : Nat)
    (garbage : LockedLocals α) (schedule : List ι)
    (order : List (ι × LockedCall α)) : Prop where
  /-- Each thread makes its calls in its own order. -/
  own : ∀ i, ofThread i order <+: program i
  returned : ∀ i,
    returnedValues program (lockedRun program limit garbage schedule) i <+:
      ofThread i (callsReturn 0 order)
  /-- A thread has at most one call that has not returned. -/
  pending : ∀ i, (ofThread i order).length ≤
    ((lockedRun program limit garbage schedule).thread i).returned.length + 1
  /-- A call comes before those that begin after it has returned. -/
  realTime : ∀ earlier, earlier <+: schedule →
    lockedOrder program limit garbage earlier <+: order ∧
      ∀ i, ((lockedRun program limit garbage earlier).thread
          i).returned.length ≤
        (ofThread i (lockedOrder program limit garbage earlier)).length
  value : Quiescent (lockedRun program limit garbage schedule) →
    (lockedRun program limit garbage schedule).shared = callsValue 0 order ∧
      ∀ i, returnedValues program (lockedRun program limit garbage schedule)
        i = ofThread i (callsReturn 0 order)

theorem lockedRun_replays [Fintype ι] {limit : Nat}
    (enough : Fintype.card ι ≤ limit) (program : ι → List (LockedCall α))
    (garbage : LockedLocals α) (schedule : List ι) :
    Guards LockedCall.method (lockedRun program limit garbage schedule) ∧
      Replays LockedCall.method garbage 0 program
        (lockedOrder program limit garbage schedule)
        (lockedRun program limit garbage schedule) :=
  (replays_initial LockedCall.method garbage 0 program).run enough
    LockedCall.guarded (guards_initial LockedCall.method 0 program) schedule

theorem lockedRun_returned_length [Fintype ι] {limit : Nat}
    (enough : Fintype.card ι ≤ limit) (program : ι → List (LockedCall α))
    (garbage : LockedLocals α) (schedule : List ι) (i : ι) :
    ((lockedRun program limit garbage schedule).thread i).returned.length ≤
      (ofThread i (lockedOrder program limit garbage schedule)).length := by
  have replays := (lockedRun_replays enough program garbage schedule).2
  rw [← ofThread_results_length LockedCall.method garbage 0]
  exact (replays.returned i).1.length_le

omit [Add α] [Sub α] [One α] [Zero α] [DecidableEq ι] in
theorem zipWith_append_left {β γ : Type} (f : α → β → γ) (left more : List α)
    (right : List β) (short : right.length ≤ left.length) :
    List.zipWith f (left ++ more) right = List.zipWith f left right := by
  induction left generalizing right with
  | nil =>
      rw [List.length_eq_zero_iff.mp (Nat.le_zero.mp short),
        List.zipWith_nil_right, List.zipWith_nil_right]
  | cons item left induction =>
      cases right with
      | nil => rw [List.zipWith_nil_right, List.zipWith_nil_right]
      | cons other right =>
          rw [List.cons_append, List.zipWith_cons_cons,
            List.zipWith_cons_cons,
            induction right (Nat.le_of_succ_le_succ short)]

omit [Add α] [Sub α] [One α] [Zero α] [DecidableEq ι] in
theorem zipWith_prefix {β γ : Type} (f : α → β → γ) (left : List α)
    {right more : List β} (first : right <+: more) :
    List.zipWith f left right <+: List.zipWith f left more := by
  obtain ⟨rest, rfl⟩ := first
  induction left generalizing right with
  | nil => exact List.prefix_refl _
  | cons item left induction =>
      cases right with
      | nil => exact List.nil_prefix
      | cons other right =>
          rw [List.cons_append, List.zipWith_cons_cons,
            List.zipWith_cons_cons, List.prefix_cons_inj]
          exact induction

theorem lockedRun_returnedValues [Fintype ι] {limit : Nat}
    (enough : Fintype.card ι ≤ limit) (program : ι → List (LockedCall α))
    (garbage : LockedLocals α) (schedule : List ι) (i : ι) :
    let state := lockedRun program limit garbage schedule
    let order := lockedOrder program limit garbage schedule
    returnedValues program state i =
      List.zipWith LockedCall.returns (ofThread i order)
        (state.thread i).returned := by
  intro state order
  have replays := (lockedRun_replays enough program garbage schedule).2
  rw [returnedValues, ← replays.program i]
  exact zipWith_append_left _ _ _ _
    (lockedRun_returned_length enough program garbage schedule i)

theorem lockedRun_quiescent [Fintype ι] {limit : Nat}
    (enough : Fintype.card ι ≤ limit) (program : ι → List (LockedCall α))
    (garbage : LockedLocals α) {schedule : List ι}
    (quiescent : Quiescent (lockedRun program limit garbage schedule)) :
    let order := lockedOrder program limit garbage schedule
    (lockedRun program limit garbage schedule).shared = callsValue 0 order ∧
      ∀ i, returnedValues program (lockedRun program limit garbage schedule)
        i = ofThread i (callsReturn 0 order) := by
  intro order
  obtain ⟨guards, replays⟩ := lockedRun_replays enough program garbage schedule
  constructor
  · rw [← replay_calls garbage]
    apply replays.shared
    cases held : (lockedRun program limit garbage schedule).lock.writer with
    | none => rfl
    | some w =>
        exact absurd ((guards.writer w).mp held)
          (Thread.not_holds_of_idle (quiescent w) true)
  · intro i
    rw [lockedRun_returnedValues enough program garbage schedule i,
      ofThread_callsReturn garbage, (replays.returned i).2.1 (quiescent i)]

theorem lockedValue_linearizes [Fintype ι] {limit : Nat}
    (enough : Fintype.card ι ≤ limit) (program : ι → List (LockedCall α))
    (garbage : LockedLocals α) (schedule : List ι) :
    CallsLinearize program limit garbage schedule
      (lockedOrder program limit garbage schedule) := by
  obtain ⟨guards, replays⟩ := lockedRun_replays enough program garbage schedule
  constructor
  · intro i
    exact ⟨_, replays.program i⟩
  · intro i
    rw [lockedRun_returnedValues enough program garbage schedule i,
      ofThread_callsReturn garbage]
    exact zipWith_prefix _ _ (replays.returned i).1
  · intro i
    exact (replays.returned i).2.2
  · rintro earlier ⟨later, rfl⟩
    refine ⟨⟨_, (history_append garbage (lockedValue program) earlier
      later).symm⟩, ?_⟩
    exact lockedRun_returned_length enough program garbage earlier
  · exact lockedRun_quiescent enough program garbage

/-! One thread counts twice while the other counts once and looks. -/

def twoCounters : Bool → List (LockedCall Int)
  | false => [.increase, .decrease]
  | true => [.increase, .get]

/-- The second thread is inside while the first waits for the lock. -/
def contendedSchedule : List Bool :=
  [true, false, true, true, false, true, true] ++ List.replicate 5 false ++
    List.replicate 5 true ++ List.replicate 5 false

def zeroLocals : LockedLocals Int :=
  { t := 0
    scratch := 0 }

theorem lockedValue_linearizes_contended :
    CallsLinearize twoCounters 2 zeroLocals contendedSchedule
      (lockedOrder twoCounters 2 zeroLocals contendedSchedule) :=
  lockedValue_linearizes (by decide) twoCounters zeroLocals contendedSchedule

theorem lockedRun_order [Fintype ι] {limit : Nat}
    (enough : Fintype.card ι ≤ limit) (program : ι → List (LockedCall α))
    (garbage : LockedLocals α) {schedule : List ι}
    (quiescent : Quiescent (lockedRun program limit garbage schedule))
    (i : ι) :
    ofThread i (lockedOrder program limit garbage schedule) =
      (program i).take
        ((lockedRun program limit garbage schedule).thread
          i).returned.length := by
  have replays := (lockedRun_replays enough program garbage schedule).2
  have made := ofThread_results_length LockedCall.method garbage 0
    (lockedOrder program limit garbage schedule) i
  rw [← (replays.returned i).2.1 (quiescent i)] at made
  rw [made, ← replays.program i, List.take_left]

/-- Nobody waits for good: as long as a call is left, some thread can move,
and a run of moves has an end. -/
theorem lockedValue_completes [Fintype ι] {limit : Nat}
    (enough : Fintype.card ι ≤ limit) (program : ι → List (LockedCall α))
    (garbage : LockedLocals α) {schedule : List ι}
    (moves : Along (step LockedCall.method limit garbage)
      (CanMove LockedCall.method limit) (lockedValue program) schedule) :
    schedule.length ≤ totalWork LockedCall.method (lockedValue program) ∧
      ((∃ i, CanMove LockedCall.method limit
          (lockedRun program limit garbage schedule) i) ∨
        ∀ i, ((lockedRun program limit garbage schedule).thread i).Done) := by
  obtain ⟨guards, _⟩ := lockedRun_replays enough program garbage schedule
  refine ⟨Nat.le_trans (Nat.le_add_right _ _) (totalWork_run moves), ?_⟩
  by_cases able : ∃ i, CanMove LockedCall.method limit
      (lockedRun program limit garbage schedule) i
  · exact .inl able
  · exact .inr (guards.progress fun i can => able ⟨i, can⟩)

theorem lockedValue_completes_contended :
    3 ≤ totalWork LockedCall.method (lockedValue twoCounters) ∧
      ((∃ i, CanMove LockedCall.method 2
          (lockedRun twoCounters 2 zeroLocals [true, true, true]) i) ∨
        ∀ i, ((lockedRun twoCounters 2 zeroLocals
          [true, true, true]).thread i).Done) := by
  have moves : Along (step LockedCall.method 2 zeroLocals)
      (CanMove LockedCall.method 2) (lockedValue twoCounters)
      [true, true, true] := by
    refine ⟨rfl, ?_, ?_, trivial⟩
    · trivial
    · trivial
  exact lockedValue_completes (by decide) twoCounters zeroLocals moves

end Runs

/-! ## Counting -/

section Counting

variable {α ι : Type} [AddCommGroupWithOne α]

/-- What a call adds to the value; nothing can be said of `set`. -/
def LockedCall.change : LockedCall α → Option α
  | .set _ => none
  | .get => some 0
  | .increase => some 1
  | .decrease => some (-1)

theorem LockedCall.effect_change {call : LockedCall α} {added : α}
    (changes : call.change = some added) (held : α) :
    (call.effect held).1 = held + added := by
  cases call with
  | set value => cases changes
  | get =>
      cases changes
      exact (add_zero held).symm
  | increase =>
      cases changes
      rfl
  | decrease =>
      cases changes
      exact sub_eq_add_neg held 1

/-- What the calls add up to. -/
def changes (calls : List (LockedCall α)) : α :=
  (calls.map fun call => call.change.getD 0).sum

theorem callsValue_changes {calls : List (ι × LockedCall α)}
    (counting : ∀ called ∈ calls, called.2.change.isSome) (origin : α) :
    callsValue origin calls = origin + changes (calls.map Prod.snd) := by
  induction calls generalizing origin with
  | nil => exact (add_zero origin).symm
  | cons called later induction =>
      obtain ⟨added, same⟩ := Option.isSome_iff_exists.mp
        (counting called List.mem_cons_self)
      have rest := induction
        (fun other member => counting other (List.mem_cons_of_mem called member))
        (called.2.effect origin).1
      change callsValue (called.2.effect origin).1 later = _
      rw [rest, LockedCall.effect_change same, changes, changes,
        List.map_cons, List.map_cons, List.sum_cons, same, Option.getD_some,
        add_assoc]

theorem callsReturn_increase {calls : List (ι × LockedCall α)}
    (counting : ∀ called ∈ calls, called.2 = .increase) (origin : α) :
    (callsReturn origin calls).map Prod.snd =
      (List.range calls.length).map fun n =>
        some (origin + ((n + 1 : Nat) : α)) := by
  induction calls generalizing origin with
  | nil => rfl
  | cons called later induction =>
      have first := counting called List.mem_cons_self
      have rest := induction
        (fun other member => counting other (List.mem_cons_of_mem called member))
        (origin + 1)
      rw [callsReturn, first, List.map_cons, List.length_cons,
        List.range_succ_eq_map, List.map_cons, List.map_map]
      change some (origin + 1) ::
        (callsReturn (origin + 1) later).map Prod.snd = _
      rw [rest]
      apply congrArg₂ List.cons
      · rw [Nat.zero_add, Nat.cast_one]
      · apply List.map_congr_left
        intro n _
        rw [Function.comp_apply, Nat.cast_succ (n + 1), add_assoc,
          add_comm 1]

variable [Fintype ι] [DecidableEq ι]

/-- No update is lost: whenever nobody is inside a method, the value is the
sum of what the calls made so far have added. -/
theorem lockedValue_counts {limit : Nat} (enough : Fintype.card ι ≤ limit)
    {program : ι → List (LockedCall α)}
    (counting : ∀ i, ∀ call ∈ program i, call.change.isSome)
    (garbage : LockedLocals α) {schedule : List ι}
    (quiescent : Quiescent (lockedRun program limit garbage schedule)) :
    (lockedRun program limit garbage schedule).shared =
      Finset.univ.sum fun i => changes ((program i).take
        ((lockedRun program limit garbage schedule).thread
          i).returned.length) := by
  have order := lockedRun_order enough program garbage quiescent
  rw [(lockedRun_quiescent enough program garbage quiescent).1,
    callsValue_changes, zero_add, changes, ← sum_ofThread]
  · apply Finset.sum_congr rfl
    intro i _
    rw [order i, changes]
  · intro called member
    apply counting called.1
    apply List.mem_of_mem_take
    rw [← order called.1]
    exact mem_ofThread member

theorem contended_quiescent :
    Quiescent (lockedRun twoCounters 2 zeroLocals contendedSchedule) := by
  intro i
  cases i with
  | false => rfl
  | true => rfl

theorem lockedValue_counts_contended :
    (lockedRun twoCounters 2 zeroLocals contendedSchedule).shared =
      Finset.univ.sum fun i => changes ((twoCounters i).take
        ((lockedRun twoCounters 2 zeroLocals contendedSchedule).thread
          i).returned.length) :=
  lockedValue_counts (by decide)
    (by
      intro i call member
      cases i with
      | false =>
          simp only [twoCounters, List.mem_cons, List.not_mem_nil,
            or_false] at member
          rcases member with rfl | rfl
          · rfl
          · rfl
      | true =>
          simp only [twoCounters, List.mem_cons, List.not_mem_nil,
            or_false] at member
          rcases member with rfl | rfl
          · rfl
          · rfl)
    zeroLocals contended_quiescent

omit [AddCommGroupWithOne α] in
theorem sum_singletons (values : List α) :
    (values.map fun value => ({value} : Multiset α)).sum = values := by
  have sum := Multiset.sum_map_singleton (values : Multiset α)
  rwa [Multiset.map_coe, Multiset.sum_coe] at sum

/-- With `increase` alone the calls hand out the numbers from one on, each of
them once. -/
theorem lockedValue_tickets {limit : Nat} (enough : Fintype.card ι ≤ limit)
    {program : ι → List (LockedCall α)}
    (counting : ∀ i, ∀ call ∈ program i, call = .increase)
    (garbage : LockedLocals α) {schedule : List ι}
    (quiescent : Quiescent (lockedRun program limit garbage schedule)) :
    let state := lockedRun program limit garbage schedule
    (Finset.univ.sum fun i =>
        (returnedValues program state i : Multiset (Option α))) =
      ((List.range (Finset.univ.sum fun i =>
        (state.thread i).returned.length)).map fun n =>
          some (((n + 1 : Nat) : α)) : Multiset (Option α)) := by
  intro state
  let order := lockedOrder program limit garbage schedule
  have own := lockedRun_order enough program garbage quiescent
  have replays := (lockedRun_replays enough program garbage schedule).2
  have increases : ∀ called ∈ order, called.2 = .increase := by
    intro called member
    apply counting called.1
    apply List.mem_of_mem_take
    rw [← own called.1]
    exact mem_ofThread member
  have calls : (Finset.univ.sum fun i =>
      (state.thread i).returned.length) = order.length := by
    have total := sum_ofThread (fun _ => 1) order
    simp only [List.map_const', List.sum_replicate_nat, Nat.mul_one,
      List.length_map] at total
    rw [← total]
    apply Finset.sum_congr rfl
    intro i _
    rw [← ofThread_results_length LockedCall.method garbage 0,
      ← (replays.returned i).2.1 (quiescent i)]
  have values := sum_ofThread (fun value => ({value} : Multiset (Option α)))
    (callsReturn 0 order)
  rw [sum_singletons, callsReturn_increase increases] at values
  rw [calls]
  simp only [zero_add] at values
  rw [← values]
  apply Finset.sum_congr rfl
  intro i _
  rw [sum_singletons,
    (lockedRun_quiescent enough program garbage quiescent).2 i]

/-- Each thread draws two tickets. -/
def twoDraws : Bool → List (LockedCall Int) :=
  fun _ => [.increase, .increase]

theorem draws_quiescent :
    Quiescent (lockedRun twoDraws 2 zeroLocals contendedSchedule) := by
  intro i
  cases i with
  | false => rfl
  | true => rfl

theorem lockedValue_tickets_draws :
    let state := lockedRun twoDraws 2 zeroLocals contendedSchedule
    (Finset.univ.sum fun i =>
        (returnedValues twoDraws state i : Multiset (Option Int))) =
      ((List.range (Finset.univ.sum fun i =>
        (state.thread i).returned.length)).map fun n =>
          some (((n + 1 : Nat) : Int)) : Multiset (Option Int)) :=
  lockedValue_tickets (by decide)
    (by
      intro i call member
      rcases List.mem_cons.mp member with rfl | member
      · rfl
      · exact List.mem_singleton.mp member)
    zeroLocals draws_quiescent

end Counting

end Xpcie
