import Mathlib.Algebra.BigOperators.Group.Finset.Piecewise
import Xpcie.Library.ReadersWriterExclusion

/-!
# Agreement with a sequential run

The methods entered in a run, carried out one after another in the order in
which they took the lock, account for the shared value and for everything the
threads have returned.
-/

namespace ReadersWriter

variable {ι Op Shared Local : Type} {code : Op → Method Shared Local}

/-- The value and the results once the thread has ended its method, if nobody
else moves. -/
def Thread.finish (shared : Shared) (thread : Thread Op Shared Local) :
    Shared × List Local :=
  match thread.phase with
  | .idle => (shared, thread.returned)
  | .inside _ rest mine =>
      ((perform rest (shared, mine)).1,
        thread.returned ++ [(perform rest (shared, mine)).2])

theorem Thread.finish_idle {thread : Thread Op Shared Local}
    (idle : thread.phase = .idle) (shared : Shared) :
    thread.finish shared = (shared, thread.returned) := by
  rw [Thread.finish, idle]

theorem Thread.finish_inside {thread : Thread Op Shared Local}
    {method : Op} {rest : List (Action Shared Local)}
    {mine : Local} (phase : thread.phase = .inside method rest mine)
    (shared : Shared) :
    thread.finish shared = ((perform rest (shared, mine)).1,
      thread.returned ++ [(perform rest (shared, mine)).2]) := by
  rw [Thread.finish, phase]

/-- The methods entered so far, run one after another, account for the value
and for what every thread returns. -/
structure Replays [DecidableEq ι] (code : Op → Method Shared Local)
    (start : Local) (origin : Shared)
    (program : ι → List Op)
    (methods : List (ι × Op))
    (state : State ι Op Shared Local) : Prop where
  shared : state.lock.writer = none →
    state.shared = replay code start origin methods
  writer : ∀ i, (state.thread i).Holds code true →
    ((state.thread i).finish state.shared).1 = replay code start origin methods
  results : ∀ i, ((state.thread i).finish state.shared).2 =
    ofThread i (sequentialResults code start origin methods)
  program : ∀ i, ofThread i methods ++ (state.thread i).waiting = program i

section Agreement

variable [DecidableEq ι] {limit : Nat} {start : Local} {origin : Shared}
  {program : ι → List Op}
  {methods : List (ι × Op)}
  {state : State ι Op Shared Local} {i : ι}

omit [DecidableEq ι] in
theorem Lock.acquire_writer {lock taken : Lock ι} {exclusive : Bool}
    (acquired : lock.acquire limit exclusive i = some taken) :
    lock.writer = none ∧
      taken.writer = if exclusive then some i else none := by
  cases exclusive with
  | true =>
      rw [Lock.acquire, if_pos rfl] at acquired
      obtain ⟨noWriter, _, rfl⟩ := Lock.write_eq_some.mp acquired
      exact ⟨noWriter, rfl⟩
  | false =>
      rw [Lock.acquire, if_neg Bool.false_ne_true, Lock.read] at acquired
      split at acquired
      · cases acquired
      · rename_i noWriter
        have free := Option.not_isSome_iff_eq_none.mp noWriter
        split at acquired
        · cases acquired
          exact ⟨free, free⟩
        · cases acquired
          exact ⟨free, free⟩

theorem Replays.enter (replays : Replays code start origin program methods state)
    (guards : Guards code state) {method : Op} {later : List Op}
    {lock : Lock ι} (guarded : (code method).Guarded)
    (idle : (state.thread i).phase = .idle)
    (waiting : (state.thread i).waiting = method :: later)
    (acquired : state.lock.acquire limit (code method).exclusive i = some lock) :
    Replays code start origin program (methods ++ [(i, method)])
      (state.enter code i lock method later start) := by
  obtain ⟨noWriter, taken⟩ := Lock.acquire_writer acquired
  have value := replays.shared noWriter
  have left : replay code start origin (methods ++ [(i, method)]) =
      ((code method).run start state.shared).1 := by
    rw [replay_append, ← value]
    rfl
  have returns : sequentialResults code start origin (methods ++ [(i, method)]) =
      sequentialResults code start origin methods ++
        [(i, ((code method).run start state.shared).2)] := by
    rw [sequentialResults_append, ← value]
    rfl
  constructor
  · intro stillNone
    change lock.writer = none at stillNone
    rw [left]
    have mode : (code method).exclusive = false := by
      cases mode : (code method).exclusive with
      | false => rfl
      | true =>
          rw [mode, if_pos rfl, stillNone] at taken
          cases taken
    exact ((guarded mode).perform (state.shared, start)).symm
  · intro j holds
    by_cases same : j = i
    · subst same
      rw [enter_self, Thread.finish_inside rfl, left]
      rfl
    · rw [enter_other same] at holds
      have held := (guards.writer j).mpr holds
      rw [noWriter] at held
      cases held
  · intro j
    by_cases same : j = i
    · subst same
      have before := replays.results j
      rw [Thread.finish_idle idle] at before
      rw [enter_self, Thread.finish_inside rfl, returns, ofThread_append,
        ofThread_self, ← before]
      rfl
    · rw [enter_other same, returns, ofThread_append, ofThread_other same,
        List.append_nil]
      exact replays.results j
  · intro j
    by_cases same : j = i
    · subst same
      have before := replays.program j
      rw [waiting] at before
      rw [enter_self, ofThread_append, ofThread_self, List.append_assoc,
        List.singleton_append]
      exact before
    · rw [enter_other same, ofThread_append, ofThread_other same,
        List.append_nil]
      exact replays.program j

theorem Replays.act (replays : Replays code start origin program methods state)
    (guards : Guards code state) {method : Op}
    {action : Action Shared Local} {rest : List (Action Shared Local)}
    {mine : Local}
    (phase : (state.thread i).phase = .inside method (action :: rest) mine) :
    Replays code start origin program methods
      (state.act i method rest (action (state.shared, mine))) := by
  have own : ((state.act i method rest (action (state.shared, mine))).thread
      i).finish (action (state.shared, mine)).1 =
        (state.thread i).finish state.shared := by
    rw [act_self, Thread.finish_inside rfl, Thread.finish_inside phase]
    rfl
  -- Only a writer changes the value, and a writer is alone.
  have value : (code method).exclusive = false →
      (action (state.shared, mine)).1 = state.shared := by
    intro mode
    exact guards.quiet i method _ mine phase mode action List.mem_cons_self
      (state.shared, mine)
  have busy : ∀ j, (state.thread j).Holds code true → j = i := by
    intro j holds
    by_contra other
    have idle := guards.alone j i holds (fun same => other same.symm)
    rw [phase] at idle
    cases idle
  constructor
  · intro noWriter
    have mode : (code method).exclusive = false := by
      cases mode : (code method).exclusive with
      | false => rfl
      | true =>
          have held := (guards.writer i).mpr ⟨_, _, _, phase, mode⟩
          change state.lock.writer = none at noWriter
          rw [noWriter] at held
          cases held
    exact (value mode).trans (replays.shared noWriter)
  · intro j holds
    rw [act_holds phase] at holds
    have same := busy j holds
    subst same
    change (Thread.finish (action (state.shared, mine)).1 _).1 = _
    rw [own]
    exact replays.writer j holds
  · intro j
    change (Thread.finish (action (state.shared, mine)).1 _).2 = _
    by_cases same : j = i
    · subst same
      rw [own]
      exact replays.results j
    · rw [act_other same]
      have before := replays.results j
      cases mode : (code method).exclusive with
      | false =>
          rw [value mode]
          exact before
      | true =>
          have idle := guards.alone i j ⟨_, _, _, phase, mode⟩ same
          rw [Thread.finish_idle idle] at before ⊢
          exact before
  · intro j
    by_cases same : j = i
    · subst same
      rw [act_self]
      exact replays.program j
    · rw [act_other same]
      exact replays.program j

theorem Replays.leave (replays : Replays code start origin program methods state)
    (guards : Guards code state) {method : Op} {mine : Local}
    (phase : (state.thread i).phase = .inside method [] mine) :
    Replays code start origin program methods (state.leave i mine) := by
  have finished := Thread.finish_inside phase state.shared
  constructor
  · intro noWriter
    change (state.lock.release i).writer = none at noWriter
    rw [Lock.release] at noWriter
    split at noWriter
    · rename_i held
      have value := replays.writer i ((guards.writer i).mp held)
      rw [finished] at value
      exact value
    · exact replays.shared noWriter
  · intro j holds
    by_cases same : j = i
    · subst same
      rw [leave_self] at holds
      exact absurd holds (Thread.not_holds_of_idle rfl true)
    · rw [leave_other same] at holds
      have idle := guards.alone j i holds fun equal => same equal.symm
      rw [phase] at idle
      cases idle
  · intro j
    have before := replays.results j
    by_cases same : j = i
    · subst same
      rw [finished] at before
      rw [leave_self, Thread.finish_idle rfl]
      exact before
    · rw [leave_other same]
      exact before
  · intro j
    by_cases same : j = i
    · subst same
      rw [leave_self]
      exact replays.program j
    · rw [leave_other same]
      exact replays.program j

theorem Replays.step (replays : Replays code start origin program methods state)
    (guards : Guards code state) (guarded : ∀ method, (code method).Guarded)
    (i : ι) :
    Replays code start origin program
      (methods ++ (entry code limit state i).toList.map (Prod.mk i))
      (step code limit start state i) := by
  cases step_moves code limit start state i with
  | stay _ enters moved =>
      rw [moved, enters, Option.toList_none, List.map_nil, List.append_nil]
      exact replays
  | enter method later lock phase waiting acquired enters moved =>
      rw [moved, enters]
      exact replays.enter guards (guarded method) phase waiting acquired
  | act method action rest mine phase enters moved =>
      rw [moved, enters, Option.toList_none, List.map_nil, List.append_nil]
      exact replays.act guards phase
  | leave method mine phase enters moved =>
      rw [moved, enters, Option.toList_none, List.map_nil, List.append_nil]
      exact replays.leave guards phase

/-- What is added up over a list is added up over the parts of the
threads. -/
theorem sum_ofThread [Fintype ι] {α Sum : Type} [AddCommMonoid Sum]
    (amount : α → Sum) (tagged : List (ι × α)) :
    (Finset.univ.sum fun i => ((ofThread i tagged).map amount).sum) =
      ((tagged.map Prod.snd).map amount).sum := by
  induction tagged with
  | nil => exact Finset.sum_const_zero
  | cons entry tagged induction =>
      have split : ∀ i, ((ofThread i (entry :: tagged)).map amount).sum =
          (if entry.1 = i then amount entry.2 else 0) +
            ((ofThread i tagged).map amount).sum := by
        intro i
        by_cases same : entry.1 = i
        · simp [ofThread, same]
        · simp [ofThread, same]
      rw [Finset.sum_congr rfl fun i _ => split i, Finset.sum_add_distrib,
        induction, Finset.sum_ite_eq, if_pos (Finset.mem_univ _)]
      rfl

theorem ofThread_results_length (code : Op → Method Shared Local)
    (start : Local) (origin : Shared) (methods : List (ι × Op)) (i : ι) :
    (ofThread i (sequentialResults code start origin methods)).length =
      (ofThread i methods).length := by
  induction methods generalizing origin with
  | nil => rfl
  | cons called later induction =>
      have rest := induction ((code called.2).run start origin).1
      by_cases same : called.1 = i
      · simpa [ofThread, sequentialResults, same] using rest
      · simpa [ofThread, sequentialResults, same] using rest

/-- A thread has returned from each method it has entered, but for the one
it is inside. -/
theorem Replays.returned (replays : Replays code start origin program methods
      state) (i : ι) :
    (state.thread i).returned <+:
        ofThread i (sequentialResults code start origin methods) ∧
      ((state.thread i).phase = .idle →
        (state.thread i).returned =
          ofThread i (sequentialResults code start origin methods)) ∧
      (ofThread i methods).length ≤ (state.thread i).returned.length + 1 := by
  have finished := replays.results i
  have lengths := ofThread_results_length code start origin methods i
  cases phase : (state.thread i).phase with
  | idle =>
      rw [Thread.finish_idle phase] at finished
      rw [← lengths, ← finished]
      exact ⟨List.prefix_refl _, fun _ => rfl, Nat.le_succ _⟩
  | inside method rest mine =>
      rw [Thread.finish_inside phase] at finished
      rw [← lengths, ← finished]
      refine ⟨List.prefix_append _ _, ?_, ?_⟩
      · intro idle
        cases idle
      · exact Nat.le_of_eq List.length_append

theorem history_append (start : Local) (state : State ι Op Shared Local)
    (earlier later : List ι) :
    history code limit start state (earlier ++ later) =
      history code limit start state earlier ++
        history code limit start (run code limit start state earlier)
          later := by
  induction earlier generalizing state with
  | nil => rfl
  | cons i earlier induction =>
      rw [List.cons_append, history, history, induction, List.append_assoc]
      rfl

theorem Replays.run [Fintype ι] (enough : Fintype.card ι ≤ limit)
    (guarded : ∀ method, (code method).Guarded)
    (replays : Replays code start origin program methods state)
    (guards : Guards code state) (schedule : List ι) :
    Guards code (run code limit start state schedule) ∧
      Replays code start origin program
        (methods ++ history code limit start state schedule)
        (run code limit start state schedule) := by
  induction schedule generalizing state methods with
  | nil =>
      rw [history, List.append_nil]
      exact ⟨guards, replays⟩
  | cons i schedule induction =>
      rw [history, ← List.append_assoc]
      exact induction (replays.step guards guarded i)
        (guards.step guarded enough i)

omit [DecidableEq ι] in
theorem guards_initial (code : Op → Method Shared Local) (origin : Shared)
    (program : ι → List Op) : Guards code (initial origin program) where
  writer i := iff_of_false (Option.some_ne_none i ∘ Eq.symm)
    (Thread.not_holds_of_idle rfl true)
  readers i := iff_of_false List.not_mem_nil
    (Thread.not_holds_of_idle rfl false)
  alone _ _ _ _ := rfl
  nodup := List.nodup_nil
  quiet := by
    intro i method rest mine inside
    cases inside

theorem replays_initial (code : Op → Method Shared Local) (start : Local)
    (origin : Shared)
    (program : ι → List Op) :
    Replays code start origin program [] (initial origin program) where
  shared _ := rfl
  writer _ holds := absurd holds (Thread.not_holds_of_idle rfl true)
  results _ := rfl
  program _ := rfl

end Agreement

end ReadersWriter
