import Mathlib.Data.Fintype.Card
import Xpcie.Library.ReadersWriter

/-!
# Who holds the lock

In every state of a run the lock is held by the threads that are inside, and
a thread that is inside for writing is inside alone.
-/

namespace ReadersWriter

variable {ι Op Shared Local : Type} {code : Op → Method Shared Local}

/-- The thread is inside a method that takes the lock for writing, or for
reading. -/
def Thread.Holds (code : Op → Method Shared Local)
    (thread : Thread Op Shared Local) (exclusive : Bool) : Prop :=
  ∃ method rest mine, thread.phase = .inside method rest mine ∧
    (code method).exclusive = exclusive

theorem Thread.Holds.same {thread : Thread Op Shared Local}
    {method : Op} {rest : List (Action Shared Local)}
    {mine : Local} {exclusive : Bool} (holds : thread.Holds code exclusive)
    (phase : thread.phase = .inside method rest mine) :
    (code method).exclusive = exclusive := by
  obtain ⟨_, _, _, inside, mode⟩ := holds
  rw [phase] at inside
  cases inside
  exact mode

theorem Thread.not_holds_of_idle {thread : Thread Op Shared Local}
    (idle : thread.phase = .idle) (exclusive : Bool) :
    ¬thread.Holds code exclusive := by
  rintro ⟨_, _, _, inside, _⟩
  rw [idle] at inside
  cases inside

theorem Thread.idle_of_not_holds {thread : Thread Op Shared Local}
    (free : ∀ exclusive, ¬thread.Holds code exclusive) : thread.phase = .idle := by
  cases phase : thread.phase with
  | idle => rfl
  | inside method rest mine =>
      exact absurd ⟨method, rest, mine, phase, rfl⟩ (free (code method).exclusive)

/-- The lock is held by those inside, and a writer is inside alone. -/
structure Guards (code : Op → Method Shared Local)
    (state : State ι Op Shared Local) : Prop where
  writer : ∀ i, state.lock.writer = some i ↔ (state.thread i).Holds code true
  readers : ∀ i, i ∈ state.lock.readers ↔ (state.thread i).Holds code false
  alone : ∀ i j, (state.thread i).Holds code true → j ≠ i →
    (state.thread j).phase = .idle
  nodup : state.lock.readers.Nodup
  quiet : ∀ i method rest mine,
    (state.thread i).phase = .inside method rest mine →
    (code method).exclusive = false → Quiet rest

theorem Guards.idle_of_free {state : State ι Op Shared Local}
    (guards : Guards code state) (noWriter : state.lock.writer = none)
    (noReaders : state.lock.readers = []) (i : ι) :
    (state.thread i).phase = .idle := by
  apply Thread.idle_of_not_holds
  intro exclusive holds
  cases exclusive with
  | true =>
      have held := (guards.writer i).mpr holds
      rw [noWriter] at held
      cases held
  | false =>
      have held := (guards.readers i).mpr holds
      rw [noReaders] at held
      cases held

section Exclusion

variable {limit : Nat} {start : Local} {state : State ι Op Shared Local} {i : ι}

theorem Lock.write_eq_some {lock taken : Lock ι} :
    lock.write i = some taken ↔ lock.writer = none ∧ lock.readers = [] ∧
      taken = { lock with writer := some i } := by
  rw [Lock.write]
  split
  · rename_i held
    constructor
    · intro none
      cases none
    · rintro ⟨noWriter, noReaders, _⟩
      rcases held with writer | reader
      · rw [noWriter] at writer
        cases writer
      · exact absurd noReaders reader
  · rename_i free
    rw [not_or, Decidable.not_not] at free
    constructor
    · intro taken
      exact ⟨Option.not_isSome_iff_eq_none.mp free.1, free.2,
        (Option.some.inj taken).symm⟩
    · rintro ⟨_, _, rfl⟩
      rfl

/-- A read lock is there to take while readers are fewer than the limit. -/
theorem Lock.read_eq_some {lock taken : Lock ι}
    (room : lock.readers.length < limit) :
    lock.read limit i = some taken ↔ lock.writer = none ∧
      taken = { lock with readers := i :: lock.readers } := by
  rw [Lock.read, if_pos room]
  cases held : lock.writer with
  | none => simp [eq_comm]
  | some w => simp

/-- There is a read lock for every thread. -/
theorem Guards.room [Fintype ι] (guards : Guards code state)
    (enough : Fintype.card ι ≤ limit)
    (idle : (state.thread i).phase = .idle) :
    state.lock.readers.length < limit := by
  have absent : i ∉ state.lock.readers := by
    rw [guards.readers i]
    exact Thread.not_holds_of_idle idle false
  have distinct : (i :: state.lock.readers).Nodup :=
    List.nodup_cons.mpr ⟨absent, guards.nodup⟩
  have bound := distinct.length_le_card
  rw [List.length_cons] at bound
  exact Nat.lt_of_lt_of_le (Nat.lt_of_succ_le bound) enough

variable [DecidableEq ι]

theorem enter_self (lock : Lock ι) (method : Op)
    (later : List Op) :
    ((state.enter code i lock method later start).thread i) =
      { state.thread i with
        waiting := later
        phase := .inside method (code method).body start } :=
  Function.update_self ..

theorem enter_other {j : ι} (other : j ≠ i) (lock : Lock ι)
    (method : Op) (later : List Op) :
    (state.enter code i lock method later start).thread j = state.thread j :=
  Function.update_of_ne other ..

theorem act_self (method : Op)
    (rest : List (Action Shared Local)) (both : Shared × Local) :
    (state.act i method rest both).thread i =
      { state.thread i with phase := .inside method rest both.2 } :=
  Function.update_self ..

theorem act_other {j : ι} (other : j ≠ i) (method : Op)
    (rest : List (Action Shared Local)) (both : Shared × Local) :
    (state.act i method rest both).thread j = state.thread j :=
  Function.update_of_ne other ..

theorem leave_self (mine : Local) :
    (state.leave i mine).thread i =
      { state.thread i with
        phase := .idle
        returned := (state.thread i).returned ++ [mine] } :=
  Function.update_self ..

theorem leave_other {j : ι} (other : j ≠ i) (mine : Local) :
    (state.leave i mine).thread j = state.thread j :=
  Function.update_of_ne other ..

/-- Entering leaves the other threads, and what `i` holds is its method's
mode. -/
theorem enter_holds (lock : Lock ι) (method : Op)
    (later : List Op) (exclusive : Bool) :
    ((state.enter code i lock method later start).thread i).Holds code exclusive ↔
      (code method).exclusive = exclusive := by
  rw [enter_self]
  constructor
  · intro holds
    exact holds.same rfl
  · intro mode
    exact ⟨method, (code method).body, start, rfl, mode⟩

/-- An action changes nobody's hold. -/
theorem act_holds {method : Op} {action : Action Shared Local}
    {rest : List (Action Shared Local)} {mine : Local}
    (phase : (state.thread i).phase = .inside method (action :: rest) mine)
    (both : Shared × Local) (j : ι) (exclusive : Bool) :
    ((state.act i method rest both).thread j).Holds code exclusive ↔
      (state.thread j).Holds code exclusive := by
  by_cases same : j = i
  · subst same
    rw [act_self]
    constructor
    · intro holds
      exact ⟨method, action :: rest, mine, phase, holds.same rfl⟩
    · intro holds
      exact ⟨method, rest, both.2, rfl, holds.same phase⟩
  · rw [act_other same]

theorem Guards.enter_write (guards : Guards code state)
    {method : Op} {later : List Op}
    {lock : Lock ι} (mode : (code method).exclusive = true)
    (acquired : state.lock.write i = some lock) :
    Guards code (state.enter code i lock method later start) := by
  obtain ⟨noWriter, noReaders, rfl⟩ := Lock.write_eq_some.mp acquired
  have idle := guards.idle_of_free noWriter noReaders
  constructor
  · intro j
    by_cases same : j = i
    · subst same
      rw [enter_holds]
      exact iff_of_true rfl mode
    · rw [enter_other same]
      exact iff_of_false (fun equal => same (Option.some.inj equal).symm)
        (Thread.not_holds_of_idle (idle j) true)
  · intro j
    change j ∈ state.lock.readers ↔ _
    rw [noReaders]
    by_cases same : j = i
    · subst same
      rw [enter_holds, mode]
      exact iff_of_false List.not_mem_nil Bool.true_eq_false_eq_False
    · rw [enter_other same]
      exact iff_of_false List.not_mem_nil
        (Thread.not_holds_of_idle (idle j) false)
  · intro j k holds other
    by_cases same : k = i
    · subst same
      rw [enter_other other.symm] at holds
      exact absurd holds (Thread.not_holds_of_idle (idle j) true)
    · rw [enter_other same]
      exact idle k
  · exact guards.nodup
  · intro j method' rest mine phase shared
    by_cases same : j = i
    · subst same
      rw [enter_self] at phase
      cases phase
      rw [mode] at shared
      cases shared
    · rw [enter_other same] at phase
      exact guards.quiet j method' rest mine phase shared

theorem Guards.enter_read (guards : Guards code state)
    {method : Op} {later : List Op}
    {lock : Lock ι} (mode : (code method).exclusive = false)
    (idle : (state.thread i).phase = .idle)
    (guarded : (code method).Guarded)
    (room : state.lock.readers.length < limit)
    (acquired : state.lock.read limit i = some lock) :
    Guards code (state.enter code i lock method later start) := by
  obtain ⟨noWriter, rfl⟩ := (Lock.read_eq_some room).mp acquired
  have absent : i ∉ state.lock.readers := by
    rw [guards.readers i]
    exact Thread.not_holds_of_idle idle false
  have noneWrites : ∀ j, ¬(state.thread j).Holds code true := by
    intro j holds
    have held := (guards.writer j).mpr holds
    rw [noWriter] at held
    cases held
  have noneEntersToWrite : ∀ j, ¬((state.enter code i
      { state.lock with readers := i :: state.lock.readers } method later
      start).thread j).Holds code true := by
    intro j
    by_cases same : j = i
    · subst same
      rw [enter_holds, mode]
      exact Bool.false_ne_true
    · rw [enter_other same]
      exact noneWrites j
  constructor
  · intro j
    apply iff_of_false _ (noneEntersToWrite j)
    change ¬state.lock.writer = some j
    rw [noWriter]
    exact Option.some_ne_none j ∘ Eq.symm
  · intro j
    change j ∈ i :: state.lock.readers ↔ _
    by_cases same : j = i
    · subst same
      rw [enter_holds]
      exact iff_of_true List.mem_cons_self mode
    · rw [enter_other same, List.mem_cons, or_iff_right same]
      exact guards.readers j
  · intro j k holds
    exact absurd holds (noneEntersToWrite j)
  · exact List.nodup_cons.mpr ⟨absent, guards.nodup⟩
  · intro j method' rest mine phase shared
    by_cases same : j = i
    · subst same
      rw [enter_self] at phase
      cases phase
      exact guarded shared
    · rw [enter_other same] at phase
      exact guards.quiet j method' rest mine phase shared

theorem Guards.act (guards : Guards code state) {method : Op}
    {action : Action Shared Local} {rest : List (Action Shared Local)}
    {mine : Local}
    (phase : (state.thread i).phase = .inside method (action :: rest) mine)
    (both : Shared × Local) : Guards code (state.act i method rest both) := by
  constructor
  · intro j
    rw [act_holds phase]
    exact guards.writer j
  · intro j
    rw [act_holds phase]
    exact guards.readers j
  · intro j k holds other
    rw [act_holds phase] at holds
    have idle := guards.alone j k holds other
    have different : k ≠ i := by
      intro same
      rw [same, phase] at idle
      cases idle
    rw [act_other different]
    exact idle
  · exact guards.nodup
  · intro j method' rest' mine' inside shared
    by_cases same : j = i
    · subst same
      rw [act_self] at inside
      cases inside
      have quiet := guards.quiet j method _ mine phase shared
      exact fun other member =>
        quiet other (List.mem_cons_of_mem action member)
    · rw [act_other same] at inside
      exact guards.quiet j method' rest' mine' inside shared

theorem Lock.release_writer {lock : Lock ι} {j : ι} :
    (lock.release i).writer = some j ↔ lock.writer = some j ∧ j ≠ i := by
  rw [Lock.release]
  split
  next held =>
    rw [held]
    constructor
    · exact fun nobody => absurd nobody.symm (Option.some_ne_none j)
    · exact fun both => absurd (Option.some.inj both.1).symm both.2
  next other =>
    refine ⟨fun held => ⟨held, ?_⟩, And.left⟩
    rintro rfl
    exact other held

theorem Lock.mem_release_readers {lock : Lock ι} {j : ι} (apart : j ≠ i) :
    j ∈ (lock.release i).readers ↔ j ∈ lock.readers := by
  rw [Lock.release]
  split
  · exact Iff.rfl
  · exact List.mem_erase_of_ne apart

theorem Guards.leave (guards : Guards code state) {method : Op}
    {mine : Local} (phase : (state.thread i).phase = .inside method [] mine) :
    Guards code (state.leave i mine) := by
  have out : ∀ exclusive,
      ¬((state.leave i mine).thread i).Holds code exclusive := by
    intro exclusive
    rw [leave_self]
    exact Thread.not_holds_of_idle rfl exclusive
  have writerBefore : state.lock.writer = some i ↔
      (code method).exclusive = true := by
    rw [guards.writer i]
    exact ⟨fun holds => holds.same phase, fun mode => ⟨_, _, _, phase, mode⟩⟩
  constructor
  · intro j
    change (state.lock.release i).writer = some j ↔ _
    rw [Lock.release_writer]
    by_cases same : j = i
    · subst same
      exact iff_of_false (fun both => both.2 rfl) (out true)
    · rw [leave_other same, ← guards.writer j]
      exact and_iff_left same
  · intro j
    change j ∈ (state.lock.release i).readers ↔ _
    by_cases same : j = i
    · subst same
      apply iff_of_false _ (out false)
      rw [Lock.release]
      split
      · rename_i held
        rw [guards.readers j]
        intro holds
        have mode := holds.same phase
        rw [writerBefore.mp held] at mode
        cases mode
      · exact guards.nodup.not_mem_erase
    · rw [leave_other same, ← guards.readers j]
      exact Lock.mem_release_readers same
  · intro j k holds other
    by_cases same : k = i
    · subst same
      rw [leave_self]
    · rw [leave_other same]
      by_cases left : j = i
      · subst left
        exact absurd holds (out true)
      · rw [leave_other left] at holds
        exact guards.alone j k holds other
  · change (state.lock.release i).readers.Nodup
    rw [Lock.release]
    split
    · exact guards.nodup
    · exact guards.nodup.erase i
  · intro j method' rest mine' inside shared
    by_cases same : j = i
    · subst same
      rw [leave_self] at inside
      cases inside
    · rw [leave_other same] at inside
      exact guards.quiet j method' rest mine' inside shared

/-- Every step keeps the lock with those inside. -/
theorem Guards.step [Fintype ι] (guards : Guards code state)
    (guarded : ∀ method, (code method).Guarded)
    (enough : Fintype.card ι ≤ limit) (i : ι) :
    Guards code (step code limit start state i) := by
  cases step_moves code limit start state i with
  | stay _ _ moved =>
      rw [moved]
      exact guards
  | enter method later lock phase _ acquired _ moved =>
      rw [moved]
      cases mode : (code method).exclusive with
      | true =>
          rw [Lock.acquire, mode, if_pos rfl] at acquired
          exact guards.enter_write mode acquired
      | false =>
          rw [Lock.acquire, mode, if_neg Bool.false_ne_true] at acquired
          exact guards.enter_read mode phase (guarded method)
            (guards.room enough phase) acquired
  | act method action rest mine phase _ moved =>
      rw [moved]
      exact guards.act phase _
  | leave method mine phase _ moved =>
      rw [moved]
      exact guards.leave phase

end Exclusion

end ReadersWriter
