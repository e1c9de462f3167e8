import Mathlib.Data.List.Basic
import Mathlib.Logic.Function.Basic

/-!
# Methods under a readers–writer lock

Threads call methods of one shared value.  A method takes the lock, runs its
actions one by one, and gives the lock back; only the methods that take the
lock for writing change the value.  However the threads are scheduled, each
method sees and leaves what it would have seen and left if the methods had
run one after another, in the order in which they took the lock.
-/

namespace ReadersWriter

/-- An action on the shared value and the variables of the thread. -/
abbrev Action (Shared Local : Type) := Shared × Local → Shared × Local

/-- What a method does while it holds the lock. -/
structure Method (Shared Local : Type) where
  /-- Takes the lock for writing. -/
  exclusive : Bool
  body : List (Action Shared Local)

/-- What is held of the lock. -/
structure Lock (ι : Type) where
  writer : Option ι
  readers : List ι

inductive Phase (Op Shared Local : Type) where
  | idle
  /-- Holds the lock, with this much of the body left. -/
  | inside (method : Op) (rest : List (Action Shared Local)) (mine : Local)

structure Thread (Op Shared Local : Type) where
  waiting : List Op
  phase : Phase Op Shared Local
  returned : List Local

structure State (ι Op Shared Local : Type) where
  shared : Shared
  lock : Lock ι
  thread : ι → Thread Op Shared Local

variable {ι Op Shared Local : Type}

section Semantics

variable [DecidableEq ι] (code : Op → Method Shared Local)

/-- Blocks while there is a writer.  With no more than `limit` read locks to
give, it may also return without having taken one. -/
def Lock.read (limit : Nat) (lock : Lock ι) (i : ι) : Option (Lock ι) :=
  if lock.writer.isSome then none
  else if lock.readers.length < limit then
    some { lock with readers := i :: lock.readers }
  else some lock

/-- Blocks while anyone holds the lock. -/
def Lock.write (lock : Lock ι) (i : ι) : Option (Lock ι) :=
  if lock.writer.isSome ∨ lock.readers ≠ [] then none
  else some { lock with writer := some i }

def Lock.acquire (limit : Nat) (exclusive : Bool) (lock : Lock ι) (i : ι) :
    Option (Lock ι) :=
  if exclusive then lock.write i else lock.read limit i

def Lock.release (lock : Lock ι) (i : ι) : Lock ι :=
  if lock.writer = some i then { lock with writer := none }
  else { lock with readers := lock.readers.erase i }

def State.enter (state : State ι Op Shared Local) (i : ι) (lock : Lock ι)
    (method : Op) (later : List Op) (start : Local) :
    State ι Op Shared Local :=
  { state with
    lock
    thread := Function.update state.thread i
      { state.thread i with
        waiting := later
        phase := .inside method (code method).body start } }

def State.act (state : State ι Op Shared Local) (i : ι) (method : Op)
    (rest : List (Action Shared Local)) (both : Shared × Local) :
    State ι Op Shared Local :=
  { state with
    shared := both.1
    thread := Function.update state.thread i
      { state.thread i with phase := .inside method rest both.2 } }

def State.leave (state : State ι Op Shared Local) (i : ι) (mine : Local) :
    State ι Op Shared Local :=
  { state with
    lock := state.lock.release i
    thread := Function.update state.thread i
      { state.thread i with
        phase := .idle
        returned := (state.thread i).returned ++ [mine] } }

/-- The next step of thread `i`; there is none if it is blocked or done. -/
def step (limit : Nat) (start : Local) (state : State ι Op Shared Local)
    (i : ι) : State ι Op Shared Local :=
  match (state.thread i).phase with
  | .idle =>
      match (state.thread i).waiting with
      | [] => state
      | method :: later =>
          match state.lock.acquire limit (code method).exclusive i with
          | none => state
          | some lock => state.enter code i lock method later start
  | .inside method (action :: rest) mine =>
      state.act i method rest (action (state.shared, mine))
  | .inside _ [] mine => state.leave i mine

/-- The method that thread `i` enters with its next step. -/
def entry (limit : Nat) (state : State ι Op Shared Local) (i : ι) :
    Option Op :=
  match (state.thread i).phase, (state.thread i).waiting with
  | .idle, method :: _ =>
      (state.lock.acquire limit (code method).exclusive i).map fun _ => method
  | _, _ => none

/-- The methods entered in a run, in order. -/
def history (limit : Nat) (start : Local) :
    State ι Op Shared Local → List ι → List (ι × Op)
  | _, [] => []
  | state, i :: schedule =>
      (entry code limit state i).toList.map (Prod.mk i) ++
        history limit start (step code limit start state i) schedule

def run (limit : Nat) (start : Local) (state : State ι Op Shared Local)
    (schedule : List ι) : State ι Op Shared Local :=
  schedule.foldl (step code limit start) state

/-- Nobody has begun, and nobody holds the lock. -/
def initial (origin : Shared) (program : ι → List Op) :
    State ι Op Shared Local :=
  { shared := origin
    lock :=
      { writer := none
        readers := [] }
    thread := fun i =>
      { waiting := program i
        phase := .idle
        returned := [] } }

end Semantics

/-! ## One after another -/

def perform (body : List (Action Shared Local)) (both : Shared × Local) :
    Shared × Local :=
  body.foldl (fun both action => action both) both

/-- The value a method leaves, and the variables it returns with. -/
def Method.run (start : Local) (method : Method Shared Local)
    (shared : Shared) : Shared × Local :=
  perform method.body (shared, start)

section Sequential

variable (code : Op → Method Shared Local) (start : Local)

/-- The value after methods that run one after another. -/
def replay (origin : Shared) (methods : List (ι × Op)) : Shared :=
  methods.foldl
    (fun shared called => ((code called.2).run start shared).1) origin

/-- What they return. -/
def sequentialResults :
    Shared → List (ι × Op) → List (ι × Local)
  | _, [] => []
  | origin, called :: later =>
      (called.1, ((code called.2).run start origin).2) ::
        sequentialResults ((code called.2).run start origin).1 later

@[simp] theorem replay_append (origin : Shared)
    (earlier later : List (ι × Op)) :
    replay code start origin (earlier ++ later) =
      replay code start (replay code start origin earlier) later :=
  List.foldl_append

@[simp] theorem sequentialResults_append (origin : Shared)
    (earlier later : List (ι × Op)) :
    sequentialResults code start origin (earlier ++ later) =
      sequentialResults code start origin earlier ++
        sequentialResults code start (replay code start origin earlier)
          later := by
  induction earlier generalizing origin with
  | nil => rfl
  | cons called earlier induction =>
      rw [List.cons_append, sequentialResults, sequentialResults, induction]
      rfl

end Sequential

section OfThread

variable [DecidableEq ι] {α : Type}

/-- The part of a list that belongs to thread `i`. -/
def ofThread (i : ι) (tagged : List (ι × α)) : List α :=
  (tagged.filter fun entry => entry.1 = i).map Prod.snd

@[simp] theorem ofThread_append (i : ι) (earlier later : List (ι × α)) :
    ofThread i (earlier ++ later) = ofThread i earlier ++ ofThread i later := by
  simp [ofThread]

@[simp] theorem ofThread_self (i : ι) (item : α) :
    ofThread i [(i, item)] = [item] := by
  simp [ofThread]

theorem mem_ofThread {called : ι × α} {tagged : List (ι × α)}
    (member : called ∈ tagged) : called.2 ∈ ofThread called.1 tagged :=
  List.mem_map_of_mem (List.mem_filter.mpr ⟨member, decide_eq_true rfl⟩)

theorem ofThread_other {i j : ι} (other : j ≠ i) (item : α) :
    ofThread j [(i, item)] = [] := by
  simp [ofThread, other.symm]

end OfThread

/-- Actions that leave the shared value alone. -/
def Quiet (body : List (Action Shared Local)) : Prop :=
  ∀ action ∈ body, ∀ both, (action both).1 = both.1

theorem Quiet.perform {body : List (Action Shared Local)}
    (quiet : Quiet body) (both : Shared × Local) :
    (perform body both).1 = both.1 := by
  induction body generalizing both with
  | nil => rfl
  | cons action rest induction =>
      have later := induction
        (fun other member => quiet other (List.mem_cons_of_mem action member))
        (action both)
      exact later.trans (quiet action List.mem_cons_self both)

/-- A method that changes the shared value takes the lock for writing. -/
def Method.Guarded (method : Method Shared Local) : Prop :=
  method.exclusive = false → Quiet method.body

/-! ## What a step can do -/

section Step

variable [DecidableEq ι] {code : Op → Method Shared Local} {limit : Nat}
  {start : Local} {state : State ι Op Shared Local} {i : ι}

/-- Thread `i` is neither blocked nor done. -/
def CanMove (code : Op → Method Shared Local) (limit : Nat)
    (state : State ι Op Shared Local) (i : ι) : Prop :=
  match (state.thread i).phase, (state.thread i).waiting with
  | .inside _ _ _, _ => True
  | .idle, method :: _ =>
      (state.lock.acquire limit (code method).exclusive i).isSome
  | .idle, [] => False

inductive Moves (code : Op → Method Shared Local) (limit : Nat)
    (start : Local) (state : State ι Op Shared Local) (i : ι) : Prop where
  | stay (stuck : ¬CanMove code limit state i)
      (enters : entry code limit state i = none)
      (moved : step code limit start state i = state)
  | enter (method : Op) (later : List Op) (lock : Lock ι)
      (phase : (state.thread i).phase = .idle)
      (waiting : (state.thread i).waiting = method :: later)
      (acquired : state.lock.acquire limit (code method).exclusive i =
        some lock)
      (enters : entry code limit state i = some method)
      (moved : step code limit start state i =
        state.enter code i lock method later start)
  | act (method : Op) (action : Action Shared Local)
      (rest : List (Action Shared Local)) (mine : Local)
      (phase : (state.thread i).phase = .inside method (action :: rest) mine)
      (enters : entry code limit state i = none)
      (moved : step code limit start state i =
        state.act i method rest (action (state.shared, mine)))
  | leave (method : Op) (mine : Local)
      (phase : (state.thread i).phase = .inside method [] mine)
      (enters : entry code limit state i = none)
      (moved : step code limit start state i = state.leave i mine)

theorem step_moves (code : Op → Method Shared Local) (limit : Nat)
    (start : Local)
    (state : State ι Op Shared Local) (i : ι) :
    Moves code limit start state i := by
  cases phase : (state.thread i).phase with
  | idle =>
      cases waiting : (state.thread i).waiting with
      | nil =>
          apply Moves.stay
          · simp [CanMove, phase, waiting]
          · simp [entry, phase, waiting]
          · simp [step, phase, waiting]
      | cons method later =>
          cases acquired :
              state.lock.acquire limit (code method).exclusive i with
          | none =>
              apply Moves.stay
              · simp [CanMove, phase, waiting, acquired]
              · simp [entry, phase, waiting, acquired]
              · simp [step, phase, waiting, acquired]
          | some lock =>
              apply Moves.enter method later lock phase waiting acquired
              · simp [entry, phase, waiting, acquired]
              · simp [step, phase, waiting, acquired]
  | inside method rest mine =>
      cases rest with
      | nil =>
          apply Moves.leave method mine phase
          · simp [entry, phase]
          · simp [step, phase]
      | cons action rest =>
          apply Moves.act method action rest mine phase
          · simp [entry, phase]
          · simp [step, phase]

end Step

end ReadersWriter
