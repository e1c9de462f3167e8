import Xpcie.Library.Runs
import Xpcie.Library.ThreadTable

/-!
# The life of a thread object

A `Thread` starts threads that run its own `run`, and joins or detaches the
last one.  It keeps the handle of that one only, and does not look whether
starting another overwrites it.  Its destructor detaches and cancels what it
takes to be running.  Calls that POSIX leaves without a meaning have no
result here.
-/

namespace Xpcie

open Runs ThreadTable

/-- The members of `Thread`.  `tid` is what `pthread_create` stored: nothing
before the first thread, and nothing to rely on after a failed attempt. -/
structure ThreadObject where
  tid : Option Nat
  running : Bool
  detached : Bool
  deriving DecidableEq

/-- The object, and every thread that has been created for it. -/
structure ThreadSystem where
  object : ThreadObject
  threads : Table
  deriving DecidableEq

namespace ThreadSystem

/-- `Thread::Thread` -/
def fresh : ThreadSystem where
  object := { tid := none, running := false, detached := false }
  threads := []

/-- A POSIX call on the handle in `m_tid`. -/
def onHandle (call : Table → Nat → Option Table) (system : ThreadSystem) :
    Option Table :=
  system.object.tid.bind (call system.threads)

/-- `Thread::start`, with the result of `pthread_create`. -/
def start (result : Int) (system : ThreadSystem) : Int × ThreadSystem :=
  if result = 0 then
    (result,
      { object :=
          { system.object with
            tid := some system.threads.length
            running := true }
        threads := create system.threads })
  else (result, { system with object := { system.object with tid := none } })

/-- `Thread::join` -/
def join (system : ThreadSystem) : Option (Int × ThreadSystem) :=
  if system.object.running then
    (system.onHandle ThreadTable.join).map fun threads =>
      (0,
        { object := { system.object with detached := true, running := false }
          threads })
  else some (-1, system)

/-- `Thread::detach` -/
def detach (system : ThreadSystem) : Option (Int × ThreadSystem) :=
  if system.object.running && !system.object.detached then
    (system.onHandle ThreadTable.detach).map fun threads =>
      (0, { object := { system.object with detached := true }, threads })
  else some (-1, system)

/-- The first `if` of the destructor. -/
def letGo (system : ThreadSystem) : Option Table :=
  if system.object.running && !system.object.detached then
    system.onHandle ThreadTable.detach
  else some system.threads

/-- `Thread::~Thread`: what remains is the table. -/
def destroy (system : ThreadSystem) : Option Table :=
  system.letGo.bind fun threads =>
    if system.object.running then
      onHandle cancel { system with threads := threads }
    else some threads

end ThreadSystem

/-- What can happen while the object lives: a call on it, or the end of a
thread's `run`. -/
inductive ThreadEvent where
  | start (result : Int)
  | join
  | detach
  | finish (handle : Nat)

def ThreadSystem.after (system : ThreadSystem) :
    ThreadEvent → Option ThreadSystem
  | .start result => some (system.start result).2
  | .join => system.join.map Prod.snd
  | .detach => system.detach.map Prod.snd
  | .finish handle =>
      some { system with threads := finish system.threads handle }

/-- A life without a result stays without one. -/
def threadStep (life : Option ThreadSystem) (event : ThreadEvent) :
    Option ThreadSystem :=
  life.bind (·.after event)

def threadLife (events : List ThreadEvent) : Option ThreadSystem :=
  events.foldl threadStep (some .fresh)

namespace ThreadSystem

/-- Every thread is over when the object goes, the destructor's calls have a
meaning, and no thread is left that nobody can release. -/
def EndsClean (system : ThreadSystem) : Prop :=
  (∀ entry ∈ system.threads, entry.finished = true) ∧
    ∃ left, system.destroy = some left ∧ ∀ handle, ¬JoinableAt left handle

/-- The object's handle is that of a thread still to be joined or detached. -/
def HoldsJoinable (system : ThreadSystem) : Prop :=
  ∃ handle, system.object.tid = some handle ∧
    JoinableAt system.threads handle

/-- A new thread is started only when the last one has been joined or
detached, and one that is taken to be running is joined only while nobody has
joined or detached it. -/
def Careful (system : ThreadSystem) : ThreadEvent → Prop
  | .start _ => ¬system.HoldsJoinable
  | .join => system.object.running = true → system.HoldsJoinable
  | .detach | .finish _ => True

/-- A thread waits to be joined, and the object has lost its handle. -/
def Leaked (system : ThreadSystem) : Prop :=
  ∃ handle, JoinableAt system.threads handle ∧
    system.object.tid ≠ some handle

/-- What careful calls keep: the object holds the only thread still to be
joined or detached, and knows when there is one. -/
structure Tidy (system : ThreadSystem) : Prop where
  held : ∀ handle, JoinableAt system.threads handle →
    system.object.running = true ∧ system.object.tid = some handle
  known : system.object.running = true → system.object.detached = false →
    system.HoldsJoinable

theorem onHandle_eq_some {call : Table → Nat → Option Table}
    {system : ThreadSystem} {later : Table} :
    system.onHandle call = some later ↔
      ∃ handle, system.object.tid = some handle ∧
        call system.threads handle = some later :=
  Option.bind_eq_some_iff

/-! ## What each call does -/

theorem start_after (system : ThreadSystem) (result : Int) :
    (result = 0 ∧ (system.start result).2 =
      { object :=
          { system.object with
            tid := some system.threads.length
            running := true }
        threads := create system.threads }) ∨
    (result ≠ 0 ∧ (system.start result).2 =
      { system with object := { system.object with tid := none } }) := by
  by_cases granted : result = 0
  · exact Or.inl ⟨granted, by rw [start, if_pos granted]⟩
  · exact Or.inr ⟨granted, by rw [start, if_neg granted]⟩

theorem join_after {system later : ThreadSystem} {result : Int}
    (done : system.join = some (result, later)) :
    (system.object.running = false ∧ later = system) ∨
    (system.object.running = true ∧ ∃ handle threads,
      system.object.tid = some handle ∧
      ThreadTable.join system.threads handle = some threads ∧
      later =
        { object := { system.object with detached := true, running := false }
          threads }) := by
  rw [join] at done
  split at done
  next running =>
    obtain ⟨threads, called, equality⟩ := Option.map_eq_some_iff.mp done
    obtain ⟨handle, held, joined⟩ := onHandle_eq_some.mp called
    cases equality
    exact Or.inr ⟨running, handle, threads, held, joined, rfl⟩
  next idle =>
    cases done
    exact Or.inl ⟨Bool.eq_false_iff.mpr idle, rfl⟩

theorem detach_after {system later : ThreadSystem} {result : Int}
    (done : system.detach = some (result, later)) :
    ((system.object.running && !system.object.detached) = false ∧
      later = system) ∨
    (system.object.running = true ∧ ∃ handle threads,
      system.object.tid = some handle ∧
      ThreadTable.detach system.threads handle = some threads ∧
      later =
        { object := { system.object with detached := true }, threads }) := by
  rw [detach] at done
  split at done
  next attached =>
    obtain ⟨threads, called, equality⟩ := Option.map_eq_some_iff.mp done
    obtain ⟨handle, held, detached⟩ := onHandle_eq_some.mp called
    cases equality
    exact Or.inr ⟨(Bool.and_eq_true_iff.mp attached).1, handle, threads, held,
      detached, rfl⟩
  next idle =>
    cases done
    exact Or.inl ⟨Bool.eq_false_iff.mpr idle, rfl⟩

/-! ## A lost thread stays lost -/

/-- Starting a thread overwrites the handle of the one before. -/
theorem leaked_of_start {system : ThreadSystem} {handle : Nat}
    (joinable : JoinableAt system.threads handle) (result : Int) :
    (system.start result).2.Leaked := by
  rcases system.start_after result with ⟨_, equality⟩ | ⟨_, equality⟩
  · rw [equality]
    refine ⟨handle, (joinableAt_create _ _).mpr (Or.inl joinable), ?_⟩
    intro same
    have place : system.threads.length = handle := Option.some.inj same
    exact absurd joinable.inside (Nat.not_lt_of_le (Nat.le_of_eq place))
  · rw [equality]
    exact ⟨handle, joinable, nofun⟩

theorem Leaked.after {system later : ThreadSystem} {event : ThreadEvent}
    (leaked : system.Leaked) (done : system.after event = some later) :
    later.Leaked := by
  obtain ⟨lost, joinable, away⟩ := leaked
  cases event with
  | start result =>
      cases done
      exact leaked_of_start joinable result
  | join =>
      obtain ⟨⟨result, later⟩, called, rfl⟩ := Option.map_eq_some_iff.mp done
      rcases join_after called with ⟨_, rfl⟩ |
        ⟨_, handle, threads, held, joined, rfl⟩
      · exact ⟨lost, joinable, away⟩
      · refine ⟨lost, (joinableAt_join joined lost).mpr ⟨joinable, ?_⟩, away⟩
        rintro rfl
        exact away held
  | detach =>
      obtain ⟨⟨result, later⟩, called, rfl⟩ := Option.map_eq_some_iff.mp done
      rcases detach_after called with ⟨_, rfl⟩ |
        ⟨_, handle, threads, held, detached, rfl⟩
      · exact ⟨lost, joinable, away⟩
      · refine ⟨lost, (joinableAt_detach detached lost).mpr ⟨joinable, ?_⟩,
          away⟩
        rintro rfl
        exact away held
  | finish handle =>
      cases done
      exact ⟨lost, (joinableAt_finish _ _ _).mpr joinable, away⟩

/-- A careless call has no meaning, or loses a thread. -/
theorem leaked_of_careless {system later : ThreadSystem} {event : ThreadEvent}
    (careless : ¬system.Careful event)
    (done : system.after event = some later) : later.Leaked := by
  cases event with
  | start result =>
      obtain ⟨handle, held, joinable⟩ := Classical.not_not.mp careless
      cases done
      exact leaked_of_start joinable result
  | join =>
      obtain ⟨running, nothing⟩ := Classical.not_imp.mp careless
      obtain ⟨⟨result, later⟩, called, _⟩ := Option.map_eq_some_iff.mp done
      rcases join_after called with ⟨idle, _⟩ |
        ⟨_, handle, threads, held, joined, _⟩
      · rw [idle] at running
        cases running
      · exact absurd ⟨handle, held, (settle_eq_some.mp joined).1⟩ nothing
  | detach => exact absurd trivial careless
  | finish handle => exact absurd trivial careless

/-! ## What careful calls keep -/

theorem tidy_fresh : fresh.Tidy where
  held := fun handle joinable => absurd joinable (not_joinableAt_nil handle)
  known := nofun

theorem Tidy.nothing_joinable {system : ThreadSystem} (tidy : system.Tidy)
    (free : ¬system.HoldsJoinable) (handle : Nat) :
    ¬JoinableAt system.threads handle :=
  fun joinable => free ⟨handle, (tidy.held handle joinable).2, joinable⟩

theorem Tidy.start {system : ThreadSystem} (tidy : system.Tidy)
    (free : ¬system.HoldsJoinable) (result : Int) :
    (system.start result).2.Tidy := by
  have nothing := tidy.nothing_joinable free
  rcases system.start_after result with ⟨_, equality⟩ | ⟨_, equality⟩
  · rw [equality]
    constructor
    · intro handle joinable
      rcases (joinableAt_create _ _).mp joinable with old | rfl
      · exact absurd old (nothing handle)
      · exact ⟨rfl, rfl⟩
    · intro _ _
      exact ⟨_, rfl, (joinableAt_create _ _).mpr (Or.inr rfl)⟩
  · rw [equality]
    constructor
    · exact fun handle joinable => absurd joinable (nothing handle)
    · exact fun running attached =>
        absurd (tidy.known running attached) free

/-- Taking the only joinable thread into custody leaves none. -/
theorem Tidy.nothing_left {system : ThreadSystem} (tidy : system.Tidy)
    {handle : Nat} (held : system.object.tid = some handle) {threads : Table}
    (taken : ∀ other, JoinableAt threads other →
      JoinableAt system.threads other ∧ handle ≠ other) (other : Nat) :
    ¬JoinableAt threads other := by
  intro joinable
  obtain ⟨before, apart⟩ := taken other joinable
  have same := (tidy.held other before).2
  rw [held] at same
  exact apart (Option.some.inj same)

theorem Tidy.after {system : ThreadSystem} {event : ThreadEvent}
    (tidy : system.Tidy) (careful : system.Careful event) :
    ∃ later, system.after event = some later ∧ later.Tidy := by
  cases event with
  | start result => exact ⟨_, rfl, tidy.start careful result⟩
  | join =>
      by_cases running : system.object.running = true
      · obtain ⟨handle, held, joinable⟩ := careful running
        obtain ⟨threads, joined⟩ : ∃ threads,
            ThreadTable.join system.threads handle = some threads :=
          joinable.settles _
        have called := onHandle_eq_some.mpr ⟨handle, held, joined⟩
        refine ⟨_, by
          rw [ThreadSystem.after, ThreadSystem.join, if_pos running, called]
          rfl, ?_, fun running => by cases running⟩
        intro other left
        exact absurd left (tidy.nothing_left held
          (fun other => (joinableAt_join joined other).mp) other)
      · refine ⟨system, ?_, tidy⟩
        rw [ThreadSystem.after, ThreadSystem.join, if_neg running]
        rfl
  | detach =>
      by_cases attached :
          (system.object.running && !system.object.detached) = true
      · have parts := Bool.and_eq_true_iff.mp attached
        obtain ⟨handle, held, joinable⟩ :=
          tidy.known parts.1 ((Bool.not_eq_true' _).mp parts.2)
        obtain ⟨threads, detached⟩ : ∃ threads,
            ThreadTable.detach system.threads handle = some threads :=
          joinable.settles _
        have called := onHandle_eq_some.mpr ⟨handle, held, detached⟩
        refine ⟨_, by
          rw [ThreadSystem.after, ThreadSystem.detach, if_pos attached, called]
          rfl, ?_, fun _ attached => by cases attached⟩
        intro other left
        exact absurd left (tidy.nothing_left held
          (fun other => (joinableAt_detach detached other).mp) other)
      · refine ⟨system, ?_, tidy⟩
        rw [ThreadSystem.after, ThreadSystem.detach, if_neg attached]
        rfl
  | finish handle =>
      refine ⟨_, rfl, ?_, ?_⟩
      · exact fun other joinable =>
          tidy.held other ((joinableAt_finish _ _ _).mp joinable)
      · intro running attached
        obtain ⟨held, place, joinable⟩ := tidy.known running attached
        exact ⟨held, place, (joinableAt_finish _ _ _).mpr joinable⟩

/-! ## The destructor -/

theorem destroy_idle {system : ThreadSystem}
    (idle : system.object.running = false) :
    system.destroy = some system.threads := by
  simp [destroy, letGo, idle]

theorem destroy_busy {system : ThreadSystem} {left : Table}
    (running : system.object.running = true)
    (done : system.destroy = some left) :
    ∃ handle threads, system.object.tid = some handle ∧
      cancel threads handle = some left ∧
      (ThreadTable.detach system.threads handle = some threads ∨
        system.object.detached = true ∧ threads = system.threads) := by
  obtain ⟨threads, released, called⟩ := Option.bind_eq_some_iff.mp done
  rw [if_pos running] at called
  obtain ⟨handle, held, cancelled⟩ := onHandle_eq_some.mp called
  refine ⟨handle, threads, held, cancelled, ?_⟩
  rw [letGo] at released
  split at released
  next attached =>
    obtain ⟨same, place, detached⟩ := onHandle_eq_some.mp released
    rw [Option.some.inj (held.symm.trans place)]
    exact Or.inl detached
  next attached =>
    rw [running, Bool.true_and, Bool.not_eq_true, Bool.not_eq_false']
      at attached
    exact Or.inr ⟨attached, (Option.some.inj released).symm⟩

/-- The destructor releases the thread the object holds, if any, and no
other. -/
theorem Leaked.destroy {system : ThreadSystem} {left : Table}
    (leaked : system.Leaked) (done : system.destroy = some left) :
    ∃ handle, JoinableAt left handle := by
  obtain ⟨lost, joinable, away⟩ := leaked
  cases running : system.object.running with
  | false =>
      rw [destroy_idle running] at done
      cases done
      exact ⟨lost, joinable⟩
  | true =>
      obtain ⟨handle, threads, held, cancelled, detached | ⟨_, rfl⟩⟩ :=
        destroy_busy running done
      · obtain ⟨_, rfl⟩ := cancel_eq_some.mp cancelled
        refine ⟨lost, (joinableAt_detach detached lost).mpr ⟨joinable, ?_⟩⟩
        rintro rfl
        exact away held
      · obtain ⟨_, rfl⟩ := cancel_eq_some.mp cancelled
        exact ⟨lost, joinable⟩

/-- When every thread is over, a destructor that finds the object running
cancels a thread that is gone, or leaves one that nobody can release. -/
theorem destroy_running {system : ThreadSystem} {left : Table}
    (running : system.object.running = true)
    (finished : ∀ entry ∈ system.threads, entry.finished = true)
    (done : system.destroy = some left) :
    ∃ handle, JoinableAt left handle := by
  obtain ⟨handle, threads, _, cancelled, detached | ⟨_, rfl⟩⟩ :=
    destroy_busy running done
  · exact absurd (cancel_eq_some.mp cancelled).1
      (not_aliveAt_detach finished detached)
  · obtain ⟨_, rfl⟩ := cancel_eq_some.mp cancelled
    exact ⟨handle, (cancel_eq_some.mp cancelled).1.joinable finished⟩

theorem Tidy.endsClean_iff {system : ThreadSystem} (tidy : system.Tidy) :
    system.EndsClean ↔
      system.object.running = false ∧
        ∀ entry ∈ system.threads, entry.finished = true := by
  constructor
  · rintro ⟨finished, left, done, nothing⟩
    refine ⟨Bool.eq_false_iff.mpr fun running => ?_, finished⟩
    obtain ⟨handle, joinable⟩ := destroy_running running finished done
    exact nothing handle joinable
  · rintro ⟨idle, finished⟩
    refine ⟨finished, system.threads, destroy_idle idle, ?_⟩
    intro handle joinable
    rw [(tidy.held handle joinable).1] at idle
    cases idle

end ThreadSystem

open ThreadSystem

/-! ## Whole lives -/

/-- The life has no meaning, or a thread of it is lost. -/
def Spoilt (life : Option ThreadSystem) : Prop :=
  ∀ system, life = some system → system.Leaked

def CarefulAt (life : Option ThreadSystem) (event : ThreadEvent) : Prop :=
  ∀ system, life = some system → system.Careful event

theorem spoilt_step (life : Option ThreadSystem) (event : ThreadEvent)
    (spoilt : Spoilt life) : Spoilt (threadStep life event) := by
  intro later done
  obtain ⟨system, reached, called⟩ := Option.bind_eq_some_iff.mp done
  exact (spoilt system reached).after called

theorem spoilt_of_careless (life : Option ThreadSystem) (event : ThreadEvent)
    (careless : ¬CarefulAt life event) : Spoilt (threadStep life event) := by
  intro later done
  obtain ⟨system, reached, called⟩ := Option.bind_eq_some_iff.mp done
  refine leaked_of_careless (fun careful => careless ?_) called
  intro other same
  rw [← Option.some.inj (reached.symm.trans same)]
  exact careful

def TidyLife (life : Option ThreadSystem) : Prop :=
  ∃ system, life = some system ∧ system.Tidy

theorem tidyLife_step (life : Option ThreadSystem) (event : ThreadEvent)
    (tidy : TidyLife life) (careful : CarefulAt life event) :
    TidyLife (threadStep life event) := by
  obtain ⟨system, rfl, tidy⟩ := tidy
  exact tidy.after (careful system rfl)

/-- A life of careful calls has a meaning, and stays tidy. -/
theorem tidyLife_of_careful {events : List ThreadEvent}
    (careful : Along threadStep CarefulAt (some .fresh) events) :
    TidyLife (threadLife events) :=
  (Along.invariant tidyLife_step careful ⟨fresh, rfl, tidy_fresh⟩).2

/-- The life of a thread object comes to a clean end exactly when every call
on it was careful, and at the end the last thread has been joined and every
other one is over. -/
theorem threadLife_clean_iff (events : List ThreadEvent) :
    (∃ system, threadLife events = some system ∧ system.EndsClean) ↔
      Along threadStep CarefulAt (some .fresh) events ∧
        ∃ system, threadLife events = some system ∧
          system.object.running = false ∧
          ∀ entry ∈ system.threads, entry.finished = true := by
  constructor
  · rintro ⟨system, reached, clean⟩
    have careful : Along threadStep CarefulAt (some .fresh) events := by
      apply along_of_permanent spoilt_step spoilt_of_careless
      intro spoilt
      obtain ⟨_, left, done, nothing⟩ := clean
      obtain ⟨handle, joinable⟩ := (spoilt system reached).destroy done
      exact nothing handle joinable
    obtain ⟨tidied, same, tidy⟩ := tidyLife_of_careful careful
    cases Option.some.inj (reached.symm.trans same)
    exact ⟨careful, system, reached, tidy.endsClean_iff.mp clean⟩
  · rintro ⟨careful, system, reached, ended⟩
    obtain ⟨tidied, same, tidy⟩ := tidyLife_of_careful careful
    cases Option.some.inj (reached.symm.trans same)
    exact ⟨system, reached, tidy.endsClean_iff.mpr ended⟩

/-- A thread that was detached and is over is cancelled all the same. -/
example :
    (threadLife [.start 0, .detach, .finish 0]).bind destroy = none := by
  decide

end Xpcie
