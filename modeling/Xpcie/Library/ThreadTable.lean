import Mathlib.Data.List.Basic

/-!
# Threads and their handles

The system keeps every thread it has created; a handle is a place in that
table.  A thread is released once it has ended and has been joined or
detached, and its handle is dead from then on.  A call that is given a dead
handle, or joins or detaches twice, has no result.
-/

namespace ThreadTable

/-- Who releases a thread once it has ended. -/
inductive Custody where
  | joinable
  | detached
  | joined
  deriving DecidableEq

structure Entry where
  finished : Bool
  custody : Custody
  deriving DecidableEq

abbrev Table := List Entry

/-- `pthread_create`: the handle of the new thread is the table's length. -/
def create (table : Table) : Table :=
  table ++ [{ finished := false, custody := .joinable }]

/-- A thread comes to its end. -/
def finish (table : Table) (handle : Nat) : Table :=
  table.modify handle fun entry => { entry with finished := true }

def JoinableAt (table : Table) (handle : Nat) : Prop :=
  table[handle]?.map Entry.custody = some .joinable

instance (table : Table) (handle : Nat) :
    Decidable (JoinableAt table handle) :=
  inferInstanceAs (Decidable (_ = _))

/-- The handle names a thread that has not been released. -/
def AliveAt (table : Table) (handle : Nat) : Prop :=
  ∃ entry, table[handle]? = some entry ∧
    (entry.finished = false ∨ entry.custody = .joinable)

instance (table : Table) (handle : Nat) : Decidable (AliveAt table handle) :=
  match found : table[handle]? with
  | none => .isFalse (by
      rintro ⟨entry, there, _⟩
      rw [found] at there
      cases there)
  | some entry =>
      decidable_of_iff
        (entry.finished = false ∨ entry.custody = .joinable) (by
          simp [AliveAt, found])

/-- A joinable thread is taken into custody. -/
def settle (update : Entry → Entry) (table : Table) (handle : Nat) :
    Option Table :=
  if JoinableAt table handle then some (table.modify handle update) else none

/-- `pthread_join`: it waits until the thread has ended. -/
def join : Table → Nat → Option Table :=
  settle fun _ => { finished := true, custody := .joined }

/-- `pthread_detach` -/
def detach : Table → Nat → Option Table :=
  settle fun entry => { entry with custody := .detached }

/-- `pthread_cancel`: the request stays with the thread, which acts on it
when it next comes to a cancellation point. -/
def cancel (table : Table) (handle : Nat) : Option Table :=
  if AliveAt table handle then some table else none

theorem JoinableAt.inside {table : Table} {handle : Nat}
    (joinable : JoinableAt table handle) : handle < table.length := by
  by_contra outside
  have missing : table[handle]? = none :=
    List.getElem?_eq_none (Nat.le_of_not_lt outside)
  rw [JoinableAt, missing] at joinable
  cases joinable

@[simp] theorem not_joinableAt_nil (handle : Nat) :
    ¬JoinableAt [] handle := nofun

theorem joinableAt_create (table : Table) (handle : Nat) :
    JoinableAt (create table) handle ↔
      JoinableAt table handle ∨ handle = table.length := by
  rcases Nat.lt_trichotomy handle table.length with before | rfl | after
  · have same : (create table)[handle]? = table[handle]? :=
      List.getElem?_append_left before
    rw [JoinableAt, same]
    exact ⟨Or.inl, fun either => either.resolve_right (Nat.ne_of_lt before)⟩
  · simp [JoinableAt, create]
  · constructor
    · intro joinable
      have inside := joinable.inside
      rw [create, List.length_append, List.length_singleton] at inside
      omega
    · rintro (joinable | rfl)
      · exact absurd joinable.inside (by omega)
      · exact absurd after (Nat.lt_irrefl _)

/-- What is written at one place changes no other thread. -/
theorem joinableAt_modify_of_ne (table : Table) (update : Entry → Entry)
    {handle other : Nat} (apart : handle ≠ other) :
    JoinableAt (table.modify handle update) other ↔
      JoinableAt table other := by
  rw [JoinableAt, JoinableAt, List.getElem?_modify_ne _ _ apart]

@[simp] theorem joinableAt_finish (table : Table) (handle other : Nat) :
    JoinableAt (finish table handle) other ↔ JoinableAt table other := by
  by_cases same : handle = other
  · subst other
    rw [JoinableAt, JoinableAt, finish, List.getElem?_modify_eq,
      Option.map_eq_map, Option.map_map]
    rfl
  · exact joinableAt_modify_of_ne table _ same

theorem settle_eq_some {update : Entry → Entry} {table later : Table}
    {handle : Nat} :
    settle update table handle = some later ↔
      JoinableAt table handle ∧ table.modify handle update = later := by
  rw [settle, Option.ite_none_right_eq_some, Option.some.injEq]

theorem JoinableAt.settles {table : Table} {handle : Nat}
    (joinable : JoinableAt table handle) (update : Entry → Entry) :
    ∃ later, settle update table handle = some later :=
  ⟨_, settle_eq_some.mpr ⟨joinable, rfl⟩⟩

/-- A thread taken into custody is joinable no more. -/
theorem joinableAt_settle {update : Entry → Entry} {table later : Table}
    {handle : Nat} (taken : ∀ entry, (update entry).custody ≠ .joinable)
    (settled : settle update table handle = some later) (other : Nat) :
    JoinableAt later other ↔ JoinableAt table other ∧ handle ≠ other := by
  obtain ⟨_, rfl⟩ := settle_eq_some.mp settled
  by_cases same : handle = other
  · subst other
    refine ⟨fun joinable => ?_, fun both => absurd rfl both.2⟩
    rw [JoinableAt, List.getElem?_modify_eq, Option.map_eq_map,
      Option.map_map, Option.map_eq_some_iff] at joinable
    obtain ⟨entry, _, custody⟩ := joinable
    exact absurd custody (taken entry)
  · rw [joinableAt_modify_of_ne table update same]
    exact ⟨fun joinable => ⟨joinable, same⟩, And.left⟩

theorem joinableAt_join {table later : Table} {handle : Nat}
    (joined : join table handle = some later) (other : Nat) :
    JoinableAt later other ↔ JoinableAt table other ∧ handle ≠ other :=
  joinableAt_settle (fun _ => by simp) joined other

theorem joinableAt_detach {table later : Table} {handle : Nat}
    (detached : detach table handle = some later) (other : Nat) :
    JoinableAt later other ↔ JoinableAt table other ∧ handle ≠ other :=
  joinableAt_settle (fun _ => by simp) detached other

theorem cancel_eq_some {table later : Table} {handle : Nat} :
    cancel table handle = some later ↔
      AliveAt table handle ∧ table = later := by
  rw [cancel, Option.ite_none_right_eq_some, Option.some.injEq]

/-- Once a thread has ended, detaching it releases it. -/
theorem not_aliveAt_detach {table later : Table} {handle : Nat}
    (finished : ∀ entry ∈ table, entry.finished = true)
    (detached : detach table handle = some later) :
    ¬AliveAt later handle := by
  obtain ⟨_, rfl⟩ := settle_eq_some.mp detached
  rintro ⟨entry, there, alive⟩
  rw [List.getElem?_modify_eq, Option.map_eq_map,
    Option.map_eq_some_iff] at there
  obtain ⟨before, found, rfl⟩ := there
  rcases alive with unfinished | joinable
  · have ended := finished before (List.mem_of_getElem? found)
    rw [ended] at unfinished
    cases unfinished
  · cases joinable

/-- Among ended threads only a joinable one keeps its handle. -/
theorem AliveAt.joinable {table : Table} {handle : Nat}
    (alive : AliveAt table handle)
    (finished : ∀ entry ∈ table, entry.finished = true) :
    JoinableAt table handle := by
  obtain ⟨entry, there, unfinished | joinable⟩ := alive
  · have ended := finished entry (List.mem_of_getElem? there)
    rw [ended] at unfinished
    cases unfinished
  · rw [JoinableAt, there, Option.map_some, joinable]

end ThreadTable
