import Mathlib.Algebra.BigOperators.Group.List.Basic
import Mathlib.Algebra.Order.Ring.Int
import Mathlib.Data.List.FinRange

/-!
# Runs that log their effects

A `Run` is what a sequential program leaves behind: the value it returned or
the fault that stopped it, and every event it emitted until then.  A ledger
reads such a log as a sequence of gains and losses and adds them up for each
resource.
-/

namespace EffectLog

structure Run (Event Fault Value : Type) where
  result : Except Fault Value
  log : List Event

namespace Run

variable {Event Fault Value Next : Type}

/-- The same run, with `earlier` emitted before it. -/
def after (earlier : List Event) (run : Run Event Fault Value) :
    Run Event Fault Value :=
  { result := run.result
    log := earlier ++ run.log }

/-- A fault skips the continuation and keeps the log. -/
def bind (run : Run Event Fault Value)
    (next : Value → Run Event Fault Next) : Run Event Fault Next :=
  match run.result with
  | .ok value => (next value).after run.log
  | .error fault => ⟨.error fault, run.log⟩

instance : Monad (Run Event Fault) where
  pure value := ⟨.ok value, []⟩
  bind := bind

def emit (event : Event) : Run Event Fault Unit :=
  ⟨.ok (), [event]⟩

def emitAll (events : List Event) : Run Event Fault Unit :=
  ⟨.ok (), events⟩

def fail (fault : Fault) : Run Event Fault Value :=
  ⟨.error fault, []⟩

/-- Stop with `fault` unless `condition` holds. -/
def require (condition : Prop) [Decidable condition] (fault : Fault) :
    Run Event Fault Unit :=
  if condition then ⟨.ok (), []⟩ else fail fault

/-- Read an optional value, where its absence is a fault. -/
def demand (value : Option Value) (fault : Fault) : Run Event Fault Value :=
  match value with
  | some found => ⟨.ok found, []⟩
  | none => fail fault

@[simp] theorem after_mk (earlier log : List Event)
    (result : Except Fault Value) :
    after earlier ⟨result, log⟩ = ⟨result, earlier ++ log⟩ := rfl

@[simp] theorem after_nil (run : Run Event Fault Value) :
    after [] run = run := rfl

@[simp] theorem pure_eq (value : Value) :
    (pure value : Run Event Fault Value) = ⟨.ok value, []⟩ := rfl

@[simp] theorem ok_bind (value : Value) (log : List Event)
    (next : Value → Run Event Fault Next) :
    ((⟨.ok value, log⟩ : Run Event Fault Value) >>= next) =
      (next value).after log := rfl

@[simp] theorem error_bind (fault : Fault) (log : List Event)
    (next : Value → Run Event Fault Next) :
    ((⟨.error fault, log⟩ : Run Event Fault Value) >>= next) =
      ⟨.error fault, log⟩ := rfl

/-- It does not matter how a sequence of runs is bracketed. -/
theorem bind_assoc {Last : Type} (run : Run Event Fault Value)
    (next : Value → Run Event Fault Next)
    (last : Next → Run Event Fault Last) :
    (run >>= next) >>= last = run >>= fun value => next value >>= last := by
  obtain ⟨result, log⟩ := run
  cases result with
  | error fault => rfl
  | ok value =>
      rw [ok_bind, ok_bind]
      obtain ⟨result, later⟩ := next value
      cases result with
      | error fault => rfl
      | ok value =>
          change (last value).after (log ++ later) =
            ((last value).after later).after log
          rw [after, after, after, List.append_assoc]

/-- A run that returns has returned at every step. -/
theorem of_bind_ok {run : Run Event Fault Value}
    {next : Value → Run Event Fault Next} {value : Next}
    (returned : (run >>= next).result = .ok value) :
    ∃ middle, run.result = .ok middle ∧
      (next middle).result = .ok value := by
  obtain ⟨result, log⟩ := run
  cases result with
  | error fault => cases returned
  | ok middle => exact ⟨middle, rfl, returned⟩

/-- What was emitted before a continuation stays at the front. -/
theorem log_bind (run : Run Event Fault Value)
    (next : Value → Run Event Fault Next) :
    ∃ later, (run >>= next).log = run.log ++ later := by
  obtain ⟨result, log⟩ := run
  cases result with
  | ok value => exact ⟨(next value).log, rfl⟩
  | error fault => exact ⟨[], (List.append_nil log).symm⟩

@[simp] theorem emit_eq (event : Event) :
    (emit event : Run Event Fault Unit) = ⟨.ok (), [event]⟩ := rfl

@[simp] theorem emitAll_eq (events : List Event) :
    (emitAll events : Run Event Fault Unit) = ⟨.ok (), events⟩ := rfl

@[simp] theorem fail_eq (fault : Fault) :
    (fail fault : Run Event Fault Value) = ⟨.error fault, []⟩ := rfl

@[simp] theorem require_of {condition : Prop} [Decidable condition]
    (holds : condition) (fault : Fault) :
    (require condition fault : Run Event Fault Unit) = ⟨.ok (), []⟩ :=
  if_pos holds

theorem of_require_ok {condition : Prop} [Decidable condition]
    {fault : Fault}
    (returned : (require condition fault : Run Event Fault Unit).result =
      .ok ()) : condition := by
  by_contra broken
  rw [require, if_neg broken] at returned
  cases returned

theorem of_demand_ok {value : Option Value} {fault : Fault} {found : Value}
    (returned : (demand value fault : Run Event Fault Value).result =
      .ok found) : value = some found := by
  cases value with
  | none => cases returned
  | some value =>
      cases returned
      rfl

@[simp] theorem demand_some (value : Value) (fault : Fault) :
    (demand (some value) fault : Run Event Fault Value) =
      ⟨.ok value, []⟩ := rfl

@[simp] theorem demand_none (fault : Fault) :
    (demand none fault : Run Event Fault Value) = ⟨.error fault, []⟩ := rfl

end Run

/-! ## Ledgers -/

section Ledger

variable {Event Resource Item : Type}

/-- What a log adds to the amount of one resource. -/
def balance (change : Event → Resource → Int) (log : List Event)
    (resource : Resource) : Int :=
  (log.map fun event => change event resource).sum

variable (change : Event → Resource → Int)

@[simp] theorem balance_nil (resource : Resource) :
    balance change [] resource = 0 := rfl

@[simp] theorem balance_cons (event : Event) (log : List Event)
    (resource : Resource) :
    balance change (event :: log) resource =
      change event resource + balance change log resource := by
  simp [balance]

@[simp] theorem balance_append (earlier later : List Event)
    (resource : Resource) :
    balance change (earlier ++ later) resource =
      balance change earlier resource + balance change later resource := by
  simp [balance]

/-- Gains and losses that cancel item by item cancel as a whole. -/
theorem balance_map_cancel (gain loss : Item → Event)
    (cancels : ∀ item resource,
      change (gain item) resource + change (loss item) resource = 0)
    (items : List Item) (resource : Resource) :
    balance change (items.map gain) resource +
      balance change (items.map loss) resource = 0 := by
  induction items with
  | nil => simp
  | cons item items induction =>
      have headCancels := cancels item resource
      simp only [List.map_cons, balance_cons]
      omega

/-- A log that begins with the amount `held` of a resource never owes any of
it, and ends with the amount `left`. -/
structure Settles (resource : Resource) (held : Int) (log : List Event)
    (left : Int) : Prop where
  covered : ∀ k, 0 ≤ held + balance change (log.take k) resource
  settled : held + balance change log resource = left

variable {change}

theorem Settles.nil {resource : Resource} {held : Int} (solvent : 0 ≤ held) :
    Settles change resource held [] held := by
  constructor
  · intro k
    rw [List.take_nil, balance_nil, Int.add_zero]
    exact solvent
  · rw [balance_nil, Int.add_zero]

theorem Settles.cons {resource : Resource} {held left : Int} {event : Event}
    {log : List Event} (solvent : 0 ≤ held)
    (later : Settles change resource (held + change event resource) log
      left) :
    Settles change resource held (event :: log) left := by
  constructor
  · intro k
    cases k with
    | zero =>
        rw [List.take_zero, balance_nil, Int.add_zero]
        exact solvent
    | succ k =>
        have rest := later.covered k
        rw [List.take_succ_cons, balance_cons]
        omega
  · have rest := later.settled
    rw [balance_cons]
    omega

theorem Settles.append {resource : Resource} {held middle left : Int}
    {first second : List Event}
    (earlier : Settles change resource held first middle)
    (later : Settles change resource middle second left) :
    Settles change resource held (first ++ second) left := by
  constructor
  · intro k
    have start := earlier.covered k
    have whole := earlier.settled
    have rest := later.covered (k - first.length)
    rw [List.take_append, balance_append]
    by_cases inside : k ≤ first.length
    · rw [Nat.sub_eq_zero_of_le inside, List.take_zero, balance_nil]
      omega
    · rw [List.take_of_length_le (Nat.le_of_not_le inside)]
      omega
  · have start := earlier.settled
    have rest := later.settled
    rw [balance_append]
    omega

/-- Events that leave a resource alone settle at the same amount. -/
theorem Settles.of_neutral {resource : Resource} {held : Int}
    {log : List Event} (solvent : 0 ≤ held)
    (neutral : ∀ event ∈ log, change event resource = 0) :
    Settles change resource held log held := by
  induction log with
  | nil => exact Settles.nil solvent
  | cons event log induction =>
      obtain ⟨here, later⟩ := List.forall_mem_cons.mp neutral
      apply Settles.cons solvent
      rw [here, Int.add_zero]
      exact induction later

/-- One event an item, each worth `step` or nothing, settles when the first
and the last amount are covered. -/
theorem Settles.of_map {resource : Resource} {held step : Int}
    {event : Item → Event} {counts : Item → Bool} {items : List Item}
    (changes : ∀ item,
      change (event item) resource = if counts item then step else 0)
    (solvent : 0 ≤ held)
    (remains : 0 ≤ held + step * items.countP counts) :
    Settles change resource held (items.map event)
      (held + step * items.countP counts) := by
  induction items generalizing held with
  | nil =>
      rw [List.countP_nil, Int.natCast_zero, Int.mul_zero, Int.add_zero]
      exact Settles.nil solvent
  | cons item items induction =>
      apply Settles.cons solvent
      rw [changes item]
      by_cases counted : counts item
      · have total : held + step * (items.countP counts + 1 : Nat) =
            held + step + step * items.countP counts := by
          rw [Int.natCast_add, Int.natCast_one, Int.mul_add, Int.mul_one]
          omega
        rw [List.countP_cons_of_pos counted, total] at remains ⊢
        rw [if_pos counted]
        -- The amounts in between lie between the first and the last one.
        have covered : 0 ≤ held + step := by
          by_cases gains : 0 ≤ step
          · omega
          · have later : step * items.countP counts ≤ 0 :=
              Int.mul_nonpos_of_nonpos_of_nonneg (by omega)
                (Int.natCast_nonneg _)
            omega
        exact induction covered remains
      · rw [List.countP_cons_of_neg counted] at remains ⊢
        rw [if_neg counted, Int.add_zero]
        exact induction solvent remains

end Ledger

end EffectLog
