import Xpcie.Machine
import Xpcie.Library.EffectLog

/-!
# The kernel as the driver sees it

Resources taken from and given back to the kernel, register accesses, and the
ways a system call can die.  Driver functions are runs over these events.
-/

namespace Xpcie

open EffectLog

/-- A `struct page`, named by its page frame number. -/
abbrev Page := Nat

/-! ## Registers -/

/-- The registers `xpcie_h2c_write` touches. -/
inductive Register where
  | control
  | status
  | firstDescLo
  | firstDescHi
  | firstDescAdjacent
  deriving DecidableEq, Repr

/-- The global pointers through which registers are reached. -/
inductive RegisterBlock where
  | engineRegsH2c
  | engineSgdmaRegs
  deriving DecidableEq, Repr

def Register.block : Register → RegisterBlock
  | .control | .status => .engineRegsH2c
  | .firstDescLo | .firstDescHi | .firstDescAdjacent => .engineSgdmaRegs

/-- Byte offset of the field in `struct engine_regs` or
`struct engine_sgdma_regs`. -/
def Register.fieldOffset : Register → Nat
  | .control => 4
  | .status => 4 * 16
  | .firstDescLo => 4 * 32
  | .firstDescHi => 4 * 33
  | .firstDescAdjacent => 4 * 34

/-- One `ioread32` or `iowrite32`, with the value transferred. -/
inductive Access where
  | read (register : Register) (value : U32)
  | write (register : Register) (value : U32)
  deriving DecidableEq, Repr

/-! ## Resources and events -/

/-- What the driver can hold, with the size or count it was taken with. -/
inductive Resource where
  | mapper
  | pageArray (entries : Nat)
  | sgArray (entries : Nat)
  | pageRef (page : Page)
  | sgMapping (nents : Int) (toDevice : Bool)
  | coherent (size : Nat) (bus : U64)
  deriving DecidableEq, Repr

inductive Event where
  | acquire (resource : Resource)
  | release (resource : Resource)
  /-- `xpcie_dev` is handed to the PCI layer, which dereferences it. -/
  | useDevice
  | access (access : Access)
  | setPageDirty (page : Page)
  | mdelay (milliseconds : Nat)
  deriving DecidableEq, Repr

/-- How a system call can end without returning. -/
inductive Fault where
  | bug
  | nullDereference
  | outOfBounds
  deriving DecidableEq, Repr

abbrev Exec := Run Event Fault

def bugOn (condition : Prop) [Decidable condition] : Exec Unit :=
  Run.require (¬condition) .bug

def acquire (resource : Resource) : Exec Unit :=
  Run.emit (.acquire resource)

def release (resource : Resource) : Exec Unit :=
  Run.emit (.release resource)

def useDevice : Exec Unit :=
  Run.emit .useDevice

@[simp] theorem bugOn_of_not {condition : Prop} [Decidable condition]
    (fine : ¬condition) : bugOn condition = ⟨.ok (), []⟩ :=
  if_pos fine

@[simp] theorem bugOn_of {condition : Prop} [Decidable condition]
    (broken : condition) : bugOn condition = ⟨.error .bug, []⟩ :=
  if_neg (not_not_intro broken)

@[simp] theorem acquire_eq (resource : Resource) :
    acquire resource = ⟨.ok (), [.acquire resource]⟩ := rfl

@[simp] theorem release_eq (resource : Resource) :
    release resource = ⟨.ok (), [.release resource]⟩ := rfl

@[simp] theorem useDevice_eq : useDevice = ⟨.ok (), [.useDevice]⟩ := rfl

/-! ## Outstanding resources -/

def Event.change (event : Event) (resource : Resource) : Int :=
  match event with
  | .acquire taken => if taken = resource then 1 else 0
  | .release given => if given = resource then -1 else 0
  | _ => 0

theorem Event.change_cancels (taken resource : Resource) :
    (Event.acquire taken).change resource +
      (Event.release taken).change resource = 0 := by
  simp only [Event.change]
  split <;> rfl

/-- How many more times `resource` was taken than given back. -/
def outstanding (log : List Event) (resource : Resource) : Int :=
  balance Event.change log resource

@[simp] theorem outstanding_nil (resource : Resource) :
    outstanding [] resource = 0 := rfl

@[simp] theorem outstanding_cons (event : Event) (log : List Event)
    (resource : Resource) :
    outstanding (event :: log) resource =
      event.change resource + outstanding log resource :=
  balance_cons Event.change event log resource

@[simp] theorem outstanding_append (earlier later : List Event)
    (resource : Resource) :
    outstanding (earlier ++ later) resource =
      outstanding earlier resource + outstanding later resource :=
  balance_append Event.change earlier later resource

/-- The register accesses of a log, in order. -/
def accesses (log : List Event) : List Access :=
  log.filterMap fun event =>
    match event with
    | .access access => some access
    | _ => none

@[simp] theorem accesses_append (earlier later : List Event) :
    accesses (earlier ++ later) = accesses earlier ++ accesses later := by
  simp [accesses]

/-- An event that neither names the device nor touches a register. -/
def Event.isBookkeeping : Event → Prop
  | .acquire _ | .release _ | .setPageDirty _ => True
  | .useDevice | .access _ | .mdelay _ => False

section Bookkeeping

variable {log : List Event}

theorem accesses_of_bookkeeping
    (bookkeeping : ∀ event ∈ log, event.isBookkeeping) :
    accesses log = [] := by
  rw [accesses, List.filterMap_eq_nil_iff]
  intro event member
  cases event with
  | access access => exact (bookkeeping _ member).elim
  | _ => rfl

theorem useDevice_not_mem_of_bookkeeping
    (bookkeeping : ∀ event ∈ log, event.isBookkeeping) :
    Event.useDevice ∉ log :=
  fun member => bookkeeping _ member

end Bookkeeping

end Xpcie
