import Xpcie.Write
import Xpcie.Library.Runs

/-!
# How a write ends

A failed kernel call is never answered with an error number: the write dies.
A failure reported by the device is not answered at all.  A write that
returns leaves its descriptor array behind.
-/

namespace Xpcie

open EffectLog Runs

section Outcome

variable (host : Endian) (kernel : KernelCalls) (buf count ppos : U64)

/-! ## Failed kernel calls -/

/-- The write returns, and if a kernel call failed it says so, without having
started the engine and without keeping anything. -/
def FailsCleanly : Prop :=
  ∃ rc position,
    (xpcieH2cWrite host kernel buf count ppos).result = .ok (rc, position) ∧
      (¬kernel.Succeed buf count →
        (rc < 0 ∨ count.toNat = 0 ∧ rc = 0) ∧
          (∀ registers, launches registers (accesses
            (xpcieH2cWrite host kernel buf count ppos).log) = []) ∧
          ∀ resource, outstanding
            (xpcieH2cWrite host kernel buf count ppos).log resource = 0)

variable {kernel buf count}

/-- A write returns exactly when no kernel call fails. -/
theorem xpcieH2cWrite_returns_iff (admitted : count.toNat ≤ maxRwCount)
    (bounded : kernel.user.rc ≤ pageSpan buf count) :
    (∃ returned, (xpcieH2cWrite host kernel buf count ppos).result =
      .ok returned) ↔ kernel.Succeed buf count := by
  constructor
  · rintro ⟨returned, result⟩
    by_contra failed
    obtain ⟨fault, log, stopped, _, _⟩ :=
      xpcieH2cWrite_stops host ppos admitted bounded failed
    rw [stopped] at result
    cases result
  · intro succeed
    obtain ⟨grant, allocated⟩ := succeed.allocated
    rw [xpcieH2cWrite_ok host ppos admitted succeed allocated]
    exact ⟨_, rfl⟩

theorem failsCleanly_iff_succeed (admitted : count.toNat ≤ maxRwCount)
    (bounded : kernel.user.rc ≤ pageSpan buf count) :
    FailsCleanly host kernel buf count ppos ↔ kernel.Succeed buf count := by
  have returns := xpcieH2cWrite_returns_iff host ppos admitted bounded
  constructor
  · rintro ⟨rc, position, result, _⟩
    exact returns.mp ⟨_, result⟩
  · intro succeed
    obtain ⟨⟨rc, position⟩, result⟩ := returns.mpr succeed
    exact ⟨rc, position, result, fun failed => absurd succeed failed⟩

end Outcome

theorem failsCleanly_iff_succeed_one_byte :
    FailsCleanly .little (directKernel 0x1000 1 2) 0x1000 1 0 ↔
      (directKernel 0x1000 1 2).Succeed 0x1000 1 :=
  failsCleanly_iff_succeed .little 0 (by decide) (by decide)

/-- A write of one byte for which there is no memory for the mapper. -/
theorem not_failsCleanly_without_mapper :
    ¬∀ (host : Endian) (kernel : KernelCalls) (buf count ppos : U64),
      count.toNat ≤ maxRwCount → kernel.user.rc ≤ pageSpan buf count →
        FailsCleanly host kernel buf count ppos := by
  intro cleanly
  obtain ⟨rc, position, result, _⟩ := cleanly .little
    { directKernel 0x1000 1 2 with
      allocs := { mapper := false, pages := true, sgl := true } }
    0x1000 1 0 (by decide) (by decide)
  have died : (xpcieH2cWrite .little
      { directKernel 0x1000 1 2 with
        allocs := { mapper := false, pages := true, sgl := true } }
      0x1000 1 0).result = .error .nullDereference := rfl
  rw [died] at result
  cases result

/-! ## Failures of the device -/

/-- The engine is idle, was stopped by a descriptor, and saw no error. -/
def FinishedCleanly (status : U32) : Prop :=
  status &&& xdmaStatBusy = 0 ∧ status &&& xdmaStatDescStopped ≠ 0 ∧
    status &&& (xdmaStatAlignMismatch ||| xdmaStatMagicStopped |||
      xdmaStatReadError ||| xdmaStatDescError) = 0

instance (status : U32) : Decidable (FinishedCleanly status) :=
  inferInstanceAs (Decidable (_ ∧ _ ∧ _))

/-- What the accesses of a log leave in the registers of an idle engine. -/
def finalRegisters (log : List Event) : RegisterFile :=
  (accesses log).foldl RegisterFile.apply idleRegisters

/-- The write returns `count` after a clean transfer, and otherwise a negative
error number, with the engine stopped and the pages released. -/
def NoFalseSuccess (host : Endian) (kernel : KernelCalls)
    (buf count ppos : U64) : Prop :=
  ∃ rc position,
    (xpcieH2cWrite host kernel buf count ppos).result = .ok (rc, position) ∧
      (rc = count.toInt ∧ FinishedCleanly (kernel.status 2) ∨
        rc < 0 ∧
          (finalRegisters (xpcieH2cWrite host kernel buf count ppos).log
            ).control &&& xdmaCtrlRunStop = 0 ∧
          ∀ page, outstanding
            (xpcieH2cWrite host kernel buf count ppos).log (.pageRef page) =
              0)

/-- The status word plays no part in the result. -/
theorem noFalseSuccess_iff (host : Endian) {kernel : KernelCalls}
    {buf count : U64} (ppos : U64) (admitted : count.toNat ≤ maxRwCount)
    (bounded : kernel.user.rc ≤ pageSpan buf count) :
    NoFalseSuccess host kernel buf count ppos ↔
      kernel.Succeed buf count ∧ FinishedCleanly (kernel.status 2) := by
  constructor
  · rintro ⟨rc, position, result, honest⟩
    have succeed := (xpcieH2cWrite_returns_iff host ppos admitted bounded).mp
      ⟨_, result⟩
    obtain ⟨grant, allocated⟩ := succeed.allocated
    rw [xpcieH2cWrite_ok host ppos admitted succeed allocated] at result
    cases result
    rcases honest with ⟨_, clean⟩ | ⟨negative, _⟩
    · exact ⟨succeed, clean⟩
    · rw [toInt_of_admitted admitted] at negative
      omega
  · rintro ⟨succeed, clean⟩
    obtain ⟨grant, allocated⟩ := succeed.allocated
    refine ⟨count.toInt, ppos, ?_, .inl ⟨rfl, clean⟩⟩
    rw [xpcieH2cWrite_ok host ppos admitted succeed allocated]

theorem noFalseSuccess_iff_one_byte :
    NoFalseSuccess .little (directKernel 0x1000 1 2) 0x1000 1 0 ↔
      (directKernel 0x1000 1 2).Succeed 0x1000 1 ∧ FinishedCleanly 2 :=
  noFalseSuccess_iff .little 0 (by decide) (by decide)

/-- A transfer that is still running after the wait. -/
theorem not_noFalseSuccess_busy :
    ¬∀ (host : Endian) (kernel : KernelCalls) (buf count ppos : U64),
      count.toNat ≤ maxRwCount → kernel.user.rc ≤ pageSpan buf count →
        NoFalseSuccess host kernel buf count ppos := by
  intro honest
  obtain ⟨rc, position, result, claimed⟩ := honest .little
    (directKernel 0x1000 1 1) 0x1000 1 0 (by decide) (by decide)
  rw [xpcieH2cWrite_ok .little 0 (by decide)
    (directKernel_succeed 0x1000 1 (by decide)) rfl] at result
  cases result
  rcases claimed with ⟨_, clean⟩ | ⟨negative, _⟩
  · exact absurd clean (by decide)
  · exact absurd negative (by decide)

/-! ## Resources over many writes -/

/-- A call the VFS admits, with every kernel call granted. -/
structure WriteCall.Succeeds (call : WriteCall) : Prop where
  admitted : call.count.toNat ≤ maxRwCount
  succeed : call.kernel.Succeed call.buf call.count

/-- The descriptor array a call allocates. -/
def WriteCall.descriptors (call : WriteCall) : Option Resource :=
  call.kernel.coherent.map fun grant =>
    .coherent ((call.kernel.mapped call.buf call.count).length * xdmaDescSize)
      grant.bus

/-- The resources held after a call, from those held before it. -/
def afterWrite (host : Endian) (held : Resource → Int) (call : WriteCall) :
    Resource → Int :=
  fun resource => held resource + outstanding (call.run host).log resource

/-- Every call of the sequence leaves held what was held before it. -/
def ResourceNeutral (host : Endian) (held : Resource → Int)
    (calls : List WriteCall) : Prop :=
  Along (afterWrite host)
    (fun held call => afterWrite host held call = held) held calls

theorem WriteCall.Succeeds.outstanding_run {call : WriteCall}
    (succeeds : call.Succeeds) (host : Endian) (resource : Resource) :
    outstanding (call.run host).log resource =
      if call.descriptors = some resource then 1 else 0 := by
  obtain ⟨grant, allocated⟩ := succeeds.succeed.allocated
  rw [WriteCall.run, outstanding_xpcieH2cWrite host call.ppos
    succeeds.admitted succeeds.succeed allocated]
  simp [WriteCall.descriptors, allocated]

theorem afterWrite_ne {call : WriteCall} (succeeds : call.Succeeds)
    (host : Endian) (held : Resource → Int) :
    afterWrite host held call ≠ held := by
  intro unchanged
  obtain ⟨grant, allocated⟩ := succeeds.succeed.allocated
  have array : call.descriptors = some (.coherent
      ((call.kernel.mapped call.buf call.count).length * xdmaDescSize)
      grant.bus) := by
    simp [WriteCall.descriptors, allocated]
  have balance := congrFun unchanged (.coherent
    ((call.kernel.mapped call.buf call.count).length * xdmaDescSize)
    grant.bus)
  rw [afterWrite, succeeds.outstanding_run host, if_pos array] at balance
  omega

/-- The leak of a whole sequence: each array, as often as it was taken. -/
theorem foldl_afterWrite (host : Endian) (held : Resource → Int)
    {calls : List WriteCall} (succeed : ∀ call ∈ calls, call.Succeeds)
    (resource : Resource) :
    calls.foldl (afterWrite host) held resource =
      held resource +
        calls.countP fun call => call.descriptors = some resource := by
  induction calls generalizing held with
  | nil => simp
  | cons call calls induction =>
      have first := (succeed call List.mem_cons_self).outstanding_run host
        resource
      have later := induction (afterWrite host held call) fun other member =>
        succeed other (List.mem_cons_of_mem call member)
      rw [List.foldl_cons, later, afterWrite, first, List.countP_cons]
      by_cases taken : call.descriptors = some resource
      · simp only [taken, if_pos, decide_true]
        omega
      · simp [taken]

/-- Only the empty sequence is neutral; every other one keeps exactly the
descriptor arrays of its calls. -/
theorem resourceNeutral_iff (host : Endian) (held : Resource → Int)
    {calls : List WriteCall} (succeed : ∀ call ∈ calls, call.Succeeds) :
    (ResourceNeutral host held calls ↔ calls = []) ∧
      ∀ resource, calls.foldl (afterWrite host) held resource =
        held resource +
          calls.countP fun call => call.descriptors = some resource := by
  refine ⟨?_, foldl_afterWrite host held succeed⟩
  cases calls with
  | nil => exact iff_of_true trivial rfl
  | cons call calls =>
      constructor
      · intro neutral
        exact absurd neutral.1
          (afterWrite_ne (succeed call List.mem_cons_self) host held)
      · intro empty
        cases empty

theorem oneByteWrite_succeeds : oneByteWrite.Succeeds :=
  ⟨by decide, directKernel_succeed 0x1000 2 (by decide)⟩

theorem resourceNeutral_iff_oneByteWrite :
    (ResourceNeutral .little 0 [oneByteWrite] ↔ [oneByteWrite] = []) ∧
      ∀ resource, [oneByteWrite].foldl (afterWrite .little) 0 resource =
        (0 : Resource → Int) resource +
          [oneByteWrite].countP fun call =>
            call.descriptors = some resource :=
  resourceNeutral_iff .little 0
    (List.forall_mem_singleton.mpr oneByteWrite_succeeds)

theorem not_resourceNeutral_oneByteWrite :
    ¬∀ (host : Endian) (held : Resource → Int) (calls : List WriteCall),
      (∀ call ∈ calls, call.Succeeds) → ResourceNeutral host held calls := by
  intro neutral
  have first := (neutral .little 0 [oneByteWrite]
    (List.forall_mem_singleton.mpr oneByteWrite_succeeds)).1
  exact afterWrite_ne oneByteWrite_succeeds .little 0 first

end Xpcie
