import Xpcie.Write
import Xpcie.Library.Interleaving

/-!
# Concurrent writes

Every write programs the same engine through the same pointers, and nothing
in the driver orders their accesses.  A call holds the engine, in the sense
below, from its first register write to its own stop.
-/

namespace Xpcie

open Runs

def Access.IsWrite : Access → Prop
  | .write _ _ => True
  | .read _ _ => False

/-- A call that has performed `position` accesses of its program has written
a register, and has not stopped the engine since. -/
def HoldsEngine (program : List Access) (position : Nat) : Prop :=
  (∃ access ∈ program.take position, access.IsWrite) ∧
    Access.write .control 0 ∉ program.take position

/-- The registers name the descriptors of `transfer`. -/
structure RegisterFile.Name (registers : RegisterFile) (host : Endian)
    (transfer : XdmaTransfer) : Prop where
  firstDescLo : registers.firstDescLo =
    cpuToLe32 host (pciDmaL transfer.descBus)
  firstDescHi : registers.firstDescHi =
    cpuToLe32 host (pciDmaH transfer.descBus)
  firstDescAdjacent : registers.firstDescAdjacent = cpuToLe32 host
    (BitVec.ofInt 32 (firstExtraAdj transfer.descAdjacent))

/-- The device's registers, and how far each call has come. -/
abbrev EngineState (ι : Type) := Interleaving.State ι RegisterFile

section Sharing

variable {ι : Type} (host : Endian) (calls : ι → WriteCall)

/-- Call `i` performs its next register access. -/
def engineStep [DecidableEq ι] (state : EngineState ι) (i : ι) :
    EngineState ι :=
  Interleaving.step RegisterFile.apply (fun i => (calls i).program host)
    state i

/-- No call but `i` holds the engine. -/
def OthersAway (state : EngineState ι) (i : ι) : Prop :=
  ∀ j, j ≠ i → ¬HoldsEngine ((calls j).program host) (state.position j)

/-- If call `i` writes a register now, no other call holds the engine, and if
it sets the engine running, the registers name its own descriptors. -/
def Undisturbed (state : EngineState ι) (i : ι) : Prop :=
  ∀ access, ((calls i).program host)[state.position i]? = some access →
    access.IsWrite →
    OthersAway host calls state i ∧
      (access.starts → ∀ transfer, (calls i).transfer host = some transfer →
        state.shared.Name host transfer)

/-- If the access call `i` performs now is its first register write, no other
call holds the engine. -/
def BeginsAlone (state : EngineState ι) (i : ι) : Prop :=
  ∀ access, ((calls i).program host)[state.position i]? = some access →
    access.IsWrite →
    (∀ earlier ∈ ((calls i).program host).take (state.position i),
      ¬earlier.IsWrite) →
    OthersAway host calls state i

end Sharing

/-! ## The windows of a transfer -/

theorem zero_ne_engineControlWord : 0#32 ≠ engineControlWord := by
  decide

section Transfer

variable {host : Endian} {transfer : XdmaTransfer} {status : Nat → U32}

/-- The register writes of a transfer, by position. -/
theorem transferAccesses_write {position : Nat} {access : Access}
    (next : (transferAccesses host transfer status)[position]? = some access)
    (write : access.IsWrite) :
    position = 1 ∨ position = 2 ∨ position = 3 ∨ position = 4 ∨
      position = 7 := by
  match position, next with
  | 0, next | 5, next | 6, next | 8, next =>
      cases next
      exact write.elim
  | 1, _ | 2, _ | 3, _ | 4, _ | 7, _ => simp
  | n + 9, next => cases next

theorem transferAccesses_starts {position : Nat} {access : Access}
    (next : (transferAccesses host transfer status)[position]? = some access)
    (starts : access.starts) : position = 4 := by
  match position, next with
  | 4, _ => rfl
  | 0, next | 1, next | 2, next | 3, next | 5, next | 6, next | 7, next
  | 8, next =>
      cases next
      cases starts
  | n + 9, next => cases next

theorem holdsEngine_transferAccesses {position : Nat} :
    HoldsEngine (transferAccesses host transfer status) position ↔
      2 ≤ position ∧ position ≤ 7 := by
  match position with
  | 0 | 1 | 2 | 3 | 4 | 5 | 6 | 7 | 8 | n + 9 =>
      simp [HoldsEngine, transferAccesses, Access.IsWrite,
        zero_ne_engineControlWord]

/-- What the writes before `position` have put into the registers. -/
structure WrittenSoFar (host : Endian) (transfer : XdmaTransfer)
    (position : Nat) (registers : RegisterFile) : Prop where
  firstDescAdjacent : 2 ≤ position →
    registers.firstDescAdjacent = cpuToLe32 host
      (BitVec.ofInt 32 (firstExtraAdj transfer.descAdjacent))
  firstDescLo : 3 ≤ position →
    registers.firstDescLo = cpuToLe32 host (pciDmaL transfer.descBus)
  firstDescHi : 4 ≤ position →
    registers.firstDescHi = cpuToLe32 host (pciDmaH transfer.descBus)

theorem WrittenSoFar.step {position : Nat} {access : Access}
    {registers : RegisterFile}
    (next : (transferAccesses host transfer status)[position]? = some access)
    (written : 2 ≤ position →
      WrittenSoFar host transfer position registers) :
    WrittenSoFar host transfer (position + 1) (registers.apply access) := by
  match position, next with
  | 0, next =>
      cases next
      constructor <;> (intro later; omega)
  | 1, next =>
      cases next
      exact ⟨fun _ => rfl, fun later => by omega, fun later => by omega⟩
  | 2, next =>
      obtain ⟨adjacent, _, _⟩ := written (by decide)
      cases next
      exact ⟨fun _ => adjacent (by decide), fun _ => rfl,
        fun later => by omega⟩
  | 3, next =>
      obtain ⟨adjacent, lo, _⟩ := written (by decide)
      cases next
      exact ⟨fun _ => adjacent (by decide), fun _ => lo (by decide),
        fun _ => rfl⟩
  | 4, next | 5, next | 6, next | 7, next | 8, next =>
      obtain ⟨adjacent, lo, hi⟩ := written (by decide)
      cases next
      exact ⟨fun _ => adjacent (by decide), fun _ => lo (by decide),
        fun _ => hi (by decide)⟩
  | n + 9, next => cases next

end Transfer

/-! ## The calls as a protocol -/

section Protocol

variable {ι : Type} (host : Endian) {calls : ι → WriteCall}

/-- Either a call has no accesses at all, or it runs a transfer. -/
theorem program_cases (admitted : ∀ i, (calls i).Admitted) (i : ι) :
    (calls i).program host = [] ∨
      ∃ transfer, (calls i).transfer host = some transfer ∧
        (calls i).program host =
          transferAccesses host transfer (calls i).kernel.status := by
  rcases (admitted i).program_cases host with ⟨_, _, none⟩ | ⟨_, running⟩
  · exact .inl none
  · exact .inr running

/-- The windows in which calls hold the engine. -/
def engineProtocol (admitted : ∀ i, (calls i).Admitted) :
    Interleaving.Protocol ι Access RegisterFile where
  program i := (calls i).program host
  apply := RegisterFile.apply
  guarded := Access.IsWrite
  inside i := HoldsEngine ((calls i).program host)
  owns i position registers := ∀ transfer,
    (calls i).transfer host = some transfer →
      WrittenSoFar host transfer position registers
  silent := by
    intro registers access silent
    cases access with
    | read register value => rfl
    | write register value => exact absurd trivial silent
  entry := by
    intro i position outside entering
    rcases program_cases host admitted i with none | ⟨transfer, _, program⟩
    · rw [none] at entering
      simp [HoldsEngine] at entering
    · rw [program, holdsEngine_transferAccesses] at outside entering
      obtain rfl : position = 1 := by omega
      rw [program]
      exact ⟨_, rfl, trivial⟩
  covered := by
    intro i position access next write
    rcases program_cases host admitted i with none | ⟨transfer, _, program⟩
    · rw [none] at next
      cases next
    · rw [program] at next ⊢
      have writes := transferAccesses_write next write
      rw [holdsEngine_transferAccesses, holdsEngine_transferAccesses]
      omega
  stores := by
    intro i position access registers next holding owned transfer running
    rcases program_cases host admitted i with none | ⟨own, same, program⟩
    · rw [none] at next
      cases next
    · rw [same] at running
      cases running
      rw [program] at next holding owned
      rw [holdsEngine_transferAccesses] at holding owned
      exact WrittenSoFar.step next fun later =>
        owned (by omega) _ same

theorem BeginsAlone.entersAlone {state : EngineState ι} {i : ι}
    (begins : BeginsAlone host calls state i)
    (admitted : ∀ i, (calls i).Admitted) :
    (engineProtocol host admitted).EntersAlone state i := by
  intro outside entering
  change ¬HoldsEngine ((calls i).program host) (state.position i) at outside
  change HoldsEngine ((calls i).program host) (state.position i + 1)
    at entering
  rcases program_cases host admitted i with none | ⟨transfer, _, program⟩
  · rw [none] at entering
    simp [HoldsEngine] at entering
  · rw [program, holdsEngine_transferAccesses] at outside entering
    have first : state.position i = 1 := by omega
    rw [BeginsAlone, program, first] at begins
    apply begins _ rfl trivial
    intro earlier member
    cases List.mem_singleton.mp member
    exact id

theorem undisturbed_of_actsAlone {state : EngineState ι} {i : ι}
    (admitted : ∀ i, (calls i).Admitted)
    (acts : (engineProtocol host admitted).ActsAlone state i) :
    Undisturbed host calls state i := by
  intro access next write
  obtain ⟨away, owned⟩ := acts access next write
  refine ⟨away, ?_⟩
  intro starts transfer running
  rcases program_cases host admitted i with none | ⟨own, same, program⟩
  · rw [none] at next
    cases next
  · rw [program] at next
    have position := transferAccesses_starts next starts
    have holding : (engineProtocol host admitted).Inside state i := by
      change HoldsEngine ((calls i).program host) (state.position i)
      rw [program, holdsEngine_transferAccesses]
      omega
    have written := owned holding transfer running
    exact
      { firstDescLo := written.firstDescLo (by omega)
        firstDescHi := written.firstDescHi (by omega)
        firstDescAdjacent := written.firstDescAdjacent (by omega) }

theorem Undisturbed.beginsAlone {state : EngineState ι} {i : ι}
    (undisturbed : Undisturbed host calls state i) :
    BeginsAlone host calls state i :=
  fun access next write _ => (undisturbed access next write).1

end Protocol

/-- Before any call has made an access. -/
def engineIdle {ι : Type} (registers : RegisterFile) : EngineState ι :=
  { shared := registers
    position := fun _ => 0 }

/-- Calls never disturb one another exactly when each makes its first
register write while no other holds the engine. -/
theorem undisturbed_iff_beginsAlone {ι : Type} [DecidableEq ι]
    (host : Endian) {calls : ι → WriteCall}
    (admitted : ∀ i, (calls i).Admitted) (registers : RegisterFile)
    (schedule : List ι) :
    Along (engineStep host calls) (Undisturbed host calls)
        (engineIdle registers) schedule ↔
      Along (engineStep host calls) (BeginsAlone host calls)
        (engineIdle registers) schedule := by
  constructor
  · exact Along.mono fun state i undisturbed => undisturbed.beginsAlone
  · intro begins
    have nobody : ∀ i, ¬(engineProtocol host admitted).Inside
        (engineIdle registers) i := by
      rintro i ⟨⟨access, member, _⟩, _⟩
      cases member
    have separated : (engineProtocol host admitted).Separated
        (engineIdle registers) :=
      { alone := fun i inside => absurd inside (nobody i)
        owned := fun i inside => absurd inside (nobody i) }
    have acts := (Interleaving.Protocol.along_actsAlone_iff separated
      schedule).mpr (begins.mono fun state i begins =>
        begins.entersAlone host admitted)
    exact acts.mono fun state i acts =>
      undisturbed_of_actsAlone host admitted acts

/-! ## Two calls at once -/

theorem program_of_transfer (host : Endian) {call : WriteCall}
    (admitted : call.Admitted) {transfer : XdmaTransfer}
    (running : call.transfer host = some transfer) :
    call.program host =
      transferAccesses host transfer call.kernel.status := by
  rcases admitted.program_cases host with
    ⟨_, stopped, _⟩ | ⟨_, own, same, program⟩
  · rw [stopped] at running
    cases running
  · rw [same] at running
    cases running
    exact program

/-- Two calls that reach the engine disturb each other when the second makes
its first write right after that of the first. -/
theorem disturbed_of_overlap {ι : Type} [DecidableEq ι] (host : Endian)
    {calls : ι → WriteCall} (admitted : ∀ i, (calls i).Admitted)
    {i j : ι} (different : i ≠ j) {first second : XdmaTransfer}
    (firstRuns : (calls i).transfer host = some first)
    (secondRuns : (calls j).transfer host = some second)
    (registers : RegisterFile) :
    ¬Along (engineStep host calls) (Undisturbed host calls)
      (engineIdle registers) [i, i, j, j] := by
  rintro ⟨_, _, _, fourth, _⟩
  have firstProgram := program_of_transfer host (admitted i) firstRuns
  have secondProgram := program_of_transfer host (admitted j) secondRuns
  have one : (engineStep host calls (engineIdle registers) i).position i =
      1 := by
    rw [engineStep, Interleaving.step_position_self
      (by rw [firstProgram]; rfl)]
    rfl
  have two : (engineStep host calls (engineStep host calls
      (engineIdle registers) i) i).position i = 2 := by
    rw [engineStep, Interleaving.step_position_self
      (by rw [firstProgram, one]; rfl), one]
  have waiting : (engineStep host calls (engineStep host calls
      (engineIdle registers) i) i).position j = 0 := by
    rw [engineStep, Interleaving.step_position_other different.symm,
      engineStep, Interleaving.step_position_other different.symm]
    rfl
  have third : (engineStep host calls (engineStep host calls
      (engineStep host calls (engineIdle registers) i) i) j).position j =
        1 := by
    rw [engineStep, Interleaving.step_position_self
      (by rw [secondProgram, waiting]; rfl), waiting]
  have stays : (engineStep host calls (engineStep host calls
      (engineStep host calls (engineIdle registers) i) i) j).position i =
        2 := by
    rw [engineStep, Interleaving.step_position_other different, two]
  have away := (fourth (.write .firstDescAdjacent (cpuToLe32 host
    (BitVec.ofInt 32 (firstExtraAdj second.descAdjacent))))
    (by rw [secondProgram, third]; rfl) trivial).1 i different
  rw [firstProgram, stays] at away
  exact away (holdsEngine_transferAccesses.mpr (by decide))

/-- Two writers of one byte each, with descriptors at different addresses. -/
def twoWriters (second : Bool) : WriteCall :=
  { kernel :=
      { directKernel 0x1000 1 2 with
        coherent := some
          { bus := if second then 0x30000 else 0x20000
            content := fun _ =>
              { control := 0, bytes := 0, srcAddrLo := 0, srcAddrHi := 0,
                dstAddrLo := 0, dstAddrHi := 0, nextLo := 0,
                nextHi := 0 } } }
    buf := 0x1000
    count := 1
    ppos := 0 }

theorem twoWriters_admitted (second : Bool) : (twoWriters second).Admitted :=
  ⟨by cases second <;> decide, by cases second <;> decide⟩

theorem twoWriters_transfer (second : Bool) :
    ∃ transfer, (twoWriters second).transfer .little = some transfer := by
  have direct := directKernel_succeed 0x1000 2
    (show 0 < (1 : U64).toNat by decide)
  have succeed : (twoWriters second).kernel.Succeed 0x1000 1 :=
    { requested := direct.requested
      granted := direct.granted
      pinned := direct.pinned
      mapped := direct.mapped
      allocated := ⟨_, rfl⟩ }
  obtain ⟨grant, allocated⟩ := succeed.allocated
  refine ⟨preparedTransfer .little (twoWriters second).kernel grant 0x1000 1
    0, ?_⟩
  rw [WriteCall.transfer, show h2cPrepare .little (twoWriters second).kernel
    (twoWriters second).buf (twoWriters second).count
    (twoWriters second).ppos = _ from
      h2cPrepare_ok .little 0
        (show (1 : U64).toNat ≤ maxRwCount by decide) succeed allocated]
  rfl

/-- The first writer runs to its end before the second begins. -/
theorem undisturbed_iff_beginsAlone_twoWriters :
    Along (engineStep .little twoWriters) (Undisturbed .little twoWriters)
        (engineIdle idleRegisters)
        (List.replicate 9 false ++ List.replicate 9 true) ↔
      Along (engineStep .little twoWriters) (BeginsAlone .little twoWriters)
        (engineIdle idleRegisters)
        (List.replicate 9 false ++ List.replicate 9 true) :=
  undisturbed_iff_beginsAlone .little twoWriters_admitted idleRegisters _

theorem not_undisturbed_twoWriters :
    ¬∀ (ι : Type) (_ : DecidableEq ι) (host : Endian)
        (calls : ι → WriteCall) (registers : RegisterFile)
        (schedule : List ι),
      (∀ i, (calls i).Admitted) →
        Along (engineStep host calls) (Undisturbed host calls)
          (engineIdle registers) schedule := by
  intro undisturbed
  obtain ⟨first, firstRuns⟩ := twoWriters_transfer false
  obtain ⟨second, secondRuns⟩ := twoWriters_transfer true
  exact disturbed_of_overlap .little twoWriters_admitted Bool.false_ne_true
    firstRuns secondRuns idleRegisters
    (undisturbed Bool inferInstance .little twoWriters idleRegisters _
      twoWriters_admitted)

end Xpcie
