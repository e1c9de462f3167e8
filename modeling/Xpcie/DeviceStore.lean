import Mathlib.Data.List.Zip
import Xpcie.WriteCopies
import Xpcie.Library.ByteStore

/-!
# The card as a byte store

Seen from the process, a write puts the bytes of a buffer at a file position
of the card.  Below, the card performs the register accesses of a call one by
one and carries out the chain of descriptors it finds when it is set running.
Over any history of calls, some of which fail, its memory is that of a byte
store to which the calls that return have written.
-/

namespace Xpcie

open EffectLog ByteStore

/-! ## The card -/

/-- What the engine reaches over the bus. -/
structure HostMemory where
  physical : UserByte → U8
  /-- The byte of physical memory behind a bus address. -/
  translate : U64 → UserByte
  coherent : U64 → Option XdmaDesc

def HostMemory.read (memory : HostMemory) (addr : U64) : U8 :=
  memory.physical (memory.translate addr)

structure Device where
  registers : RegisterFile
  memory : U64 → U8

/-- A longer chain visits some descriptor twice and has no end. -/
def chainLimit : Nat := 2 ^ 64 / xdmaDescSize

/-- The card's part in one register access.  There is no result if the card
is set running on a chain that leads nowhere. -/
def Device.access (host : Endian) (memory : HostMemory) (device : Device)
    (access : Access) : Option Device :=
  let registers := device.registers.apply access
  if access.starts then do
    let copies ←
      followChain host memory.coherent chainLimit registers.firstDesc
    some
      { registers
        memory := overwrite device.memory <|
          copies.map fun copy => (copy.2, memory.read copy.1) }
  else some { device with registers }

def Device.run (host : Endian) (memory : HostMemory) (device : Device)
    (accesses : List Access) : Option Device :=
  accesses.foldlM (Device.access host memory) device

/-! ## Writes of a process -/

/-- A write call, and the pages behind the buffer's process. -/
structure UserWrite where
  call : WriteCall
  pageOf : Nat → Page

/-- What the buffer holds. -/
def UserWrite.bytes (write : UserWrite) (memory : HostMemory) : List U8 :=
  (List.range write.call.count.toNat).map fun k =>
    memory.physical (physicalByte write.pageOf (write.call.buf.toNat + k))

/-- The write as the store sees it. -/
def UserWrite.stored (write : UserWrite) (memory : HostMemory) :
    Write 64 U8 :=
  { base := write.call.ppos
    values := write.bytes memory }

/-- What the kernel promises of a call it lets through: the pinned pages are
those of the buffer, the mapped table leads to them, and the coherent memory
holds what the call has put there. -/
structure UserWrite.Placed (write : UserWrite) (host : Endian)
    (memory : HostMemory) : Prop where
  back : write.call.kernel.user.Back write.pageOf write.call.buf
    write.call.count
  mapping : DmaMapping memory.translate
    (userSegments write.call.kernel.user.page write.call.buf
      write.call.count)
    (write.call.kernel.mapped write.call.buf write.call.count)
  descriptors : ∀ transfer, write.call.transfer host = some transfer →
    ∀ i < transfer.descVirt.length,
      memory.coherent (descAddr transfer.descBus i) = transfer.descVirt[i]?

/-- A call the VFS admits; any kernel call may fail. -/
structure UserWrite.Served (write : UserWrite) (host : Endian)
    (memory : HostMemory) : Prop where
  admitted : write.call.Admitted
  placed : write.call.kernel.Succeed write.call.buf write.call.count →
    write.Placed host memory

/-- The write of a call that returns. -/
def UserWrite.accepted (host : Endian) (memory : HostMemory)
    (write : UserWrite) : Option (Write 64 U8) :=
  match (write.call.run host).result with
  | .ok _ => some (write.stored memory)
  | .error _ => none

/-- A history of calls, each with the memory it finds. -/
abbrev WriteHistory := List (HostMemory × UserWrite)

/-- Each call runs to its end before the next one begins. -/
def runWrites (host : Endian) (device : Device) (history : WriteHistory) :
    Option Device :=
  history.foldlM
    (fun device moment =>
      device.run host moment.1 (moment.2.call.program host)) device

def acceptedWrites (host : Endian) (history : WriteHistory) :
    List (Write 64 U8) :=
  history.filterMap fun moment => moment.2.accepted host moment.1

/-! ## One launch -/

/-- A chain that was followed in one memory is followed in every memory that
holds the same descriptors. -/
theorem followChain_agree {host : Endian} {first other : U64 → Option XdmaDesc}
    (agree : ∀ addr desc, first addr = some desc → other addr = some desc)
    {fuel : Nat} {addr : U64} {copies : List (U64 × U64)}
    (followed : followChain host first fuel addr = some copies) :
    followChain host other fuel addr = some copies := by
  induction fuel generalizing addr copies with
  | zero => cases followed
  | succ fuel induction =>
      rw [followChain] at followed ⊢
      obtain ⟨desc, here, rest⟩ := Option.bind_eq_some_iff.mp followed
      rw [agree addr desc here, Option.bind_eq_bind, Option.bind_some]
      by_cases stopped : desc.isStopped host
      · rwa [if_pos stopped] at rest ⊢
      · rw [if_neg stopped] at rest ⊢
        obtain ⟨later, following, result⟩ := Option.bind_eq_some_iff.mp rest
        rw [induction following]
        exact result

/-- A descriptor read from an array is one of its entries. -/
theorem coherentRead_eq_some {descBus addr : U64} {descVirt : List XdmaDesc}
    {desc : XdmaDesc} (found : coherentRead descBus descVirt addr = some desc) :
    ∃ i < descVirt.length, addr = descAddr descBus i ∧
      descVirt[i]? = some desc := by
  rw [coherentRead] at found
  by_cases aligned : (addr - descBus).toNat % xdmaDescSize = 0
  · rw [if_pos aligned] at found
    have inside := (List.getElem?_eq_some_iff.mp found).1
    refine ⟨_, inside, ?_, found⟩
    have offset : BitVec.ofNat 64 (xdmaDescSize *
        ((addr - descBus).toNat / xdmaDescSize)) = addr - descBus := by
      rw [Nat.mul_div_cancel' (Nat.dvd_of_mod_eq_zero aligned),
        BitVec.ofNat_toNat, BitVec.setWidth_eq]
    rw [descAddr, offset, BitVec.add_comm, BitVec.sub_add_cancel]
  · rw [if_neg aligned] at found
    cases found

section Launch

variable {write : UserWrite} {memory : HostMemory}

theorem WriteCall.Admitted.transfer_eq {call : WriteCall}
    (admitted : call.Admitted) (host : Endian) {grant : Coherent}
    (succeed : call.kernel.Succeed call.buf call.count)
    (allocated : call.kernel.coherent = some grant) :
    call.transfer host = some (preparedTransfer host call.kernel grant
      call.buf call.count call.ppos) := by
  rw [WriteCall.transfer,
    h2cPrepare_ok host call.ppos admitted.count succeed allocated]

/-- The bytes behind the mapped table are those of the buffer. -/
theorem UserWrite.Placed.read_mapped {host : Endian}
    (placed : write.Placed host memory) :
    ((write.call.kernel.mapped write.call.buf write.call.count).flatMap
        DmaSegment.span).map memory.read = write.bytes memory := by
  have covers := congrArg (List.map memory.physical) placed.mapping.covers
  rw [List.map_map] at covers
  rw [show memory.read = memory.physical ∘ memory.translate from rfl, covers,
    userSegments_bytes, List.map_map, UserWrite.bytes]
  apply List.map_congr_left
  intro k member
  exact congrArg memory.physical
    (userByte_eq placed.back (List.mem_range.mp member))

/-- The chain of a call leads to an end, and its moves are the stores of the
write. -/
theorem UserWrite.Served.chain (served : write.Served .little memory)
    (succeed : write.call.kernel.Succeed write.call.buf write.call.count)
    {transfer : XdmaTransfer}
    (running : write.call.transfer .little = some transfer) :
    ∃ copies, followChain .little memory.coherent chainLimit
        transfer.descBus = some copies ∧
      copies.map (fun copy => (copy.2, memory.read copy.1)) =
        (write.stored memory).stores := by
  obtain ⟨grant, allocated⟩ := succeed.allocated
  have placed := served.placed succeed
  have holds := placed.descriptors transfer running
  rw [served.admitted.transfer_eq .little succeed allocated] at running
  cases running
  have admitted := served.admitted.count
  have total := groupBytes_mapped placed.mapping
  have entries := length_le_groupBytes placed.mapping.positive
  unfold maxRwCount at admitted
  have fits : xdmaDescSize *
      (write.call.kernel.mapped write.call.buf write.call.count).length ≤
        2 ^ 64 := by
    unfold xdmaDescSize
    omega
  have blocks := transferBlocks_length_le h2cFlags write.call.ppos
    (write.call.kernel.mapped write.call.buf write.call.count)
  have enough : (transferBlocks h2cFlags write.call.ppos
      (write.call.kernel.mapped write.call.buf write.call.count)).length ≤
        chainLimit := by
    unfold chainLimit xdmaDescSize
    omega
  have followed := followChain_mono
    (setUpList_followed .little grant
      (write.call.kernel.mapped write.call.buf write.call.count)
      write.call.ppos h2cFlags succeed.mapped
      (show h2cFlags.dirToDev ≠ 0 by decide) (.inr rfl) (by omega) fits)
    enough
  refine ⟨_, followChain_agree ?_ followed, ?_⟩
  · intro addr desc found
    obtain ⟨i, inside, rfl, entry⟩ := coherentRead_eq_some found
    exact (holds i inside).trans entry
  · have size : (write.bytes memory).length = write.call.count.toNat := by
      simp [UserWrite.bytes]
    rw [total, Write.stores, UserWrite.stored, size, ← placed.read_mapped,
      ← List.zip_swap, List.map_map, List.zip_map_right]
    rfl

/-- A call that sets the engine running on its own descriptors stores its
buffer. -/
theorem UserWrite.Served.access_starts (served : write.Served .little memory)
    (succeed : write.call.kernel.Succeed write.call.buf write.call.count)
    {transfer : XdmaTransfer}
    (running : write.call.transfer .little = some transfer)
    (device : Device) {access : Access} (starts : access.starts)
    (names : (device.registers.apply access).firstDesc = transfer.descBus) :
    device.access .little memory access =
      some
        { registers := device.registers.apply access
          memory := (write.stored memory).apply device.memory } := by
  obtain ⟨copies, followed, stores⟩ := served.chain succeed running
  simp only [Device.access, if_pos starts, names, followed, stores,
    Option.bind_eq_bind, Option.bind_some]
  rfl

end Launch

/-! ## Runs -/

section Run

variable (host : Endian) (memory : HostMemory) (device : Device)

theorem Device.access_silent {access : Access} (silent : ¬access.starts) :
    device.access host memory access =
      some { device with registers := device.registers.apply access } :=
  if_neg silent

theorem Device.run_silent {accesses : List Access}
    (silent : ∀ access ∈ accesses, ¬access.starts) :
    device.run host memory accesses =
      some { device with
        registers := accesses.foldl RegisterFile.apply device.registers } := by
  induction accesses generalizing device with
  | nil => rfl
  | cons access later induction =>
      have first := Device.access_silent host memory device
        (silent access List.mem_cons_self)
      rw [Device.run, List.foldlM_cons, first, Option.bind_eq_bind,
        Option.bind_some]
      exact induction _ fun other member =>
        silent other (List.mem_cons_of_mem access member)

/-- Accesses that set the engine running once carry out one chain. -/
theorem Device.run_once {early late : List Access} {start : Access}
    (before : ∀ access ∈ early, ¬access.starts) (starts : start.starts)
    (after : ∀ access ∈ late, ¬access.starts) {copies : List (U64 × U64)}
    (followed : followChain host memory.coherent chainLimit
      ((early.foldl RegisterFile.apply device.registers).apply
        start).firstDesc = some copies) :
    device.run host memory (early ++ start :: late) =
      some
        { registers := (early ++ start :: late).foldl RegisterFile.apply
            device.registers
          memory := overwrite device.memory <|
            copies.map fun copy => (copy.2, memory.read copy.1) } := by
  have first := Device.run_silent host memory device before
  have launched : Device.access host memory
      { device with
        registers := early.foldl RegisterFile.apply device.registers } start =
      some
        { registers := (early.foldl RegisterFile.apply
            device.registers).apply start
          memory := overwrite device.memory <|
            copies.map fun copy => (copy.2, memory.read copy.1) } := by
    simp only [Device.access, if_pos starts, followed, Option.bind_eq_bind,
      Option.bind_some]
  have stopped := Device.run_silent host memory
    { registers := (early.foldl RegisterFile.apply
        device.registers).apply start
      memory := overwrite device.memory <|
        copies.map fun copy => (copy.2, memory.read copy.1) } after
  rw [Device.run] at first stopped ⊢
  rw [List.foldlM_append, first, Option.bind_eq_bind, Option.bind_some,
    List.foldlM_cons, launched, Option.bind_eq_bind, Option.bind_some, stopped,
    List.foldl_append, List.foldl_cons]

/-- The accesses of one transfer store the buffer once. -/
theorem UserWrite.Served.run_transfer {write : UserWrite}
    (served : write.Served .little memory)
    (succeed : write.call.kernel.Succeed write.call.buf write.call.count)
    {transfer : XdmaTransfer}
    (running : write.call.transfer .little = some transfer)
    (status : Nat → U32) :
    device.run .little memory (transferAccesses .little transfer status) =
      some
        { registers := (transferAccesses .little transfer status).foldl
            RegisterFile.apply device.registers
          memory := (write.stored memory).apply device.memory } := by
  have before : ∀ access ∈ (transferAccesses .little transfer status).take 4,
      ¬access.starts := by
    intro access member
    simp only [transferAccesses, List.take_succ_cons, List.take_zero,
      List.mem_cons, List.not_mem_nil, or_false] at member
    rcases member with rfl | rfl | rfl | rfl <;> exact Bool.false_ne_true
  have after : ∀ access ∈ (transferAccesses .little transfer status).drop 5,
      ¬access.starts := by
    intro access member
    simp only [transferAccesses, List.drop_succ_cons, List.drop_zero,
      List.mem_cons, List.not_mem_nil, or_false] at member
    rcases member with rfl | rfl | rfl | rfl <;> exact Bool.false_ne_true
  have starts : (Access.write .control engineControlWord).starts := by decide
  obtain ⟨copies, followed, stores⟩ := served.chain succeed running
  have names : ((((transferAccesses .little transfer status).take 4).foldl
      RegisterFile.apply device.registers).apply
        (.write .control engineControlWord)).firstDesc = transfer.descBus :=
    joinAddr_pciDma transfer.descBus
  have ran := Device.run_once .little memory device before starts after
    (names ▸ followed)
  rw [stores] at ran
  exact ran

end Run

/-! ## A machine without an IOMMU -/

/-- The memory a call finds that is alone on the machine. -/
def directMemory (physical : UserByte → U8) (call : WriteCall) : HostMemory :=
  { physical
    translate := directByte
    coherent := fun addr => do
      let transfer ← call.transfer .little
      coherentRead transfer.descBus transfer.descVirt addr }

def directUserWrite (buf count ppos : U64) : UserWrite :=
  { call :=
      { kernel := directKernel buf count 2
        buf
        count
        ppos }
    pageOf := id }

theorem directUserWrite_admitted {buf count ppos : U64}
    (admitted : count.toNat ≤ maxRwCount) :
    (directUserWrite buf count ppos).call.Admitted :=
  ⟨admitted, Int.le_refl _⟩

theorem directUserWrite_served {buf count ppos : U64}
    (physical : UserByte → U8) (requested : 0 < count.toNat)
    (admitted : count.toNat ≤ maxRwCount)
    (mapping : DmaMapping directByte
      (userSegments (directKernel buf count 2).user.page buf count)
      ((directKernel buf count 2).mapped buf count)) :
    (directUserWrite buf count ppos).Served .little
      (directMemory physical (directUserWrite buf count ppos).call) where
  admitted := directUserWrite_admitted admitted
  placed succeed :=
    { back := fun _ _ => rfl
      mapping
      descriptors := by
        obtain ⟨grant, allocated⟩ := succeed.allocated
        intro transfer running i inside
        have found : (directMemory physical
            (directUserWrite buf count ppos).call).coherent
              (descAddr transfer.descBus i) =
            coherentRead transfer.descBus transfer.descVirt
              (descAddr transfer.descBus i) := by
          simp only [directMemory, running, Option.bind_eq_bind,
            Option.bind_some]
        rw [found]
        apply coherentRead_descAddr _ _ inside
        rw [(directUserWrite_admitted admitted).transfer_eq .little succeed
          allocated] at running
        cases running
        have total := groupBytes_mapped mapping
        have entries := length_le_groupBytes mapping.positive
        have size : (preparedTransfer .little (directKernel buf count 2) grant
            buf count ppos).descVirt.length =
              ((directKernel buf count 2).mapped buf count).length :=
          setUpList_length ..
        change xdmaDescSize * (preparedTransfer .little
          (directKernel buf count 2) grant buf count ppos).descVirt.length ≤ _
        rw [size]
        unfold xdmaDescSize
        unfold maxRwCount at admitted
        omega }

/-- Memory in which each byte is the low byte of its address. -/
def countingMemory (byte : UserByte) : U8 :=
  BitVec.ofNat 8 byte.2

def blankDevice : Device :=
  { registers := idleRegisters
    memory := fun _ => 0 }

/-- A call alone on the machine, with the memory it finds. -/
def directMoment (buf count ppos : U64) : HostMemory × UserWrite :=
  (directMemory countingMemory (directUserWrite buf count ppos).call,
    directUserWrite buf count ppos)

theorem directMoment_firstByte (ppos : U64) :
    (directMoment 0x1000 1 ppos).2.Served .little
      (directMoment 0x1000 1 ppos).1 :=
  directUserWrite_served countingMemory (by decide) (by decide)
    { positive := by decide
      covers := by decide }

theorem directMoment_secondByte (ppos : U64) :
    (directMoment (0x1000 + 1) 1 ppos).2.Served .little
      (directMoment (0x1000 + 1) 1 ppos).1 :=
  directUserWrite_served countingMemory (by decide) (by decide)
    { positive := by decide
      covers := by decide }

theorem directMoment_bothBytes (ppos : U64) :
    (directMoment 0x1000 2 ppos).2.Served .little
      (directMoment 0x1000 2 ppos).1 :=
  directUserWrite_served countingMemory (by decide) (by decide)
    { positive := by decide
      covers := by decide }

/-- Two bytes, one call each. -/
def twoBytes : WriteHistory :=
  [directMoment 0x1000 1 0, directMoment (0x1000 + 1) 1 1]

theorem twoBytes_served :
    ∀ moment ∈ twoBytes, moment.2.Served .little moment.1 := by
  intro moment member
  rcases List.mem_cons.mp member with first | later
  · rw [first]
    exact directMoment_firstByte 0
  · rw [List.mem_singleton.mp later]
    exact directMoment_secondByte 1

/-! ## Histories -/

section History

variable {host : Endian} {memory : HostMemory} {write : UserWrite}

theorem UserWrite.accepted_of_succeed (admitted : write.call.Admitted)
    (succeed : write.call.kernel.Succeed write.call.buf write.call.count) :
    write.accepted host memory = some (write.stored memory) := by
  obtain ⟨grant, allocated⟩ := succeed.allocated
  rw [UserWrite.accepted, WriteCall.run,
    xpcieH2cWrite_ok host write.call.ppos admitted.count succeed allocated]

theorem UserWrite.accepted_of_not_succeed (admitted : write.call.Admitted)
    (failed : ¬write.call.kernel.Succeed write.call.buf write.call.count) :
    write.accepted host memory = none := by
  obtain ⟨fault, log, stopped, _⟩ := xpcieH2cWrite_stops host
    write.call.ppos admitted.count admitted.rc failed
  rw [UserWrite.accepted, WriteCall.run, stopped]

theorem UserWrite.accepted_eq_some {accepted : Write 64 U8}
    (found : write.accepted host memory = some accepted) :
    accepted = write.stored memory := by
  unfold UserWrite.accepted at found
  split at found
  · exact (Option.some.inj found).symm
  · cases found

theorem UserWrite.stored_fits (write : UserWrite) (memory : HostMemory) :
    (write.stored memory).Fits := by
  have bound := write.call.count.isLt
  simp only [Write.Fits, UserWrite.stored, UserWrite.bytes, List.length_map,
    List.length_range]
  exact Nat.le_of_lt bound

theorem acceptedWrites_fit (history : WriteHistory) :
    ∀ accepted ∈ acceptedWrites host history, accepted.Fits := by
  intro accepted member
  obtain ⟨⟨memory, write⟩, _, found⟩ := List.mem_filterMap.mp member
  rw [UserWrite.accepted_eq_some found]
  exact write.stored_fits memory

/-- A call that returns has stored its buffer, and one that does not return
has stored nothing. -/
theorem UserWrite.Served.run_call (served : write.Served .little memory)
    (device : Device) :
    ∃ registers, device.run .little memory (write.call.program .little) =
      some
        { registers
          memory := replay device.memory
            (write.accepted .little memory).toList } := by
  rcases served.admitted.program_cases .little with
    ⟨failed, _, none⟩ | ⟨succeed, transfer, running, program⟩
  · rw [none, UserWrite.accepted_of_not_succeed served.admitted failed]
    exact ⟨device.registers, rfl⟩
  · rw [program, UserWrite.accepted_of_succeed served.admitted succeed]
    exact ⟨_, served.run_transfer memory device succeed running _⟩

theorem runWrites_eq {history : WriteHistory}
    (served : ∀ moment ∈ history, moment.2.Served .little moment.1)
    (device : Device) :
    ∃ registers, runWrites .little device history =
      some
        { registers
          memory := replay device.memory (acceptedWrites .little history) } := by
  induction history generalizing device with
  | nil => exact ⟨device.registers, rfl⟩
  | cons moment later induction =>
      obtain ⟨between, first⟩ :=
        (served moment List.mem_cons_self).run_call device
      obtain ⟨registers, rest⟩ := induction
        (fun other member => served other (List.mem_cons_of_mem moment member))
        { registers := between
          memory := replay device.memory
            (moment.2.accepted .little moment.1).toList }
      refine ⟨registers, ?_⟩
      rw [runWrites, List.foldlM_cons, first, Option.bind_eq_bind,
        Option.bind_some, ← runWrites, rest, ← replay_append, acceptedWrites,
        acceptedWrites, List.filterMap_cons]
      cases moment.2.accepted .little moment.1 <;> rfl

/-- After any history of calls, some of which may die in a failed kernel
call, each byte of the card is the one of the last call that returned and
covers its address. -/
theorem writes_refine_store {history : WriteHistory}
    (served : ∀ moment ∈ history, moment.2.Served .little moment.1)
    (device : Device) :
    ∃ final, runWrites .little device history = some final ∧
      final.memory = replay device.memory (acceptedWrites .little history) ∧
      ∀ address, final.memory address =
        (newest (acceptedWrites .little history) address).getD
          (device.memory address) := by
  obtain ⟨registers, run⟩ := runWrites_eq served device
  refine ⟨_, run, rfl, ?_⟩
  exact replay_eq device.memory (acceptedWrites_fit history)

theorem writes_refine_store_twoBytes :
    ∃ final, runWrites .little blankDevice twoBytes = some final ∧
      final.memory = replay blankDevice.memory
        (acceptedWrites .little twoBytes) ∧
      ∀ address, final.memory address =
        (newest (acceptedWrites .little twoBytes) address).getD
          (blankDevice.memory address) :=
  writes_refine_store twoBytes_served blankDevice

/-- Histories that differ in the order of their calls leave the same bytes,
if no two of the calls that return share an address. -/
theorem apartWrites_commute {history shuffled : WriteHistory}
    (permutation : history.Perm shuffled)
    (served : ∀ moment ∈ history, moment.2.Served .little moment.1)
    (apart : (acceptedWrites .little history).Pairwise Write.Apart)
    (device : Device) :
    ∃ final other, runWrites .little device history = some final ∧
      runWrites .little device shuffled = some other ∧
      final.memory = other.memory := by
  obtain ⟨_, run⟩ := runWrites_eq served device
  have otherServed : ∀ moment ∈ shuffled,
      moment.2.Served .little moment.1 :=
    fun moment member => served moment (permutation.mem_iff.mpr member)
  obtain ⟨_, otherRun⟩ := runWrites_eq otherServed device
  exact ⟨_, _, run, otherRun, replay_perm device.memory
    (permutation.filterMap _) (acceptedWrites_fit history) apart⟩

theorem directMoment_succeed (buf : U64) {count : U64} (ppos : U64)
    (requested : 0 < count.toNat) :
    (directMoment buf count ppos).2.call.kernel.Succeed
      (directMoment buf count ppos).2.call.buf
      (directMoment buf count ppos).2.call.count :=
  directKernel_succeed buf 2 requested

theorem twoBytes_accepted :
    acceptedWrites .little twoBytes =
      [(directMoment 0x1000 1 0).2.stored (directMoment 0x1000 1 0).1,
        (directMoment (0x1000 + 1) 1 1).2.stored
          (directMoment (0x1000 + 1) 1 1).1] := by
  rw [acceptedWrites, twoBytes, List.filterMap_cons,
    UserWrite.accepted_of_succeed (directMoment_firstByte 0).admitted
      (directMoment_succeed 0x1000 0 (by decide)), List.filterMap_cons,
    UserWrite.accepted_of_succeed (directMoment_secondByte 1).admitted
      (directMoment_succeed (0x1000 + 1) 1 (by decide))]
  rfl

theorem apartWrites_commute_twoBytes :
    ∃ final other, runWrites .little blankDevice twoBytes = some final ∧
      runWrites .little blankDevice twoBytes.reverse = some other ∧
      final.memory = other.memory := by
  apply apartWrites_commute twoBytes.reverse_perm.symm twoBytes_served
  rw [twoBytes_accepted]
  refine List.pairwise_pair.mpr ?_
  intro address first second
  change (address - 0).toNat < 1 at first
  change (address - 1).toNat < 1 at second
  have zero : address = 0 := by bv_omega
  subst zero
  exact absurd second (by decide)

end History

/-! ## A buffer in pieces -/

/-- A call that returns, for the piece of a buffer at `buf`. -/
structure IsPiece (pageOf : Nat → Page) (physical : UserByte → U8)
    (buf ppos : U64) (moment : HostMemory × UserWrite) : Prop where
  pageOf : moment.2.pageOf = pageOf
  physical : moment.1.physical = physical
  buf : moment.2.call.buf = buf
  ppos : moment.2.call.ppos = ppos
  served : moment.2.Served .little moment.1
  succeed : moment.2.call.kernel.Succeed moment.2.call.buf
    moment.2.call.count

/-- Each call writes the piece behind that of the call before, to the
position behind it. -/
def InPieces (pageOf : Nat → Page) (physical : UserByte → U8) :
    U64 → U64 → WriteHistory → Prop
  | _, _, [] => True
  | buf, ppos, moment :: later =>
      IsPiece pageOf physical buf ppos moment ∧
        InPieces pageOf physical (buf + moment.2.call.count)
          (ppos + moment.2.call.count) later

def totalCount (history : WriteHistory) : Nat :=
  (history.map fun moment => moment.2.call.count.toNat).sum

section Pieces

variable {pageOf : Nat → Page} {physical : UserByte → U8} {buf ppos : U64}
  {history : WriteHistory}

theorem InPieces.served (inPieces : InPieces pageOf physical buf ppos history) :
    ∀ moment ∈ history, moment.2.Served .little moment.1 := by
  induction history generalizing buf ppos with
  | nil =>
      intro moment member
      cases member
  | cons first later induction =>
      intro moment member
      rcases List.mem_cons.mp member with here | behind
      · rw [here]
        exact inPieces.1.served
      · exact induction inPieces.2 moment behind

theorem InPieces.accepted (inPieces : InPieces pageOf physical buf ppos history) :
    acceptedWrites .little history =
      pieces ppos (history.map fun moment => moment.2.bytes moment.1) := by
  induction history generalizing buf ppos with
  | nil => rfl
  | cons moment later induction =>
      obtain ⟨piece, behind⟩ := inPieces
      have size : BitVec.ofNat 64 (moment.2.bytes moment.1).length =
          moment.2.call.count := by
        simp [UserWrite.bytes]
      rw [acceptedWrites, List.filterMap_cons,
        UserWrite.accepted_of_succeed piece.served.admitted piece.succeed,
        ← acceptedWrites, induction behind, List.map_cons, pieces, size,
        UserWrite.stored, piece.ppos]

/-- The pieces make up the buffer. -/
theorem InPieces.flatten (inPieces : InPieces pageOf physical buf ppos history)
    (inSpace : buf.toNat + totalCount history ≤ 2 ^ 64) :
    (history.map fun moment => moment.2.bytes moment.1).flatten =
      (List.range (totalCount history)).map fun k =>
        physical (physicalByte pageOf (buf.toNat + k)) := by
  induction history generalizing buf ppos with
  | nil => rfl
  | cons moment later induction =>
      obtain ⟨piece, behind⟩ := inPieces
      have total : totalCount (moment :: later) =
          moment.2.call.count.toNat + totalCount later := by
        simp [totalCount]
      have next := BitVec.toNat_add buf moment.2.call.count
      have bound := buf.isLt
      have requested := piece.succeed.requested
      rw [List.map_cons, List.flatten_cons,
        induction behind (by
          have small := (buf + moment.2.call.count).isLt
          omega),
        total, List.range_add, List.map_append, List.map_map,
        UserWrite.bytes, piece.pageOf, piece.physical, piece.buf]
      congr 1
      apply List.map_congr_left
      intro k member
      have inside := List.mem_range.mp member
      have address : (buf + moment.2.call.count).toNat + k =
          buf.toNat + (moment.2.call.count.toNat + k) := by omega
      rw [Function.comp_apply, address]

/-- A buffer written in pieces, each to the position behind the piece before,
is stored as one write of the whole stores it. -/
theorem pieces_store_whole {whole : HostMemory × UserWrite}
    (served : whole.2.Served .little whole.1)
    (succeed : whole.2.call.kernel.Succeed whole.2.call.buf
      whole.2.call.count)
    (inPieces : InPieces whole.2.pageOf whole.1.physical whole.2.call.buf
      whole.2.call.ppos history)
    (complete : totalCount history = whole.2.call.count.toNat)
    (inSpace : whole.2.call.buf.toNat + whole.2.call.count.toNat ≤ 2 ^ 64)
    (device : Device) :
    ∃ final other, runWrites .little device history = some final ∧
      runWrites .little device [whole] = some other ∧
      final.memory = other.memory := by
  obtain ⟨_, run⟩ := runWrites_eq inPieces.served device
  have alone : ∀ moment ∈ [whole], moment.2.Served .little moment.1 := by
    intro moment member
    rw [List.mem_singleton.mp member]
    exact served
  obtain ⟨_, otherRun⟩ := runWrites_eq alone device
  refine ⟨_, _, run, otherRun, ?_⟩
  have parts := inPieces.flatten (by rw [complete]; exact inSpace)
  rw [complete] at parts
  rw [inPieces.accepted, replay_pieces, parts, acceptedWrites,
    List.filterMap_cons, UserWrite.accepted_of_succeed served.admitted succeed]
  rfl

theorem twoBytes_inPieces :
    InPieces id countingMemory 0x1000 0 twoBytes :=
  ⟨⟨rfl, rfl, rfl, rfl, directMoment_firstByte 0,
      directMoment_succeed 0x1000 0 (by decide)⟩,
    ⟨rfl, rfl, rfl, rfl, directMoment_secondByte 1,
      directMoment_succeed (0x1000 + 1) 1 (by decide)⟩, trivial⟩

theorem pieces_store_whole_twoBytes :
    ∃ final other, runWrites .little blankDevice twoBytes = some final ∧
      runWrites .little blankDevice [directMoment 0x1000 2 0] = some other ∧
      final.memory = other.memory :=
  pieces_store_whole (directMoment_bothBytes 0)
    (directMoment_succeed 0x1000 0 (by decide))
    twoBytes_inPieces rfl (by decide) blankDevice

end Pieces

/-! ## One open file -/

def UserWrite.atPosition (write : UserWrite) (position : U64) : UserWrite :=
  { write with call := { write.call with ppos := position } }

/-- What a call leaves in `*ppos`; one that dies leaves it alone. -/
def UserWrite.positionLeft (host : Endian) (write : UserWrite) : U64 :=
  match (write.call.run host).result with
  | .ok (_, position) => position
  | .error _ => write.call.ppos

/-- Calls through one open file, each at the position left by the one
before. -/
def throughFile (host : Endian) : U64 → WriteHistory → WriteHistory
  | _, [] => []
  | position, (memory, write) :: later =>
      (memory, write.atPosition position) ::
        throughFile host ((write.atPosition position).positionLeft host) later

theorem UserWrite.positionLeft_eq {write : UserWrite}
    (admitted : write.call.Admitted) (host : Endian) :
    write.positionLeft host = write.call.ppos := by
  by_cases succeed : write.call.kernel.Succeed write.call.buf write.call.count
  · obtain ⟨grant, allocated⟩ := succeed.allocated
    rw [UserWrite.positionLeft, WriteCall.run,
      xpcieH2cWrite_ok host write.call.ppos admitted.count succeed allocated]
  · obtain ⟨fault, log, stopped, _⟩ := xpcieH2cWrite_stops host
      write.call.ppos admitted.count admitted.rc succeed
    rw [UserWrite.positionLeft, WriteCall.run, stopped]

/-- No call moves the position. -/
theorem throughFile_eq {host : Endian} {history : WriteHistory}
    (admitted : ∀ moment ∈ history, moment.2.call.Admitted) (position : U64) :
    throughFile host position history =
      history.map fun moment => (moment.1, moment.2.atPosition position) := by
  induction history with
  | nil => rfl
  | cons moment later induction =>
      obtain ⟨memory, write⟩ := moment
      have first : (write.atPosition position).call.Admitted :=
        ⟨(admitted _ List.mem_cons_self).count,
          (admitted _ List.mem_cons_self).rc⟩
      rw [throughFile, UserWrite.positionLeft_eq first]
      change _ :: throughFile host position later = _
      rw [induction fun other member =>
        admitted other (List.mem_cons_of_mem _ member)]
      rfl

theorem runWrites_throughFile {history : WriteHistory} {position : U64}
    (served : ∀ moment ∈ history,
      (moment.2.atPosition position).Served .little moment.1)
    (device : Device) :
    ∃ registers, runWrites .little device
        (throughFile .little position history) =
      some
        { registers
          memory := replay device.memory (acceptedWrites .little
            (history.map fun moment =>
              (moment.1, moment.2.atPosition position))) } := by
  have admitted : ∀ moment ∈ history, moment.2.call.Admitted :=
    fun moment member => ⟨(served moment member).admitted.count,
      (served moment member).admitted.rc⟩
  rw [throughFile_eq admitted]
  apply runWrites_eq
  intro moment member
  obtain ⟨original, place, rfl⟩ := List.mem_map.mp member
  exact served original place

/-- Of all that was written through a file before, a call that returns and is
as long as any of them leaves nothing. -/
theorem throughFile_forgets {history : WriteHistory}
    {last : HostMemory × UserWrite} {position : U64}
    (served : ∀ moment ∈ history ++ [last],
      (moment.2.atPosition position).Served .little moment.1)
    (succeed : last.2.call.kernel.Succeed last.2.call.buf last.2.call.count)
    (longest : ∀ moment ∈ history,
      moment.2.call.count.toNat ≤ last.2.call.count.toNat)
    (device : Device) :
    ∃ final other,
      runWrites .little device (throughFile .little position
        (history ++ [last])) = some final ∧
      runWrites .little device (throughFile .little position [last]) =
        some other ∧
      final.memory = other.memory := by
  have lastServed : ∀ moment ∈ [last],
      (moment.2.atPosition position).Served .little moment.1 :=
    fun moment member => served moment (List.mem_append_right history member)
  obtain ⟨_, run⟩ := runWrites_throughFile served device
  obtain ⟨_, lastRun⟩ := runWrites_throughFile lastServed device
  refine ⟨_, _, run, lastRun, ?_⟩
  have stored : acceptedWrites .little
      ([last].map fun moment => (moment.1, moment.2.atPosition position)) =
        [(last.2.atPosition position).stored last.1] := by
    rw [List.map_singleton, acceptedWrites, List.filterMap_cons,
      UserWrite.accepted_of_succeed
        (lastServed last (List.mem_singleton_self last)).admitted succeed]
    rfl
  rw [List.map_append, acceptedWrites, List.filterMap_append,
    ← acceptedWrites, ← acceptedWrites, replay_append, stored]
  apply apply_replay _ (acceptedWrites_fit _)
    ((last.2.atPosition position).stored_fits last.1)
  intro accepted member address covered
  obtain ⟨_, place, found⟩ := List.mem_filterMap.mp member
  obtain ⟨original, earlier, rfl⟩ := List.mem_map.mp place
  rw [UserWrite.accepted_eq_some found] at covered
  have shorter := longest original earlier
  simp only [Write.Covers, UserWrite.stored, UserWrite.bytes,
    List.length_map, List.length_range, UserWrite.atPosition] at covered ⊢
  exact Nat.lt_of_lt_of_le covered shorter

/-- A byte and then two bytes through one file at position 5. -/
theorem throughFile_forgets_twoBytes :
    ∃ final other,
      runWrites .little blankDevice (throughFile .little 5
        ([directMoment (0x1000 + 1) 1 5] ++ [directMoment 0x1000 2 5])) =
          some final ∧
      runWrites .little blankDevice (throughFile .little 5
        [directMoment 0x1000 2 5]) = some other ∧
      final.memory = other.memory := by
  apply throughFile_forgets
  · intro moment member
    rcases List.mem_cons.mp member with first | last
    · rw [first]
      exact directMoment_secondByte 5
    · rw [List.mem_singleton.mp last]
      exact directMoment_bothBytes 5
  · exact directMoment_succeed 0x1000 5 (by decide)
  · intro moment member
    rw [List.mem_singleton.mp member]
    decide

end Xpcie
