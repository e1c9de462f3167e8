import Xpcie.Engine
import Xpcie.DescriptorSetup

/-!
# The write system call

`xpcie_h2c_write` pins the user buffer, describes it to the device, runs the
engine and gives the buffer back.  What the kernel and the device answer on
the way is a parameter of the run.
-/

namespace Xpcie

open EffectLog

/-- The answers of the kernel and of the device during one write. -/
structure KernelCalls where
  allocs : MapperAllocs
  user : UserPages
  /-- The table `pci_map_sg` makes of a scatterlist; empty when it fails. -/
  mapSg : List Scatterlist → List DmaSegment
  coherent : Option Coherent
  status : Nat → U32

/-- `userspace`, `force_new_desc`, `non_incr_addr` and `dir_to_dev`. -/
def h2cFlags : BuildFlags :=
  { dirToDev := 1
    nonIncrAddr := 0
    forceNewDesc := 0
    userspace := 1 }

/-- The kernel's `pci_map_sg` on the entries that describe pinned pages. -/
def pciMapSg (kernel : KernelCalls) (sgm : SgMapping) :
    Exec (List DmaSegment) := do
  useDevice
  match kernel.mapSg (sgm.sgl.take sgm.mappedPages.toNat) with
  | [] => pure []
  | entry :: entries => do
      acquire (.sgMapping sgm.mappedPages true)
      pure (entry :: entries)

/-- The kernel's `pci_unmap_sg`. -/
def pciUnmapSg (sgm : SgMapping) : Exec Unit := do
  useDevice
  release (.sgMapping sgm.mappedPages true)

/-- `xpcie_h2c_write` up to `transfer_start`. -/
def h2cPrepare (host : Endian) (kernel : KernelCalls)
    (buf count ppos : U64) : Exec XdmaTransfer := do
  let created ← sgCreateMapper kernel.allocs count
  let sgm ← Run.demand created .nullDereference
  let (_rc, sgm) ← sgmGetUserPages kernel.user sgm buf count
  bugOn (sgm.mappedPages = 0)
  -- map sgl
  let sgl ← pciMapSg kernel sgm
  let (descVirt, descBus, descNum) ←
    h2cDescriptors host kernel.coherent sgl ppos h2cFlags
  pure
    { descVirt
      descBus
      descAdjacent := descNum
      descNum
      sglNents := sgl.length
      sgm }

/-- `xpcie_h2c_write` after `transfer_start`. -/
def h2cFinish (transfer : XdmaTransfer) : Exec Unit := do
  pciUnmapSg transfer.sgm
  let (_rc, sgm) ← sgmPutUserPages transfer.sgm h2cFlags.dirToDev
  sgDestroyMapper sgm

/-- Returns the `ssize_t` result, and what it leaves in `*ppos`. -/
def xpcieH2cWrite (host : Endian) (kernel : KernelCalls)
    (buf count ppos : U64) : Exec (Int × U64) := do
  let transfer ← h2cPrepare host kernel buf count ppos
  let _rc ← transferStart host transfer kernel.status
  h2cFinish transfer
  pure (count.toInt, ppos)

/-! ## Success -/

/-- The table of a buffer whose pages were all pinned, as mapped. -/
def KernelCalls.mapped (kernel : KernelCalls) (buf count : U64) :
    List DmaSegment :=
  kernel.mapSg (userSegments kernel.user.page buf count)

/-- The pages of a non-empty buffer are pinned. -/
structure KernelCalls.Pin (kernel : KernelCalls) (buf count : U64) :
    Prop where
  requested : 0 < count.toNat
  granted : kernel.allocs.granted
  pinned : kernel.user.rc = pageSpan buf count

/-- There is something to write and every kernel call succeeds. -/
structure KernelCalls.Succeed (kernel : KernelCalls)
    (buf count : U64) : Prop extends kernel.Pin buf count where
  mapped : kernel.mapped buf count ≠ []
  allocated : ∃ grant, kernel.coherent = some grant

/-- The transfer of a write that succeeds so far. -/
def preparedTransfer (host : Endian) (kernel : KernelCalls)
    (grant : Coherent) (buf count ppos : U64) : XdmaTransfer :=
  let sgl := kernel.mapped buf count
  let descNum := (transferBlocks h2cFlags ppos sgl).length
  { descVirt := setUpList host grant sgl ppos h2cFlags
    descBus := grant.bus
    descAdjacent := descNum
    descNum
    sglNents := sgl.length
    sgm := pinnedMapper kernel.user
      (SgMapping.fresh (mapperCapacity count)) buf count }

/-- What a write takes to pin its buffer. -/
def pinAcquisitions (kernel : KernelCalls) (count : U64) : List Event :=
  [.acquire .mapper, .acquire (.pageArray (mapperCapacity count)),
      .acquire (.sgArray (mapperCapacity count))] ++
    kernel.user.pins.map fun page => .acquire (.pageRef page)

/-- What a write takes before it starts the engine. -/
def acquisitions (kernel : KernelCalls) (grant : Coherent)
    (buf count : U64) : List Event :=
  pinAcquisitions kernel count ++
    [.useDevice, .acquire (.sgMapping (pageSpan buf count) true), .useDevice,
      .acquire (.coherent ((kernel.mapped buf count).length * xdmaDescSize)
        grant.bus)]

/-- What a write gives back after it has stopped the engine. -/
def releases (kernel : KernelCalls) (buf count : U64) : List Event :=
  [.useDevice, .release (.sgMapping (pageSpan buf count) true)] ++
    kernel.user.pins.map (fun page => .release (.pageRef page)) ++
    [.release (.sgArray (mapperCapacity count)),
      .release (.pageArray (mapperCapacity count)), .release .mapper]

theorem fresh_fits (buf count : U64) :
    (SgMapping.fresh (mapperCapacity count)).Fits buf count := by
  have capacity := pageSpan_le_capacity buf count
  constructor
  · simpa [SgMapping.fresh, mapperCapacity] using capacity
  · simpa [SgMapping.fresh, mapperCapacity] using capacity

theorem pins_bookkeeping (user : UserPages) :
    ∀ event ∈ user.pins.map (fun page => Event.acquire (.pageRef page)),
      event.isBookkeeping := by
  intro event member
  obtain ⟨page, _, rfl⟩ := List.mem_map.mp member
  trivial

theorem pinAcquisitions_bookkeeping (kernel : KernelCalls) (count : U64) :
    ∀ event ∈ pinAcquisitions kernel count, event.isBookkeeping := by
  intro event member
  rcases List.mem_append.mp member with arrays | pins
  · simp only [List.mem_cons, List.not_mem_nil, or_false] at arrays
    rcases arrays with rfl | rfl | rfl <;> trivial
  · exact pins_bookkeeping kernel.user event pins

theorem pciMapSg_pinned (kernel : KernelCalls) (buf count : U64) :
    pciMapSg kernel (pinnedMapper kernel.user
        (SgMapping.fresh (mapperCapacity count)) buf count) =
      ⟨.ok (kernel.mapped buf count),
        .useDevice :: if kernel.mapped buf count = [] then [] else
          [.acquire (.sgMapping (pageSpan buf count) true)]⟩ := by
  have table : (pinnedMapper kernel.user
      (SgMapping.fresh (mapperCapacity count)) buf count).sgl.take
        (pinnedMapper kernel.user
          (SgMapping.fresh (mapperCapacity count)) buf count
            ).mappedPages.toNat =
        userSegments kernel.user.page buf count := by
    rw [← pinnedMapper_sgl_take (fresh_fits buf count)]
    rfl
  rw [KernelCalls.mapped, pciMapSg, table]
  cases kernel.mapSg (userSegments kernel.user.page buf count) with
  | nil => rfl
  | cons entry entries => rfl

section Run

variable (host : Endian) {kernel : KernelCalls} {grant : Coherent}
  {buf count : U64} (ppos : U64)

/-- Once the pages are pinned, the mapping and the descriptors remain. -/
theorem h2cPrepare_pin (admitted : count.toNat ≤ maxRwCount)
    (pin : kernel.Pin buf count) :
    h2cPrepare host kernel buf count ppos =
      ((do
        let sgl ← pciMapSg kernel (pinnedMapper kernel.user
          (SgMapping.fresh (mapperCapacity count)) buf count)
        let (descVirt, descBus, descNum) ←
          h2cDescriptors host kernel.coherent sgl ppos h2cFlags
        pure
          { descVirt
            descBus
            descAdjacent := descNum
            descNum
            sglNents := sgl.length
            sgm := pinnedMapper kernel.user
              (SgMapping.fresh (mapperCapacity count)) buf count }) :
          Exec XdmaTransfer).after (pinAcquisitions kernel count) := by
  have spanPositive := pageSpan_pos buf pin.requested
  have created := sgCreateMapper_ok pin.granted pin.requested admitted
  have pinned := sgmGetUserPages_ok spanPositive
    (pageSpan_lt_of_admitted buf admitted)
    (fresh_fits buf count) pin.pinned
  have somePages : ¬(pinnedMapper kernel.user
      (SgMapping.fresh (mapperCapacity count)) buf count).mappedPages = 0 := by
    simp only [pinnedMapper]
    omega
  simp only [h2cPrepare, created, Run.ok_bind, Run.demand_some, pinned,
    bugOn_of_not somePages, Run.after_nil]
  simp [Run.after, pinAcquisitions]

theorem h2cPrepare_ok (admitted : count.toNat ≤ maxRwCount)
    (succeed : kernel.Succeed buf count)
    (allocated : kernel.coherent = some grant) :
    h2cPrepare host kernel buf count ppos =
      ⟨.ok (preparedTransfer host kernel grant buf count ppos),
        acquisitions kernel grant buf count⟩ := by
  have descriptors := h2cDescriptors_eq host grant
    (kernel.mapped buf count) ppos h2cFlags succeed.mapped
  rw [h2cPrepare_pin host ppos admitted succeed.toPin, pciMapSg_pinned,
    if_neg succeed.mapped]
  simp only [Run.ok_bind, allocated, descriptors, Run.pure_eq, Run.after_mk]
  simp [acquisitions, preparedTransfer]

/-- A write that some kernel call fails dies before it reaches the engine.
It has named the device by then exactly when its pages were pinned. -/
theorem h2cPrepare_stops (admitted : count.toNat ≤ maxRwCount)
    (bounded : kernel.user.rc ≤ pageSpan buf count)
    (failed : ¬kernel.Succeed buf count) :
    ∃ fault log, h2cPrepare host kernel buf count ppos = ⟨.error fault, log⟩ ∧
      accesses log = [] ∧
      (Event.useDevice ∈ log ↔ kernel.Pin buf count) := by
  by_cases created : kernel.allocs.granted ∧ 0 < count.toNat
  · obtain ⟨granted, requested⟩ := created
    by_cases pinned : kernel.user.rc = pageSpan buf count
    · have pin : kernel.Pin buf count := ⟨requested, granted, pinned⟩
      have quiet := accesses_of_bookkeeping
        (pinAcquisitions_bookkeeping kernel count)
      rw [h2cPrepare_pin host ppos admitted pin, pciMapSg_pinned]
      by_cases mapped : kernel.mapped buf count = []
      · refine ⟨.bug, pinAcquisitions kernel count ++ [.useDevice], ?_, ?_, ?_⟩
        · simp [mapped, h2cDescriptors_nil]
        · rw [accesses_append, quiet]
          rfl
        · simp [pin]
      · have refused : kernel.coherent = none := by
          cases answer : kernel.coherent with
          | none => rfl
          | some grant => exact absurd ⟨pin, mapped, grant, answer⟩ failed
        refine ⟨.nullDereference, pinAcquisitions kernel count ++
          [.useDevice, .acquire (.sgMapping (pageSpan buf count) true),
            .useDevice], ?_, ?_, ?_⟩
        · simp [mapped, refused, h2cDescriptors_none host _ _ _ mapped]
        · rw [accesses_append, quiet]
          rfl
        · simp [pin]
    · -- The roll-back leaves no mapped page, which the caller asserts.
      have short := sgmGetUserPages_short (pageSpan_pos buf requested)
        (pageSpan_lt_of_admitted buf admitted)
        (fresh_fits buf count) rfl (lt_of_le_of_ne bounded pinned)
      have noPages : (unpinnedMapper kernel.user
          (SgMapping.fresh (mapperCapacity count)) buf count).mappedPages =
            0 := rfl
      have bookkeeping : ∀ event ∈ pinAcquisitions kernel count ++
          kernel.user.pins.map (fun page => .release (.pageRef page)),
            event.isBookkeeping := by
        intro event member
        rcases List.mem_append.mp member with taken | given
        · exact pinAcquisitions_bookkeeping kernel count event taken
        · obtain ⟨page, _, rfl⟩ := List.mem_map.mp given
          trivial
      refine ⟨.bug, _, ?_, accesses_of_bookkeeping bookkeeping, ?_⟩
      · simp only [h2cPrepare, sgCreateMapper_ok granted requested admitted,
          Run.ok_bind, Run.demand_some, short, bugOn_of noPages]
        simp [pinAcquisitions]
      · exact iff_of_false (useDevice_not_mem_of_bookkeeping bookkeeping)
          (fun pin => pinned pin.pinned)
  · -- The missing mapper is dereferenced.
    obtain ⟨refused, bookkeeping⟩ := sgCreateMapper_none created
    refine ⟨.nullDereference, (sgCreateMapper kernel.allocs count).log, ?_,
      accesses_of_bookkeeping bookkeeping, ?_⟩
    · have run : sgCreateMapper kernel.allocs count =
          ⟨.ok none, (sgCreateMapper kernel.allocs count).log⟩ := by
        rw [← refused]
      rw [h2cPrepare, run, Run.ok_bind]
      simp
    · exact iff_of_false (useDevice_not_mem_of_bookkeeping bookkeeping)
        (fun pin => created ⟨pin.granted, pin.requested⟩)

theorem h2cFinish_ok (succeed : kernel.Succeed buf count) :
    h2cFinish (preparedTransfer host kernel grant buf count ppos) =
      ⟨.ok (), releases kernel buf count⟩ := by
  have put := sgmPutUserPages_pinned (show h2cFlags.dirToDev ≠ 0 by decide)
    (fresh_fits buf count) succeed.pinned
  simp only [h2cFinish, pciUnmapSg, preparedTransfer, put, useDevice_eq,
    release_eq, Run.ok_bind]
  rw [sgDestroyMapper_eq (Int.le_refl 0)]
  simp [releases, pinnedMapper, SgMapping.fresh]

/-- A write whose kernel calls succeed returns what it was asked for and
leaves the file position alone. -/
theorem xpcieH2cWrite_ok (admitted : count.toNat ≤ maxRwCount)
    (succeed : kernel.Succeed buf count)
    (allocated : kernel.coherent = some grant) :
    xpcieH2cWrite host kernel buf count ppos =
      ⟨.ok (count.toInt, ppos),
        acquisitions kernel grant buf count ++
          (transferStart host
            (preparedTransfer host kernel grant buf count ppos)
            kernel.status).log ++ releases kernel buf count⟩ := by
  have started : transferStart host
      (preparedTransfer host kernel grant buf count ppos) kernel.status =
        ⟨.ok 0, (transferStart host
          (preparedTransfer host kernel grant buf count ppos)
          kernel.status).log⟩ := rfl
  rw [xpcieH2cWrite, h2cPrepare_ok host ppos admitted succeed allocated,
    Run.ok_bind, started, Run.ok_bind, h2cFinish_ok host ppos succeed]
  simp

theorem xpcieH2cWrite_accesses (admitted : count.toNat ≤ maxRwCount)
    (succeed : kernel.Succeed buf count)
    (allocated : kernel.coherent = some grant) :
    accesses (xpcieH2cWrite host kernel buf count ppos).log =
      transferAccesses host
        (preparedTransfer host kernel grant buf count ppos)
        kernel.status := by
  have taken : accesses (acquisitions kernel grant buf count) = [] := by
    rw [acquisitions, accesses_append,
      accesses_of_bookkeeping (pinAcquisitions_bookkeeping kernel count)]
    rfl
  have given : accesses (releases kernel buf count) = [] := by
    have pages : accesses (kernel.user.pins.map fun page =>
        .release (.pageRef page)) = [] := by
      apply accesses_of_bookkeeping
      intro event member
      obtain ⟨page, _, rfl⟩ := List.mem_map.mp member
      trivial
    rw [releases, accesses_append, accesses_append, pages]
    rfl
  rw [xpcieH2cWrite_ok host ppos admitted succeed allocated, accesses_append,
    accesses_append, taken, given, transferStart_accesses,
    List.nil_append, List.append_nil]

theorem xpcieH2cWrite_stops (admitted : count.toNat ≤ maxRwCount)
    (bounded : kernel.user.rc ≤ pageSpan buf count)
    (failed : ¬kernel.Succeed buf count) :
    ∃ fault log,
      xpcieH2cWrite host kernel buf count ppos = ⟨.error fault, log⟩ ∧
        accesses log = [] ∧
        (Event.useDevice ∈ log ↔ kernel.Pin buf count) := by
  obtain ⟨fault, log, stopped, untouched, named⟩ :=
    h2cPrepare_stops host ppos admitted bounded failed
  refine ⟨fault, log, ?_, untouched, named⟩
  rw [xpcieH2cWrite, stopped, Run.error_bind]

/-- Of all that a successful write takes, only the descriptors are left. -/
theorem outstanding_xpcieH2cWrite (admitted : count.toNat ≤ maxRwCount)
    (succeed : kernel.Succeed buf count)
    (allocated : kernel.coherent = some grant) (resource : Resource) :
    outstanding (xpcieH2cWrite host kernel buf count ppos).log resource =
      if Resource.coherent ((kernel.mapped buf count).length * xdmaDescSize)
        grant.bus = resource then 1 else 0 := by
  have pages := balance_map_cancel Event.change
    (fun page => Event.acquire (.pageRef page))
    (fun page => Event.release (.pageRef page))
    (fun page resource => Event.change_cancels (.pageRef page) resource)
    kernel.user.pins resource
  have mapper := Event.change_cancels .mapper resource
  have pageArray := Event.change_cancels
    (.pageArray (mapperCapacity count)) resource
  have sgArray := Event.change_cancels
    (.sgArray (mapperCapacity count)) resource
  have mapping := Event.change_cancels
    (.sgMapping (pageSpan buf count) true) resource
  have device : Event.useDevice.change resource = 0 := rfl
  have descriptors : (Event.acquire (.coherent
      ((kernel.mapped buf count).length * xdmaDescSize) grant.bus)).change
        resource = if Resource.coherent
          ((kernel.mapped buf count).length * xdmaDescSize) grant.bus =
            resource then 1 else 0 := rfl
  rw [xpcieH2cWrite_ok host ppos admitted succeed allocated,
    ← descriptors]
  simp only [acquisitions, pinAcquisitions, releases, outstanding_append,
    outstanding_cons, outstanding_nil, outstanding_transferStart]
  simp only [outstanding] at *
  omega

end Run

/-! ## Calls -/

structure WriteCall where
  kernel : KernelCalls
  buf : U64
  count : U64
  ppos : U64

def WriteCall.run (host : Endian) (call : WriteCall) : Exec (Int × U64) :=
  xpcieH2cWrite host call.kernel call.buf call.count call.ppos

/-- A call the VFS admits, in which no more pages are pinned than asked for.
Any kernel call may fail. -/
structure WriteCall.Admitted (call : WriteCall) : Prop where
  count : call.count.toNat ≤ maxRwCount
  rc : call.kernel.user.rc ≤ pageSpan call.buf call.count

/-- The transfer a call hands to the engine, if it gets that far. -/
def WriteCall.transfer (host : Endian) (call : WriteCall) :
    Option XdmaTransfer :=
  match (h2cPrepare host call.kernel call.buf call.count call.ppos).result with
  | .ok transfer => some transfer
  | .error _ => none

/-- The register accesses of a call, in program order. -/
def WriteCall.program (host : Endian) (call : WriteCall) : List Access :=
  accesses (call.run host).log

/-- A call runs a transfer exactly when its kernel calls succeed. -/
theorem WriteCall.Admitted.program_cases {call : WriteCall}
    (admitted : call.Admitted) (host : Endian) :
    (¬call.kernel.Succeed call.buf call.count ∧ call.transfer host = none ∧
        call.program host = []) ∨
      call.kernel.Succeed call.buf call.count ∧
        ∃ transfer, call.transfer host = some transfer ∧
          call.program host =
            transferAccesses host transfer call.kernel.status := by
  by_cases succeed : call.kernel.Succeed call.buf call.count
  · obtain ⟨grant, allocated⟩ := succeed.allocated
    refine .inr ⟨succeed, _, ?_, xpcieH2cWrite_accesses host call.ppos
      admitted.count succeed allocated⟩
    rw [WriteCall.transfer,
      h2cPrepare_ok host call.ppos admitted.count succeed allocated]
  · obtain ⟨fault, log, stopped, untouched, _⟩ :=
      xpcieH2cWrite_stops host call.ppos admitted.count admitted.rc succeed
    obtain ⟨_, _, prepare, _, _⟩ :=
      h2cPrepare_stops host call.ppos admitted.count admitted.rc succeed
    refine .inl ⟨succeed, ?_, ?_⟩
    · rw [WriteCall.transfer, prepare]
    · rw [WriteCall.program, WriteCall.run, stopped]
      exact untouched

/-- A call names the device exactly when the pages of its buffer are
pinned. -/
theorem WriteCall.Admitted.useDevice_mem_iff {call : WriteCall}
    (admitted : call.Admitted) (host : Endian) :
    Event.useDevice ∈ (call.run host).log ↔
      call.kernel.Pin call.buf call.count := by
  by_cases succeed : call.kernel.Succeed call.buf call.count
  · obtain ⟨grant, allocated⟩ := succeed.allocated
    refine iff_of_true ?_ succeed.toPin
    rw [WriteCall.run,
      xpcieH2cWrite_ok host call.ppos admitted.count succeed allocated]
    simp [acquisitions]
  · obtain ⟨fault, log, stopped, _, named⟩ :=
      xpcieH2cWrite_stops host call.ppos admitted.count admitted.rc succeed
    rw [WriteCall.run, stopped]
    exact named

/-! ## A machine without an IOMMU -/

/-- The bus address of an entry is its physical address. -/
def Scatterlist.direct (entry : Scatterlist) : DmaSegment :=
  { addr := BitVec.ofNat 64
      (4096 * entry.page.getD 0 + entry.offset.toNat)
    len := entry.length }

/-- A kernel that grants everything, finds virtual page `n` in page frame
`n`, and whose device always answers `status`. -/
def directKernel (buf count : U64) (status : U32) : KernelCalls :=
  { allocs := { mapper := true, pages := true, sgl := true }
    user :=
      { rc := pageSpan buf count
        page := fun i => buf.toNat / 4096 + i }
    mapSg := List.map Scatterlist.direct
    coherent := some
      { bus := 0x10000
        content := fun _ =>
          { control := 0, bytes := 0, srcAddrLo := 0, srcAddrHi := 0,
            dstAddrLo := 0, dstAddrHi := 0, nextLo := 0, nextHi := 0 } }
    status := fun _ => status }

theorem directKernel_succeed (buf : U64) {count : U64} (status : U32)
    (requested : 0 < count.toNat) :
    (directKernel buf count status).Succeed buf count where
  requested := requested
  granted := ⟨rfl, rfl, rfl⟩
  pinned := rfl
  mapped := by
    have span := pageSpan_pos buf requested
    have entries : ((directKernel buf count status).mapped
        buf count).length = pageSpan buf count := by
      simp [KernelCalls.mapped, directKernel, userSegments]
    exact List.ne_nil_of_length_pos (by omega)
  allocated := ⟨_, rfl⟩

/-- One byte written from the start of a page. -/
def oneByteWrite : WriteCall :=
  { kernel := directKernel 0x1000 1 2
    buf := 0x1000
    count := 1
    ppos := 0 }

end Xpcie
