import Xpcie.DescriptorChain
import Xpcie.Engine

/-!
# Hosts of either byte order

What a transfer gives the device is the memory of its descriptors and the
registers the engine is started with.  Words in memory are converted once.
Registers are written with `iowrite32`, which converts by itself, and yet
`transfer_start` converts the address and the count of the first descriptor
before it writes them.
-/

namespace Xpcie

open EffectLog

/-- The bytes of a word in the memory of the host. -/
def storedBytes (host : Endian) (word : U32) : List U8 :=
  (List.range 4).map (storedByte host word)

/-- The 32 bytes of a descriptor in the memory of the host. -/
def XdmaDesc.storedBytes (host : Endian) (desc : XdmaDesc) : List U8 :=
  [desc.control, desc.bytes, desc.srcAddrLo, desc.srcAddrHi, desc.dstAddrLo,
    desc.dstAddrHi, desc.nextLo, desc.nextHi].flatMap (Xpcie.storedBytes host)

/-- The bytes of the descriptors of a transfer, and the registers each time
the engine is set running. -/
structure DeviceView where
  descriptors : List (List U8)
  launched : List RegisterFile
  deriving DecidableEq, Repr

/-- Set up the descriptors and start the transfer. -/
def deviceView (host : Endian) (grant : Coherent) (sgl : List DmaSegment)
    (epAddr : U64) (flags : BuildFlags) (sgm : SgMapping)
    (status : Nat → U32) (registers : RegisterFile) : Exec DeviceView := do
  let (descVirt, descBus, descNum) ←
    h2cDescriptors host (some grant) sgl epAddr flags
  let transfer : XdmaTransfer :=
    { descVirt
      descBus
      descAdjacent := descNum
      descNum
      sglNents := sgl.length
      sgm }
  pure
    { descriptors := (descVirt.take descNum).map (XdmaDesc.storedBytes host)
      launched := launches registers
        (accesses (transferStart host transfer status).log) }

/-- The device cannot tell a little-endian host from a big-endian one. -/
def SameOnBothHosts (sgl : List DmaSegment) (epAddr descBus : U64)
    (flags : BuildFlags) : Prop :=
  ∀ (little big : Nat → XdmaDesc) (sgm : SgMapping) (status : Nat → U32)
    (registers : RegisterFile),
    (deviceView .little ⟨descBus, little⟩ sgl epAddr flags sgm status
        registers).result =
      (deviceView .big ⟨descBus, big⟩ sgl epAddr flags sgm status
        registers).result

/-- No entry of the table starts a second descriptor. -/
def OneDescriptor (flags : BuildFlags) (sgl : List DmaSegment) : Prop :=
  ∀ opened next later, sgl = opened ++ next :: later → opened ≠ [] →
    closesGroup flags opened next = false

/-! ## Descriptors -/

theorem storedBytes_cpuToLe32 (host : Endian) (word : U32) :
    storedBytes host (cpuToLe32 host word) = storedBytes .little word := by
  cases host with
  | little => rfl
  | big =>
      obtain ⟨zero, one, two, three⟩ := byteOf_wordOf (byteOf word 3)
        (byteOf word 2) (byteOf word 1) (byteOf word 0)
      change [byteOf (swab32 word) 3, byteOf (swab32 word) 2,
        byteOf (swab32 word) 1, byteOf (swab32 word) 0] = _
      rw [swab32, zero, one, two, three]
      rfl

/-- The memory of a descriptor does not depend on the host. -/
theorem setUpDesc_storedBytes (host : Endian) (descBus : U64)
    (dirToDev : Int) (number i : Nat) (block : Block)
    (old other : XdmaDesc) :
    (setUpDesc host descBus dirToDev number i block old).storedBytes host =
      (setUpDesc .little descBus dirToDev number i block other).storedBytes
        .little := by
  have once := fun word => storedBytes_cpuToLe32 host word
  have little := fun word => storedBytes_cpuToLe32 .little word
  unfold setUpDesc Block.store xdmaDescSet
  split
  · simp only [XdmaDesc.storedBytes, List.flatMap_cons, List.flatMap_nil,
      once, little]
  · simp only [XdmaDesc.storedBytes, List.flatMap_cons, List.flatMap_nil,
      once, little]

section SetUp

variable (host : Endian) (sgl : List DmaSegment) (epAddr descBus : U64)
  (flags : BuildFlags)

theorem setUpList_storedBytes (content other : Nat → XdmaDesc) :
    ((setUpList host ⟨descBus, content⟩ sgl epAddr flags).take
        (transferBlocks flags epAddr sgl).length).map
          (XdmaDesc.storedBytes host) =
      ((setUpList .little ⟨descBus, other⟩ sgl epAddr flags).take
        (transferBlocks flags epAddr sgl).length).map
          (XdmaDesc.storedBytes .little) := by
  apply List.ext_getElem?
  intro i
  rw [List.getElem?_map, List.getElem?_map, List.getElem?_take,
    List.getElem?_take]
  by_cases inside : i < (transferBlocks flags epAddr sgl).length
  · have block := List.getElem?_eq_getElem inside
    rw [if_pos inside, if_pos inside,
      setUpList_getElem? host _ sgl epAddr flags block,
      setUpList_getElem? .little _ sgl epAddr flags block]
    exact congrArg some (setUpDesc_storedBytes ..)
  · rw [if_neg inside, if_neg inside]
    rfl

/-! ## Registers -/

/-- The registers a transfer of `number` descriptors is started with. -/
def launchedRegisters (number : Nat) : RegisterFile :=
  { control := engineControlWord
    firstDescLo := cpuToLe32 host (pciDmaL descBus)
    firstDescHi := cpuToLe32 host (pciDmaH descBus)
    firstDescAdjacent :=
      cpuToLe32 host (BitVec.ofInt 32 (firstExtraAdj number)) }

theorem deviceView_result (nonempty : sgl ≠ []) (content : Nat → XdmaDesc)
    (sgm : SgMapping) (status : Nat → U32) (registers : RegisterFile) :
    (deviceView host ⟨descBus, content⟩ sgl epAddr flags sgm status
        registers).result =
      .ok
        { descriptors :=
            ((setUpList host ⟨descBus, content⟩ sgl epAddr flags).take
              (transferBlocks flags epAddr sgl).length).map
                (XdmaDesc.storedBytes host)
          launched := [launchedRegisters host descBus
            (transferBlocks flags epAddr sgl).length] } := by
  rw [deviceView, h2cDescriptors_eq host _ sgl epAddr flags nonempty]
  rfl

end SetUp

/-- A count of up to four bits reads differently from the other end, unless
it is zero. -/
theorem swab32_count {count : Nat} (small : count < 16) :
    swab32 (BitVec.ofNat 32 count) = BitVec.ofNat 32 count ↔ count = 0 := by
  have each : ∀ count : Fin 16,
      swab32 (BitVec.ofNat 32 count) = BitVec.ofNat 32 count ↔
        (count : Nat) = 0 := by
    decide +kernel
  exact each ⟨count, small⟩

/-- The registers agree when every value written is its own byte reversal. -/
theorem launchedRegisters_same_iff (descBus : U64) {number : Nat}
    (positive : 0 < number) :
    launchedRegisters .little descBus number =
        launchedRegisters .big descBus number ↔
      number = 1 ∧ swab32 (pciDmaL descBus) = pciDmaL descBus ∧
        swab32 (pciDmaH descBus) = pciDmaH descBus := by
  have small : min (number - 1) 15 < 16 := by omega
  rw [launchedRegisters, launchedRegisters, firstExtraAdj_eq positive,
    BitVec.ofInt_natCast, RegisterFile.mk.injEq]
  constructor
  · rintro ⟨_, lo, hi, adjacent⟩
    have none := (swab32_count small).mp adjacent.symm
    exact ⟨by omega, lo.symm, hi.symm⟩
  · rintro ⟨single, lo, hi⟩
    have none := (swab32_count small).mpr (by omega)
    exact ⟨rfl, lo.symm, hi.symm, none.symm⟩

theorem transferBlocks_single_iff {sgl : List DmaSegment} {flags : BuildFlags}
    (epAddr : U64) (nonempty : sgl ≠ []) :
    (transferBlocks flags epAddr sgl).length = 1 ↔
      OneDescriptor flags sgl := by
  rw [transferBlocks, blocksAt_length]
  exact Grouping.groups_length_eq_one (closesGroup flags) nonempty

theorem SameOnBothHosts.registers {sgl : List DmaSegment}
    {epAddr descBus : U64} {flags : BuildFlags}
    (same : SameOnBothHosts sgl epAddr descBus flags) (nonempty : sgl ≠ []) :
    launchedRegisters .little descBus
        (transferBlocks flags epAddr sgl).length =
      launchedRegisters .big descBus
        (transferBlocks flags epAddr sgl).length := by
  have equal := same clearedMemory clearedMemory (SgMapping.fresh 0)
    (fun _ => 0) idleRegisters
  rw [deviceView_result .little sgl epAddr descBus flags nonempty,
    deviceView_result .big sgl epAddr descBus flags nonempty] at equal
  injection equal with views
  injection views with _ launched
  injection launched

/-- The byte order shows exactly in the registers of the first descriptor:
it stays hidden when there is no second descriptor and both halves of the
bus address read the same from either end. -/
theorem sameOnBothHosts_iff {sgl : List DmaSegment} (epAddr descBus : U64)
    (flags : BuildFlags) (nonempty : sgl ≠ []) :
    SameOnBothHosts sgl epAddr descBus flags ↔
      OneDescriptor flags sgl ∧ swab32 (pciDmaL descBus) = pciDmaL descBus ∧
        swab32 (pciDmaH descBus) = pciDmaH descBus := by
  have blocks := transferBlocks_length_pos flags epAddr nonempty
  rw [← transferBlocks_single_iff epAddr nonempty,
    ← launchedRegisters_same_iff descBus blocks]
  constructor
  · intro same
    exact same.registers nonempty
  · intro registers little big sgm status start
    rw [deviceView_result .little sgl epAddr descBus flags nonempty,
      deviceView_result .big sgl epAddr descBus flags nonempty,
      setUpList_storedBytes .big sgl epAddr descBus flags big little,
      registers]

theorem sameOnBothHosts_iff_scattered :
    SameOnBothHosts scatteredPages 0 0x7000 ⟨1, 0, 0, 1⟩ ↔
      OneDescriptor ⟨1, 0, 0, 1⟩ scatteredPages ∧
        swab32 (pciDmaL 0x7000) = pciDmaL 0x7000 ∧
        swab32 (pciDmaH 0x7000) = pciDmaH 0x7000 :=
  sameOnBothHosts_iff 0 0x7000 ⟨1, 0, 0, 1⟩ (List.cons_ne_nil _ _)

/-- With descriptors at `0x7000`, a big-endian host sends the engine to
`0x700000`. -/
theorem not_sameOnBothHosts_scattered :
    ¬∀ (sgl : List DmaSegment) (epAddr descBus : U64) (flags : BuildFlags),
      sgl ≠ [] → SameOnBothHosts sgl epAddr descBus flags := by
  intro always
  have same := always scatteredPages 0 0x7000 ⟨1, 0, 0, 1⟩
    (List.cons_ne_nil _ _)
  exact absurd (congrArg RegisterFile.firstDescLo
    (same.registers (List.cons_ne_nil _ _))) (by decide)

end Xpcie
