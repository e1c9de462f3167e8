import Xpcie.TransferBuild

/-!
# Setting up the descriptors of a transfer

The list is allocated for every scatterlist entry, filled for every block,
cut after the last block, and given its adjacency counts.  Each word of a
descriptor the device visits is determined by the transfer alone.
-/

namespace Xpcie

open EffectLog BoundedArray

/-- The part of `xpcie_h2c_write` between mapping the scatterlist and
starting the transfer.  Returns the array, its bus address and `desc_num`. -/
def h2cDescriptors (host : Endian) (memory : Option Coherent)
    (sgl : List DmaSegment) (epAddr : U64) (flags : BuildFlags) :
    Exec (List XdmaDesc × U64 × Nat) := do
  let allocated ← xdmaDescAlloc host memory sgl.length
  let (descVirt, descBus) ← Run.demand allocated .nullDereference
  let (descVirt, last) ← transferBuild host descVirt sgl epAddr flags
  let descVirt ← transferTerminate host descVirt last
  let descNum := last + 1
  let descVirt ← Run.demand
    (modifyRange (fun i => xdmaDescAdjacent host ((descNum : Int) - i - 1))
      0 descNum descVirt) .outOfBounds
  -- transfer_dump
  bugOn (descNum = 0)
  pure (descVirt, descBus, descNum)

/-- The flag byte of descriptor `i` of `number`. -/
def flagByte (number i : Nat) : Nat :=
  if i + 1 = number then 0x13 else 0

/-- Bus address of the descriptor after descriptor `i` of `number`. -/
def nextDescAddr (descBus : U64) (number i : Nat) : U64 :=
  if i + 1 < number then descAddr descBus (i + 1) else 0

/-- Descriptor `i` of `number` as the device finds it, where `old` is what
the memory held before. -/
def setUpDesc (host : Endian) (descBus : U64) (dirToDev : Int)
    (number i : Nat) (block : Block) (old : XdmaDesc) : XdmaDesc :=
  let next := nextDescAddr descBus number i
  block.store host dirToDev
    { old with
      nextLo := cpuToLe32 host (pciDmaL next)
      nextHi := cpuToLe32 host (pciDmaH next)
      control := cpuToLe32 host (controlWord
        (xdmaExtraAdj (pciDmaL next) ((number : Int) - i - 1)).toNat
        (flagByte number i)) }

section SetUp

variable (host : Endian) (grant : Coherent) (sgl : List DmaSegment)
  (epAddr : U64) (flags : BuildFlags)

/-- The array after `xdma_desc_alloc` and `transfer_build`. -/
def builtList : List XdmaDesc :=
  storeBlocks host flags.dirToDev 0 (transferBlocks flags epAddr sgl)
    (allocatedList host grant sgl.length)

theorem builtList_getElem? {i : Nat} {block : Block}
    (found : (transferBlocks flags epAddr sgl)[i]? = some block) :
    (builtList host grant sgl epAddr flags)[i]? =
      some (block.store host flags.dirToDev
        (allocatedDesc host grant.bus sgl.length i (grant.content i))) := by
  have bounded := transferBlocks_length_le flags epAddr sgl
  have inside := (List.getElem?_eq_some_iff.mp found).1
  have allocated : (allocatedList host grant sgl.length)[i]? =
      some (allocatedDesc host grant.bus sgl.length i (grant.content i)) := by
    rw [allocatedList, List.getElem?_map, List.getElem?_range (by omega)]
    rfl
  simp [builtList, storeBlocks_getElem?, found, allocated]

/-- The effect of `transfer_terminate` on the last descriptor. -/
def terminatedDesc (desc : XdmaDesc) : XdmaDesc :=
  { desc with
    nextLo := 0
    nextHi := 0
    control := cpuToLe32 host (controlWord 0 0x13) }

theorem transferTerminate_eq {descVirt : List XdmaDesc} {last : Nat}
    {desc : XdmaDesc} {extra field : Nat} (found : descVirt[last]? = some desc)
    (extraSmall : extra < 16) (fieldSmall : field < 256)
    (control : desc.control = cpuToLe32 host (controlWord extra field)) :
    transferTerminate host descVirt last =
      ⟨.ok (descVirt.set last (terminatedDesc host desc)), []⟩ := by
  have flags : xdmaDescStopped ||| xdmaDescEop ||| xdmaDescCompleted =
      BitVec.ofNat 32 0x13 := by decide
  rw [transferTerminate, found, Run.demand_some, Run.ok_bind, Run.after_nil,
    xdmaDescLink_none extraSmall fieldSmall control, flags]
  dsimp only
  rw [xdmaDescControl_eq (show 0 < 16 by decide) fieldSmall rfl
    (show 0x13 < 256 by decide)]
  rfl

/-- The array the engine is given. -/
def setUpList : List XdmaDesc :=
  let number := (transferBlocks flags epAddr sgl).length
  overRange (fun i => xdmaDescAdjacent host ((number : Int) - i - 1)) 0 number
    ((builtList host grant sgl epAddr flags).modify (number - 1)
      (terminatedDesc host))

@[simp] theorem setUpList_length :
    (setUpList host grant sgl epAddr flags).length = sgl.length := by
  simp [setUpList, builtList]

section Store

variable (dirToDev : Int) (block : Block) (desc : XdmaDesc)

@[simp] theorem Block.store_nextLo :
    (block.store host dirToDev desc).nextLo = desc.nextLo := by
  unfold Block.store xdmaDescSet
  split <;> rfl

@[simp] theorem Block.store_nextHi :
    (block.store host dirToDev desc).nextHi = desc.nextHi := by
  unfold Block.store xdmaDescSet
  split <;> rfl

@[simp] theorem Block.store_control :
    (block.store host dirToDev desc).control = desc.control := by
  unfold Block.store xdmaDescSet
  split <;> rfl

/-- The link and the control word may be replaced after storing. -/
theorem Block.store_relink (nextLo nextHi control : U32) :
    { block.store host dirToDev desc with nextLo, nextHi, control } =
      block.store host dirToDev { desc with nextLo, nextHi, control } := by
  unfold Block.store xdmaDescSet
  split <;> rfl

end Store

/-- Storing the transfer details overwrites everything else. -/
theorem Block.store_overwrites (dirToDev : Int) (block : Block)
    {desc other : XdmaDesc} (nextLo : desc.nextLo = other.nextLo)
    (nextHi : desc.nextHi = other.nextHi)
    (control : desc.control = other.control) :
    block.store host dirToDev desc = block.store host dirToDev other := by
  unfold Block.store xdmaDescSet
  rw [nextLo, nextHi, control]

theorem setUpList_getElem? {i : Nat} {block : Block}
    (found : (transferBlocks flags epAddr sgl)[i]? = some block) :
    (setUpList host grant sgl epAddr flags)[i]? =
      some (setUpDesc host grant.bus flags.dirToDev
        (transferBlocks flags epAddr sgl).length i block
        (grant.content i)) := by
  have bounded := transferBlocks_length_le flags epAddr sgl
  have inside := (List.getElem?_eq_some_iff.mp found).1
  have built := builtList_getElem? host grant sgl epAddr flags found
  rw [setUpList, overRange_getElem?, if_pos (by omega),
    List.getElem?_modify, built]
  generalize (transferBlocks flags epAddr sgl).length = number at *
  simp only [Option.map_eq_map, Option.map_some, Option.some.injEq]
  by_cases last : number - 1 = i
  · -- The last descriptor ends the chain and carries the flags.
    have isLast : i + 1 = number := by omega
    have notBefore : ¬i + 1 < number := by omega
    rw [if_pos last, xdmaDescAdjacent_eq (show 0 < 16 by decide)
      (show 0x13 < 256 by decide) rfl, terminatedDesc, Block.store_relink]
    apply Block.store_overwrites
    · simp [nextDescAddr, notBefore]
    · simp [nextDescAddr, notBefore]
    · simp [nextDescAddr, flagByte, isLast]
  · -- Every other descriptor keeps the link it was allocated with.
    have notLast : ¬i + 1 = number := by omega
    have before : i + 1 < number := by omega
    have beforeAll : i + 1 < sgl.length := by omega
    rw [if_neg last, xdmaDescAdjacent_eq (allocatedExtra_lt sgl.length i)
      (show 0 < 256 by decide) (Block.store_control host _ block _),
      Block.store_relink]
    apply Block.store_overwrites
    · simp [allocatedDesc, nextDescAddr, before, beforeAll]
    · simp [allocatedDesc, nextDescAddr, before, beforeAll]
    · simp [allocatedDesc, nextDescAddr, before, beforeAll, flagByte, notLast]

/-- With an entry and memory for the descriptors, everything succeeds. -/
theorem h2cDescriptors_eq (nonempty : sgl ≠ []) :
    h2cDescriptors host (some grant) sgl epAddr flags =
      ⟨.ok (setUpList host grant sgl epAddr flags, grant.bus,
          (transferBlocks flags epAddr sgl).length),
        [.useDevice,
          .acquire (.coherent (sgl.length * xdmaDescSize) grant.bus)]⟩ := by
  have entries := List.length_pos_of_ne_nil nonempty
  have blocks := transferBlocks_length_pos flags epAddr nonempty
  have bounded := transferBlocks_length_le flags epAddr sgl
  obtain ⟨last, found⟩ : ∃ block, (transferBlocks flags epAddr sgl)[
      (transferBlocks flags epAddr sgl).length - 1]? = some block :=
    ⟨_, List.getElem?_eq_getElem (by omega)⟩
  have built := builtList_getElem? host grant sgl epAddr flags found
  have terminated := transferTerminate_eq host built
    (allocatedExtra_lt sgl.length _) (show 0 < 256 by decide)
    (Block.store_control host _ last _)
  have count : (transferBlocks flags epAddr sgl).length - 1 + 1 =
      (transferBlocks flags epAddr sgl).length := by omega
  have someBlocks : ¬(transferBlocks flags epAddr sgl).length = 0 := by omega
  have fits : 0 + (transferBlocks flags epAddr sgl).length ≤
      ((builtList host grant sgl epAddr flags).modify
        ((transferBlocks flags epAddr sgl).length - 1)
        (terminatedDesc host)).length := by
    simp [builtList]
    omega
  have replaced : (builtList host grant sgl epAddr flags).set
      ((transferBlocks flags epAddr sgl).length - 1)
      (terminatedDesc host (last.store host flags.dirToDev
        (allocatedDesc host grant.bus sgl.length
          ((transferBlocks flags epAddr sgl).length - 1)
          (grant.content
            ((transferBlocks flags epAddr sgl).length - 1))))) =
      (builtList host grant sgl epAddr flags).modify
        ((transferBlocks flags epAddr sgl).length - 1)
        (terminatedDesc host) := by
    rw [List.modify_eq_set_getElem?, built]
    rfl
  rw [builtList] at terminated
  simp only [h2cDescriptors, xdmaDescAlloc_ok host grant entries,
    Run.ok_bind, Run.demand_some, Run.after_nil,
    transferBuild_eq host epAddr flags nonempty
      (show sgl.length ≤ (allocatedList host grant sgl.length).length by simp),
    terminated, count]
  rw [← builtList, replaced, modifyRange_eq _ fits]
  simp [someBlocks, setUpList]

/-- An empty table, as left by a failed mapping, dies in a `BUG_ON`. -/
theorem h2cDescriptors_nil (memory : Option Coherent) :
    h2cDescriptors host memory [] epAddr flags = ⟨.error .bug, []⟩ := by
  simp [h2cDescriptors, xdmaDescAlloc]

/-- A refused allocation is used all the same. -/
theorem h2cDescriptors_none (nonempty : sgl ≠ []) :
    h2cDescriptors host none sgl epAddr flags =
      ⟨.error .nullDereference, [.useDevice]⟩ := by
  have entries := List.length_pos_of_ne_nil nonempty
  simp [h2cDescriptors, xdmaDescAlloc_none host entries]

/-! ## What the device finds -/

theorem flagByte_stops {extra : Nat} (extraSmall : extra < 16)
    (number i : Nat) :
    controlWord extra (flagByte number i) &&& xdmaDescStopped ≠ 0 ↔
      i + 1 = number := by
  have set : ∀ extra : Fin 16,
      controlWord extra 0x13 &&& xdmaDescStopped ≠ 0 := by decide
  have clear : ∀ extra : Fin 16,
      controlWord extra 0 &&& xdmaDescStopped = 0 := by decide
  unfold flagByte
  by_cases last : i + 1 = number
  · rw [if_pos last]
    exact iff_of_true (set ⟨extra, extraSmall⟩) last
  · rw [if_neg last]
    exact iff_of_false (not_not_intro (clear ⟨extra, extraSmall⟩)) last

section SetUpDesc

variable (dirToDev : Int) (descBus : U64) (number i : Nat) (block : Block)
  (old : XdmaDesc)

theorem setUpDesc_isStopped :
    (setUpDesc host descBus dirToDev number i block old).isStopped host ↔
      i + 1 = number := by
  have bounds := xdmaExtraAdj_bounds
    (pciDmaL (nextDescAddr descBus number i)) ((number : Int) - i - 1)
  have stops := flagByte_stops
    (show (xdmaExtraAdj (pciDmaL (nextDescAddr descBus number i))
      ((number : Int) - i - 1)).toNat < 16 by omega) number i
  simpa only [XdmaDesc.isStopped, setUpDesc, Block.store_control,
    deviceWord_cpuToLe32] using stops

theorem setUpDesc_next :
    (setUpDesc host descBus dirToDev number i block old).next host =
      nextDescAddr descBus number i := by
  simp [XdmaDesc.next, setUpDesc]

end SetUpDesc

/-- Every descriptor of the chain was made for a block. -/
theorem setUpList_described {i : Nat} {desc : XdmaDesc}
    (inside : i < (transferBlocks flags epAddr sgl).length)
    (found : (setUpList host grant sgl epAddr flags)[i]? = some desc) :
    ∃ block, (transferBlocks flags epAddr sgl)[i]? = some block ∧
      desc = setUpDesc host grant.bus flags.dirToDev
        (transferBlocks flags epAddr sgl).length i block
        (grant.content i) := by
  have block := List.getElem?_eq_getElem inside
  have setUp := setUpList_getElem? host grant sgl epAddr flags block
  exact ⟨_, block, Option.some.inj (found.symm.trans setUp)⟩

/-- The device meets one descriptor for each block and stops at the last. -/
theorem setUpList_chained (nonempty : sgl ≠ []) :
    Chained host grant.bus (setUpList host grant sgl epAddr flags)
      ((transferBlocks flags epAddr sgl).length - 1) := by
  have blocks := transferBlocks_length_pos flags epAddr nonempty
  have bounded := transferBlocks_length_le flags epAddr sgl
  constructor
  · rw [setUpList_length]
    omega
  · intro i desc upTo found
    obtain ⟨block, _, rfl⟩ := setUpList_described host grant sgl epAddr
      flags (show i < (transferBlocks flags epAddr sgl).length by omega) found
    rw [setUpDesc_isStopped]
    omega
  · intro i desc before found
    obtain ⟨block, _, rfl⟩ := setUpList_described host grant sgl epAddr
      flags (show i < (transferBlocks flags epAddr sgl).length by omega) found
    rw [setUpDesc_next, nextDescAddr, if_pos (by omega)]

/-- Together the descriptors of the chain move what the blocks move. -/
theorem setUpList_copies (toDevice : flags.dirToDev ≠ 0) :
    ((setUpList host grant sgl epAddr flags).take
        (transferBlocks flags epAddr sgl).length).flatMap
          (XdmaDesc.copies host) =
      (transferBlocks flags epAddr sgl).flatMap Block.copies := by
  have bounded := transferBlocks_length_le flags epAddr sgl
  have each : ((setUpList host grant sgl epAddr flags).take
      (transferBlocks flags epAddr sgl).length).map (XdmaDesc.copies host) =
        (transferBlocks flags epAddr sgl).map Block.copies := by
    apply List.ext_getElem?
    intro i
    rw [List.getElem?_map, List.getElem?_map, List.getElem?_take]
    by_cases inside : i < (transferBlocks flags epAddr sgl).length
    · have found := List.getElem?_eq_getElem inside
      rw [if_pos inside, setUpList_getElem? host grant sgl epAddr flags found,
        found, Option.map_some, Option.map_some, setUpDesc,
        Block.store_copies host toDevice]
    · rw [if_neg inside, List.getElem?_eq_none (by omega)]
      rfl
  rw [List.flatMap_def, each, ← List.flatMap_def]

/-- Following the chain from the first descriptor moves each byte of the
table to consecutive end-point addresses. -/
theorem setUpList_followed (nonempty : sgl ≠ [])
    (toDevice : flags.dirToDev ≠ 0) (increments : flags.Increments)
    (small : groupBytes sgl < 2 ^ 32)
    (fits : xdmaDescSize * sgl.length ≤ 2 ^ 64) :
    followChain host
        (coherentRead grant.bus (setUpList host grant sgl epAddr flags))
        (transferBlocks flags epAddr sgl).length grant.bus =
      some ((sgl.flatMap DmaSegment.span).zip
        (AddressSpan.span epAddr (groupBytes sgl))) := by
  have blocks := transferBlocks_length_pos flags epAddr nonempty
  have chained := setUpList_chained host grant sgl epAddr flags nonempty
  have count : (transferBlocks flags epAddr sgl).length - 1 + 1 =
      (transferBlocks flags epAddr sgl).length := by omega
  have followed := chained.follow (by rw [setUpList_length]; exact fits)
    (Nat.zero_add _)
  have first : descAddr grant.bus 0 = grant.bus := by simp [descAddr]
  rw [count, first, List.drop_zero,
    setUpList_copies host grant sgl epAddr flags toDevice,
    transferBlocks_copies increments epAddr small] at followed
  exact followed

end SetUp

end Xpcie
