import Xpcie.DescriptorSetup

/-!
# The chain the engine walks

The array is allocated for every scatterlist entry and cut after the last
block.  What the engine meets on its way through the chain does not depend on
what the memory held before.
-/

namespace Xpcie

open EffectLog

/-- Follow the next pointers until one of them is zero, collecting the
addresses visited. -/
def followNext (host : Endian) (memory : U64 → Option XdmaDesc) :
    Nat → U64 → Option (List U64)
  | 0, _ => none
  | fuel + 1, addr => do
      let desc ← memory addr
      if desc.next host = 0 then some [addr]
      else do
        let later ← followNext host memory fuel (desc.next host)
        some (addr :: later)

/-- Memory that holds zeros. -/
def clearedMemory (_ : Nat) : XdmaDesc :=
  ⟨0, 0, 0, 0, 0, 0, 0, 0⟩

/-- The upper half of the control word. -/
def XdmaDesc.magic (host : Endian) (desc : XdmaDesc) : U32 :=
  deviceWord host desc.control >>> 16

/-- The low byte of the control word. -/
def XdmaDesc.flags (host : Endian) (desc : XdmaDesc) : U32 :=
  deviceWord host desc.control &&& lsByteMask

/-- The next pointers lead through descriptors `0` to `last` and end there.
All of them carry the magic, and only the last one carries flags. -/
structure WellFormedChain (host : Endian) (descBus : U64)
    (descVirt : List XdmaDesc) (last : Nat) : Prop where
  visited : followNext host (coherentRead descBus descVirt) (last + 1)
    descBus = some ((List.range (last + 1)).map (descAddr descBus))
  magic : ∀ i desc, i ≤ last → descVirt[i]? = some desc →
    desc.magic host = 0xAD4B
  flags : ∀ i desc, i ≤ last → descVirt[i]? = some desc →
    desc.flags host = if i = last then
      xdmaDescStopped ||| xdmaDescCompleted ||| xdmaDescEop else 0

/-! ## Reading a control word -/

section ControlWord

variable {extra field : Nat}

theorem controlWord_magic (extraSmall : extra < 16)
    (fieldSmall : field < 256) :
    controlWord extra field >>> 16 = 0xAD4B := by
  have magic : descMagic >>> 16 = 0xAD4B := by decide
  have count : ∀ extra : Fin 16,
      (BitVec.ofNat 32 extra <<< 8) >>> 16 = (0 : U32) := by decide
  have flags : ∀ field : Fin 256,
      BitVec.ofNat 32 field >>> 16 = (0 : U32) := by
    decide +kernel
  rw [controlWord, BitVec.ushiftRight_or_distrib,
    BitVec.ushiftRight_or_distrib, magic, count ⟨extra, extraSmall⟩,
    flags ⟨field, fieldSmall⟩]
  rfl

theorem controlWord_flags (extraSmall : extra < 16)
    (fieldSmall : field < 256) :
    controlWord extra field &&& lsByteMask = BitVec.ofNat 32 field := by
  have magic : descMagic &&& lsByteMask = 0 := by decide
  have count : ∀ extra : Fin 16,
      BitVec.ofNat 32 extra <<< 8 &&& lsByteMask = (0 : U32) := by decide
  have flags : ∀ field : Fin 256,
      BitVec.ofNat 32 field &&& lsByteMask = BitVec.ofNat 32 field := by
    decide +kernel
  rw [controlWord, BitVec.and_or_distrib_right, BitVec.and_or_distrib_right,
    magic, count ⟨extra, extraSmall⟩, flags ⟨field, fieldSmall⟩,
    BitVec.or_self]
  exact BitVec.zero_or

end ControlWord

/-! ## Walking the array -/

/-- An array that does not reach the end of the address space has no second
descriptor at address zero. -/
theorem descAddr_succ_ne_zero {descBus : U64} {number i : Nat}
    (noWrap : descBus.toNat + xdmaDescSize * number ≤ 2 ^ 64)
    (inside : i + 1 < number) : descAddr descBus (i + 1) ≠ 0 := by
  intro zero
  have value := congrArg BitVec.toNat zero
  unfold xdmaDescSize at noWrap
  rw [descAddr, BitVec.toNat_add, BitVec.toNat_ofNat, xdmaDescSize] at value
  change _ = 0 at value
  omega

/-- Linked descriptors are visited one after another, up to the one whose
next pointer is zero. -/
theorem followNext_eq {host : Endian} {descBus : U64}
    {descVirt : List XdmaDesc} {last : Nat} (inside : last < descVirt.length)
    (noWrap : descBus.toNat + xdmaDescSize * descVirt.length ≤ 2 ^ 64)
    (leads : ∀ i desc, i < last → descVirt[i]? = some desc →
      desc.next host = descAddr descBus (i + 1))
    (ends : ∀ desc, descVirt[last]? = some desc → desc.next host = 0)
    {remaining i : Nat} (position : i + remaining = last) :
    followNext host (coherentRead descBus descVirt) (remaining + 1)
        (descAddr descBus i) =
      some ((List.range' i (remaining + 1)).map (descAddr descBus)) := by
  have fits : xdmaDescSize * descVirt.length ≤ 2 ^ 64 := by omega
  induction remaining generalizing i with
  | zero =>
      obtain rfl : i = last := by omega
      have here := List.getElem?_eq_getElem inside
      rw [followNext, coherentRead_descAddr descBus fits inside, here]
      simp only [Option.bind_eq_bind, Option.bind_some, if_pos (ends _ here)]
      rfl
  | succ remaining induction =>
      have before : i < descVirt.length := by omega
      have here := List.getElem?_eq_getElem before
      have link := leads i _ (by omega) here
      have following : i + 1 < descVirt.length := by omega
      have running := descAddr_succ_ne_zero noWrap following
      have nextPosition : i + 1 + remaining = last := by omega
      have later := induction nextPosition
      rw [followNext, coherentRead_descAddr descBus fits before, here]
      simp only [Option.bind_eq_bind, Option.bind_some, link, if_neg running,
        later]
      rfl

/-! ## The chain of a transfer -/

section SetUp

variable (host : Endian) (sgl : List DmaSegment) (epAddr : U64)
  (flags : BuildFlags)

section SetUpDesc

variable (descBus : U64) (dirToDev : Int) (number i : Nat) (block : Block)

/-- The control word of a descriptor, as the device reads it. -/
theorem setUpDesc_control (old : XdmaDesc) :
    ∃ extra < 16, deviceWord host
        (setUpDesc host descBus dirToDev number i block old).control =
      controlWord extra (flagByte number i) := by
  have bounds := xdmaExtraAdj_bounds
    (pciDmaL (nextDescAddr descBus number i)) ((number : Int) - i - 1)
  refine ⟨(xdmaExtraAdj (pciDmaL (nextDescAddr descBus number i))
    ((number : Int) - i - 1)).toNat, by omega, ?_⟩
  rw [setUpDesc, Block.store_control, deviceWord_cpuToLe32]

theorem flagByte_lt : flagByte number i < 256 := by
  unfold flagByte
  split <;> decide

/-- Nothing of what the memory held is left. -/
theorem setUpDesc_fresh (old other : XdmaDesc) :
    setUpDesc host descBus dirToDev number i block old =
      setUpDesc host descBus dirToDev number i block other :=
  Block.store_overwrites host dirToDev block rfl rfl rfl

end SetUpDesc

/-- Two arrays set up in different memory agree on the whole chain. -/
theorem setUpList_take_fresh {descBus : U64}
    (content other : Nat → XdmaDesc) :
    (setUpList host { bus := descBus, content } sgl epAddr flags).take
        (transferBlocks flags epAddr sgl).length =
      (setUpList host { bus := descBus, content := other } sgl epAddr
        flags).take (transferBlocks flags epAddr sgl).length := by
  apply List.ext_getElem?
  intro i
  rw [List.getElem?_take, List.getElem?_take]
  by_cases inside : i < (transferBlocks flags epAddr sgl).length
  · have block := List.getElem?_eq_getElem inside
    rw [if_pos inside, if_pos inside,
      setUpList_getElem? host _ sgl epAddr flags block,
      setUpList_getElem? host _ sgl epAddr flags block]
    exact congrArg some (setUpDesc_fresh ..)
  · rw [if_neg inside, if_neg inside]

theorem setUpList_control (grant : Coherent) {i : Nat} {desc : XdmaDesc}
    (inside : i < (transferBlocks flags epAddr sgl).length)
    (found : (setUpList host grant sgl epAddr flags)[i]? = some desc) :
    ∃ extra < 16, deviceWord host desc.control = controlWord extra
      (flagByte (transferBlocks flags epAddr sgl).length i) := by
  obtain ⟨block, _, rfl⟩ := setUpList_described host grant sgl epAddr flags
    inside found
  exact setUpDesc_control host grant.bus flags.dirToDev _ i block _

theorem setUpList_wellFormed (grant : Coherent) (nonempty : sgl ≠ [])
    (noWrap : grant.bus.toNat + xdmaDescSize * sgl.length ≤ 2 ^ 64) :
    WellFormedChain host grant.bus (setUpList host grant sgl epAddr flags)
      ((transferBlocks flags epAddr sgl).length - 1) := by
  have blocks := transferBlocks_length_pos flags epAddr nonempty
  have bounded := transferBlocks_length_le flags epAddr sgl
  have lastInside : (transferBlocks flags epAddr sgl).length - 1 <
      (transferBlocks flags epAddr sgl).length := by omega
  constructor
  · have leads : ∀ i desc,
        i < (transferBlocks flags epAddr sgl).length - 1 →
        (setUpList host grant sgl epAddr flags)[i]? = some desc →
        desc.next host = descAddr grant.bus (i + 1) :=
      (setUpList_chained host grant sgl epAddr flags nonempty).leads
    have ends : ∀ desc, (setUpList host grant sgl epAddr flags)[
        (transferBlocks flags epAddr sgl).length - 1]? = some desc →
        desc.next host = 0 := by
      intro desc found
      obtain ⟨block, _, rfl⟩ := setUpList_described host grant sgl epAddr
        flags lastInside found
      rw [setUpDesc_next, nextDescAddr, if_neg (by omega)]
    have inArray : (transferBlocks flags epAddr sgl).length - 1 <
        (setUpList host grant sgl epAddr flags).length := by
      rw [setUpList_length]
      omega
    have walk := followNext_eq inArray
      (by rw [setUpList_length]; exact noWrap) leads ends
      (Nat.zero_add ((transferBlocks flags epAddr sgl).length - 1))
    rw [← List.range_eq_range'] at walk
    simpa [descAddr] using walk
  · intro i desc upTo found
    obtain ⟨extra, extraSmall, control⟩ := setUpList_control host sgl epAddr
      flags grant (by omega) found
    rw [XdmaDesc.magic, control,
      controlWord_magic extraSmall (flagByte_lt _ i)]
  · intro i desc upTo found
    obtain ⟨extra, extraSmall, control⟩ := setUpList_control host sgl epAddr
      flags grant (by omega) found
    rw [XdmaDesc.flags, control,
      controlWord_flags extraSmall (flagByte_lt _ i), flagByte]
    by_cases isLast : i = (transferBlocks flags epAddr sgl).length - 1
    · rw [if_pos isLast, if_pos (by omega)]
      decide
    · rw [if_neg isLast, if_neg (by omega)]
      rfl

/-- Whatever the memory held, the driver leaves a chain that visits each
descriptor up to the one `transfer_build` returned and stops there, and
every word of that chain is determined by the transfer. -/
theorem h2cDescriptors_wellFormed {descBus : U64} (nonempty : sgl ≠ [])
    (noWrap : descBus.toNat + xdmaDescSize * sgl.length ≤ 2 ^ 64) :
    ∃ chain last, ∀ content, ∃ allocated built descVirt log,
      (xdmaDescAlloc host (some ⟨descBus, content⟩) sgl.length).result =
        .ok (some (allocated, descBus)) ∧
      transferBuild host allocated sgl epAddr flags =
        ⟨.ok (built, last), []⟩ ∧
      h2cDescriptors host (some ⟨descBus, content⟩) sgl epAddr flags =
        ⟨.ok (descVirt, descBus, last + 1), log⟩ ∧
      descVirt.take (last + 1) = chain ∧
      WellFormedChain host descBus descVirt last := by
  have blocks := transferBlocks_length_pos flags epAddr nonempty
  have entries := List.length_pos_of_ne_nil nonempty
  have count : (transferBlocks flags epAddr sgl).length - 1 + 1 =
      (transferBlocks flags epAddr sgl).length := by omega
  refine ⟨(setUpList host ⟨descBus, clearedMemory⟩ sgl epAddr flags).take
    (transferBlocks flags epAddr sgl).length,
    (transferBlocks flags epAddr sgl).length - 1, ?_⟩
  intro content
  have alloc := xdmaDescAlloc_ok host ⟨descBus, content⟩ entries
  have build := transferBuild_eq host epAddr flags nonempty
    (allocatedList_length host ⟨descBus, content⟩ sgl.length).ge
  have setUp := h2cDescriptors_eq host ⟨descBus, content⟩ sgl epAddr flags
    nonempty
  rw [← count] at setUp
  refine ⟨_, _, _, _, congrArg Run.result alloc, build, setUp, ?_, ?_⟩
  · rw [count]
    exact setUpList_take_fresh host sgl epAddr flags ..
  · exact setUpList_wellFormed host sgl epAddr flags ⟨descBus, content⟩
      nonempty noWrap

end SetUp

/-- Two pages that lie apart on the bus. -/
def scatteredPages : List DmaSegment :=
  [⟨0x10000, 0x1000⟩, ⟨0x30000, 0x1000⟩]

theorem h2cDescriptors_wellFormed_scattered :
    ∃ chain last, ∀ content, ∃ allocated built descVirt log,
      (xdmaDescAlloc .big (some ⟨0x7000, content⟩)
        scatteredPages.length).result = .ok (some (allocated, 0x7000)) ∧
      transferBuild .big allocated scatteredPages 0 ⟨1, 0, 0, 1⟩ =
        ⟨.ok (built, last), []⟩ ∧
      h2cDescriptors .big (some ⟨0x7000, content⟩) scatteredPages 0
          ⟨1, 0, 0, 1⟩ = ⟨.ok (descVirt, 0x7000, last + 1), log⟩ ∧
      descVirt.take (last + 1) = chain ∧
      WellFormedChain .big 0x7000 descVirt last :=
  h2cDescriptors_wellFormed .big scatteredPages 0 ⟨1, 0, 0, 1⟩
    (List.cons_ne_nil _ _) (by decide)

end Xpcie
