import Xpcie.Kernel
import Xpcie.Library.BoundedArray
import Xpcie.Library.AddressSpan

/-!
# Descriptors

A descriptor is eight 32-bit words in little-endian byte order.  Every field
below holds the word as the host stores it, so a value meant for the device
is converted with `cpuToLe32` before it is stored.
-/

namespace Xpcie

open EffectLog BoundedArray

/-- `struct xdma_desc` -/
structure XdmaDesc where
  control : U32
  bytes : U32
  srcAddrLo : U32
  srcAddrHi : U32
  dstAddrLo : U32
  dstAddrHi : U32
  nextLo : U32
  nextHi : U32
  deriving DecidableEq, Repr

/-- `sizeof(struct xdma_desc)` -/
def xdmaDescSize : Nat := 32

def maxExtraAdj : Int := 15
def lsByteMask : U32 := 0x000000FF
def xdmaDescMaxBytes : Nat := 2 ^ 18 - 1
def xdmaDescStopped : U32 := 1 <<< 0
def xdmaDescCompleted : U32 := 1 <<< 1
def xdmaDescEop : U32 := 1 <<< 4
def descMagic : U32 := 0xAD4B0000

/-! ## Allocation -/

/-- A grant of `pci_alloc_consistent`: a bus address, and what the memory
happens to contain. -/
structure Coherent where
  bus : U64
  content : Nat → XdmaDesc

/-- Create the singly-linked list; the array is what is left of it from the
current descriptor on, and `adj` counts down with it. -/
def xdmaDescAllocLoop (host : Endian) :
    U64 → Int → List XdmaDesc → List XdmaDesc
  | _, _, [] => []
  | _, _, [last] =>
      -- zero the last descriptor next pointer
      [{ last with
          nextLo := cpuToLe32 host 0
          nextHi := cpuToLe32 host 0
          bytes := cpuToLe32 host 0
          control := cpuToLe32 host descMagic }]
  | descBus, adj, desc :: second :: rest =>
      -- increment bus address to next in array
      let next := descBus + BitVec.ofNat 64 xdmaDescSize
      let extraAdj :=
        if adj > 0 then
          if adj - 1 > maxExtraAdj then maxExtraAdj else adj - 1
        else 0
      { desc with
        nextLo := cpuToLe32 host (pciDmaL next)
        nextHi := cpuToLe32 host (pciDmaH next)
        bytes := cpuToLe32 host 0
        control := cpuToLe32 host
          (descMagic ||| BitVec.ofInt 32 extraAdj <<< 8) } ::
        xdmaDescAllocLoop host next (if adj > 0 then adj - 1 else adj)
          (second :: rest)

/-- Returns the virtual and the bus address of the first descriptor. -/
def xdmaDescAlloc (host : Endian) (memory : Option Coherent)
    (number : Nat) : Exec (Option (List XdmaDesc × U64)) := do
  bugOn (number < 1)
  -- allocate a set of cache-coherent contiguous pages
  useDevice
  match memory with
  | none => pure none
  | some grant => do
      acquire (.coherent (number * xdmaDescSize) grant.bus)
      let descVirt := (List.range number).map grant.content
      pure (some
        (xdmaDescAllocLoop host grant.bus (number - 1) descVirt, grant.bus))

/-! ## Filling in -/

/-- Fill a descriptor with the transfer details.  Does not modify the next
pointer. -/
def xdmaDescSet (host : Endian) (rcBusAddr epAddr : U64) (len : U32)
    (dirToDev : Int) (desc : XdmaDesc) : XdmaDesc :=
  if dirToDev ≠ 0 then
    { desc with
      bytes := cpuToLe32 host len
      srcAddrLo := cpuToLe32 host (pciDmaL rcBusAddr)
      srcAddrHi := cpuToLe32 host (pciDmaH rcBusAddr)
      dstAddrLo := cpuToLe32 host (pciDmaL epAddr)
      dstAddrHi := cpuToLe32 host (pciDmaH epAddr) }
  else
    { desc with
      bytes := cpuToLe32 host len
      srcAddrLo := cpuToLe32 host (pciDmaL epAddr)
      srcAddrHi := cpuToLe32 host (pciDmaH epAddr)
      dstAddrLo := cpuToLe32 host (pciDmaL rcBusAddr)
      dstAddrHi := cpuToLe32 host (pciDmaH rcBusAddr) }

/-- Link a descriptor to the one at `second`, or terminate the list when
there is none. -/
def xdmaDescLink (host : Endian) (first : XdmaDesc)
    (second : Option U64) : XdmaDesc :=
  -- remember reserved control in first descriptor, but zero extra_adjacent!
  let control := le32ToCpu host first.control &&& 0x0000f0ff
  let control := control ||| descMagic
  match second with
  | some secondBus =>
      { first with
        nextLo := cpuToLe32 host (pciDmaL secondBus)
        nextHi := cpuToLe32 host (pciDmaH secondBus)
        control := cpuToLe32 host control }
  | none =>
      { first with
        nextLo := 0
        nextHi := 0
        control := cpuToLe32 host control }

/-- Set the complete control field of a descriptor. -/
def xdmaDescControl (host : Endian) (first : XdmaDesc)
    (controlField : U32) : Exec XdmaDesc := do
  -- remember magic and adjacent number
  let control := le32ToCpu host first.control &&& ~~~lsByteMask
  bugOn (controlField &&& ~~~lsByteMask ≠ 0)
  pure { first with control := cpuToLe32 host (control ||| controlField) }

def transferTerminate (host : Endian) (descVirt : List XdmaDesc)
    (last : Nat) : Exec (List XdmaDesc) := do
  let desc ← Run.demand descVirt[last]? .outOfBounds
  -- terminate last descriptor
  let desc := xdmaDescLink host desc none
  -- stop engine, EOP for AXI ST, req IRQ on last descriptor
  let control := xdmaDescStopped ||| xdmaDescEop ||| xdmaDescCompleted
  let desc ← xdmaDescControl host desc control
  pure (descVirt.set last desc)

/-- `extra_adj` as `xdma_desc_adjacent` computes it.  The comparison with the
distance to the page end is between unsigned words. -/
def xdmaExtraAdj (nextLo : U32) (nextAdjacent : Int) : Int :=
  if nextAdjacent > 0 then
    let extraAdj :=
      if nextAdjacent - 1 > maxExtraAdj then maxExtraAdj else nextAdjacent - 1
    let maxAdj4k : U32 := (0x1000 - (nextLo &&& 0xFFF)) / 32 - 1
    let extraAdj :=
      if BitVec.ofInt 32 extraAdj > maxAdj4k then maxAdj4k.toInt else extraAdj
    if extraAdj < 0 then 0 else extraAdj
  else 0

/-- Set how many descriptors are adjacent to this one. -/
def xdmaDescAdjacent (host : Endian) (nextAdjacent : Int)
    (desc : XdmaDesc) : XdmaDesc :=
  let extraAdj := xdmaExtraAdj (le32ToCpu host desc.nextLo) nextAdjacent
  -- remember reserved and control bits
  let control := le32ToCpu host desc.control &&& 0x0000f0ff
  let control := control ||| (descMagic ||| BitVec.ofInt 32 extraAdj <<< 8)
  { desc with control := cpuToLe32 host control }

/-! ## The device's view -/

section DeviceView

variable (host : Endian) (desc : XdmaDesc)

def XdmaDesc.source : U64 :=
  joinAddr (deviceWord host desc.srcAddrHi) (deviceWord host desc.srcAddrLo)

def XdmaDesc.destination : U64 :=
  joinAddr (deviceWord host desc.dstAddrHi) (deviceWord host desc.dstAddrLo)

def XdmaDesc.next : U64 :=
  joinAddr (deviceWord host desc.nextHi) (deviceWord host desc.nextLo)

def XdmaDesc.size : Nat :=
  (deviceWord host desc.bytes).toNat

def XdmaDesc.isStopped : Prop :=
  deviceWord host desc.control &&& xdmaDescStopped ≠ 0

instance : Decidable (desc.isStopped host) :=
  inferInstanceAs (Decidable (_ ≠ _))

/-- The byte moves one descriptor asks for, as source and destination. -/
def XdmaDesc.copies : List (U64 × U64) :=
  (AddressSpan.span (desc.source host) (desc.size host)).zip
    (AddressSpan.span (desc.destination host) (desc.size host))

end DeviceView

/-- The descriptor at a bus address inside the array at `descBus`. -/
def coherentRead (descBus : U64) (descVirt : List XdmaDesc)
    (addr : U64) : Option XdmaDesc :=
  let offset := (addr - descBus).toNat
  if offset % xdmaDescSize = 0 then descVirt[offset / xdmaDescSize]? else none

/-- Follow the next pointers until a descriptor stops the engine, collecting
the byte moves on the way. -/
def followChain (host : Endian) (memory : U64 → Option XdmaDesc) :
    Nat → U64 → Option (List (U64 × U64))
  | 0, _ => none
  | fuel + 1, addr => do
      let desc ← memory addr
      if desc.isStopped host then some (desc.copies host)
      else do
        let later ← followChain host memory fuel (desc.next host)
        some (desc.copies host ++ later)

/-! ## The control word -/

/-- Magic, adjacency count and flag byte of a control word. -/
def controlWord (extra field : Nat) : U32 :=
  (descMagic ||| BitVec.ofNat 32 extra <<< 8) ||| BitVec.ofNat 32 field

/-- The mask of the read-modify-write helpers clears the adjacency count
and the magic of every control word, and keeps its flags. -/
theorem controlWord_mask {extra field : Nat} (extraSmall : extra < 16)
    (fieldSmall : field < 256) :
    controlWord extra field &&& 0x0000f0ff = BitVec.ofNat 32 field := by
  have magic : descMagic &&& 0x0000f0ff = 0 := by decide
  have count : ∀ extra : Fin 16,
      BitVec.ofNat 32 extra <<< 8 &&& 0x0000f0ff = (0 : U32) := by decide
  have flags : ∀ field : Fin 256,
      BitVec.ofNat 32 field &&& 0x0000f0ff = BitVec.ofNat 32 field := by
    decide +kernel
  rw [controlWord, BitVec.and_or_distrib_right, BitVec.and_or_distrib_right,
    magic, count ⟨extra, extraSmall⟩, flags ⟨field, fieldSmall⟩,
    BitVec.or_self]
  exact BitVec.zero_or

theorem controlWord_clear {extra field : Nat} (extraSmall : extra < 16)
    (fieldSmall : field < 256) :
    controlWord extra field &&& ~~~lsByteMask = controlWord extra 0 := by
  have magic : descMagic &&& ~~~lsByteMask = descMagic := by decide
  have count : ∀ extra : Fin 16, BitVec.ofNat 32 extra <<< 8 &&& ~~~lsByteMask =
      BitVec.ofNat 32 extra <<< 8 := by decide
  have flags : ∀ field : Fin 256,
      BitVec.ofNat 32 field &&& ~~~lsByteMask = 0 := by
    decide +kernel
  rw [controlWord, BitVec.and_or_distrib_right, BitVec.and_or_distrib_right,
    magic, count ⟨extra, extraSmall⟩, flags ⟨field, fieldSmall⟩]
  rfl

theorem controlWord_zero_or (extra field : Nat) :
    controlWord extra 0 ||| BitVec.ofNat 32 field =
      controlWord extra field := by
  simp [controlWord]

theorem controlWord_of_field (extra field : Nat) :
    BitVec.ofNat 32 field ||| (descMagic ||| BitVec.ofNat 32 extra <<< 8) =
      controlWord extra field :=
  BitVec.or_comm _ _

/-- Linking drops the count of a control word and keeps its flags. -/
theorem controlWord_relinked {extra field : Nat} (extraSmall : extra < 16)
    (fieldSmall : field < 256) :
    controlWord extra field &&& 0x0000f0ff ||| descMagic =
      controlWord 0 field := by
  rw [controlWord_mask extraSmall fieldSmall]
  simpa using controlWord_of_field 0 field

theorem descMagic_eq_controlWord : descMagic = controlWord 0 0 := by
  decide

/-- The count always fits its four bits. -/
theorem xdmaExtraAdj_bounds (nextLo : U32) (nextAdjacent : Int) :
    0 ≤ xdmaExtraAdj nextLo nextAdjacent ∧
      xdmaExtraAdj nextLo nextAdjacent ≤ 15 := by
  unfold xdmaExtraAdj
  by_cases positive : nextAdjacent > 0
  · rw [if_pos positive]
    generalize (0x1000 - (nextLo &&& 0xFFF)) / 32 - 1 = maxAdj4k
    have clamped : (if nextAdjacent - 1 > maxExtraAdj then maxExtraAdj
        else nextAdjacent - 1) ≤ 15 ∧
          0 ≤ (if nextAdjacent - 1 > maxExtraAdj then maxExtraAdj
            else nextAdjacent - 1) := by
      unfold maxExtraAdj
      split
      · omega
      · omega
    generalize (if nextAdjacent - 1 > maxExtraAdj then maxExtraAdj
      else nextAdjacent - 1) = extraAdj at clamped
    have extraNat : (BitVec.ofInt 32 extraAdj).toNat = extraAdj.toNat := by
      rw [BitVec.toNat_ofInt]
      omega
    dsimp only
    by_cases exceeds : BitVec.ofInt 32 extraAdj > maxAdj4k
    · have small : maxAdj4k.toNat < 15 := by
        have below := BitVec.lt_def.mp exceeds
        omega
      have value : maxAdj4k.toInt = maxAdj4k.toNat := by
        rw [BitVec.toInt_eq_toNat_cond, if_pos (by omega)]
      rw [if_pos exceeds, value]
      split
      · omega
      · omega
    · rw [if_neg exceeds]
      split
      · omega
      · omega
  · rw [if_neg positive]
    omega

/-! ## What the helpers do to a control word -/

section ControlWord

variable {host : Endian} {desc : XdmaDesc} {extra field : Nat}

theorem xdmaDescLink_none (extraSmall : extra < 16) (fieldSmall : field < 256)
    (control : desc.control = cpuToLe32 host (controlWord extra field)) :
    xdmaDescLink host desc none =
      { desc with
        nextLo := 0
        nextHi := 0
        control := cpuToLe32 host (controlWord 0 field) } := by
  simp only [xdmaDescLink, control, le32ToCpu_cpuToLe32,
    controlWord_relinked extraSmall fieldSmall]

theorem xdmaDescControl_eq (extraSmall : extra < 16)
    (fieldSmall : field < 256)
    (control : desc.control = cpuToLe32 host (controlWord extra field))
    {newField : Nat} (newSmall : newField < 256) :
    xdmaDescControl host desc (BitVec.ofNat 32 newField) =
      ⟨.ok { desc with
        control := cpuToLe32 host (controlWord extra newField) }, []⟩ := by
  have flags : ∀ field : Fin 256,
      BitVec.ofNat 32 field &&& ~~~lsByteMask = 0 := by
    decide +kernel
  have accepted : ¬BitVec.ofNat 32 newField &&& ~~~lsByteMask ≠ 0 :=
    not_not_intro (flags ⟨newField, newSmall⟩)
  simp only [xdmaDescControl, bugOn_of_not accepted, control,
    le32ToCpu_cpuToLe32, controlWord_clear extraSmall fieldSmall,
    controlWord_zero_or, Run.ok_bind, Run.after_nil, Run.pure_eq]

theorem xdmaDescAdjacent_eq (extraSmall : extra < 16)
    (fieldSmall : field < 256)
    (control : desc.control = cpuToLe32 host (controlWord extra field))
    (nextAdjacent : Int) :
    xdmaDescAdjacent host nextAdjacent desc =
      { desc with
        control := cpuToLe32 host (controlWord
          (xdmaExtraAdj (le32ToCpu host desc.nextLo) nextAdjacent).toNat
          field) } := by
  have bounds := xdmaExtraAdj_bounds (le32ToCpu host desc.nextLo) nextAdjacent
  have word :
      BitVec.ofInt 32 (xdmaExtraAdj (le32ToCpu host desc.nextLo) nextAdjacent) =
        BitVec.ofNat 32
          (xdmaExtraAdj (le32ToCpu host desc.nextLo) nextAdjacent).toNat := by
    apply BitVec.eq_of_toNat_eq
    rw [BitVec.toNat_ofInt, BitVec.toNat_ofNat]
    omega
  simp only [xdmaDescAdjacent, control, le32ToCpu_cpuToLe32,
    controlWord_mask extraSmall fieldSmall, word, controlWord_of_field]

end ControlWord

/-! ## The allocated list -/

/-- Bus address of descriptor `i` of an array at `descBus`. -/
def descAddr (descBus : U64) (i : Nat) : U64 :=
  descBus + BitVec.ofNat 64 (xdmaDescSize * i)

/-- The adjacency count `xdma_desc_alloc` gives descriptor `i`. -/
def allocatedExtra (number i : Nat) : Nat :=
  if i + 1 < number then min (number - i - 2) 15 else 0

/-- What `xdma_desc_alloc` makes of descriptor `i` of `number`. -/
def allocatedDesc (host : Endian) (descBus : U64) (number i : Nat)
    (old : XdmaDesc) : XdmaDesc :=
  let next := if i + 1 < number then descAddr descBus (i + 1) else 0
  { old with
    nextLo := cpuToLe32 host (pciDmaL next)
    nextHi := cpuToLe32 host (pciDmaH next)
    bytes := cpuToLe32 host 0
    control := cpuToLe32 host (controlWord (allocatedExtra number i) 0) }

theorem allocatedExtra_lt (number i : Nat) : allocatedExtra number i < 16 := by
  unfold allocatedExtra
  split
  · omega
  · omega

private theorem allocatedDesc_shift (host : Endian) (descBus : U64)
    (number i : Nat) :
    allocatedDesc host (descBus + BitVec.ofNat 64 xdmaDescSize) number i =
      allocatedDesc host descBus (number + 1) (i + 1) := by
  have address : descAddr (descBus + BitVec.ofNat 64 xdmaDescSize) (i + 1) =
      descAddr descBus (i + 1 + 1) := by
    rw [descAddr, descAddr, BitVec.add_assoc, ← BitVec.ofNat_add]
    congr 2
    unfold xdmaDescSize
    omega
  have extra : allocatedExtra (number + 1) (i + 1) =
      allocatedExtra number i := by
    unfold allocatedExtra
    split <;> split <;> omega
  funext old
  simp [allocatedDesc, address, extra]

theorem xdmaDescAllocLoop_eq (host : Endian) (descBus : U64)
    (descs : List XdmaDesc) :
    xdmaDescAllocLoop host descBus (descs.length - 1) descs =
      descs.mapIdx (allocatedDesc host descBus descs.length) := by
  induction descs generalizing descBus with
  | nil => rfl
  | cons desc rest induction =>
      cases rest with
      | nil =>
          simp [xdmaDescAllocLoop, allocatedDesc, allocatedExtra,
            descMagic_eq_controlWord]
      | cons second rest =>
          have several :
              ((desc :: second :: rest).length - 1 : Int) > 0 := by
            simp only [List.length_cons]
            omega
          have countdown : ((desc :: second :: rest).length - 1 - 1 : Int) =
              (second :: rest).length - 1 := by
            simp only [List.length_cons]
            omega
          have clamp : (if ((second :: rest).length - 1 : Int) > maxExtraAdj
              then maxExtraAdj else ((second :: rest).length - 1 : Int)) =
                (allocatedExtra (rest.length + 2) 0 : Nat) := by
            have notLast : 0 + 1 < rest.length + 2 := by omega
            rw [allocatedExtra, if_pos notLast, List.length_cons, maxExtraAdj]
            omega
          have word : descMagic ||| BitVec.ofInt 32
              (allocatedExtra (rest.length + 2) 0 : Nat) <<< 8 =
                controlWord (allocatedExtra (rest.length + 2) 0) 0 := by
            simp [controlWord, BitVec.ofInt_natCast]
          have tail := induction (descBus + BitVec.ofNat 64 xdmaDescSize)
          have shift : allocatedDesc host
              (descBus + BitVec.ofNat 64 xdmaDescSize)
              (second :: rest).length =
                fun i => allocatedDesc host descBus
                  (desc :: second :: rest).length (i + 1) := by
            funext i
            exact allocatedDesc_shift host descBus (second :: rest).length i
          rw [xdmaDescAllocLoop, if_pos several, if_pos several, countdown,
            clamp, word, tail, shift, List.mapIdx_cons]
          simp [allocatedDesc, descAddr]

/-- The array a successful allocation of `number` descriptors hands out. -/
def allocatedList (host : Endian) (grant : Coherent) (number : Nat) :
    List XdmaDesc :=
  (List.range number).map fun i =>
    allocatedDesc host grant.bus number i (grant.content i)

@[simp] theorem allocatedList_length (host : Endian) (grant : Coherent)
    (number : Nat) : (allocatedList host grant number).length = number := by
  simp [allocatedList]

theorem xdmaDescAlloc_ok (host : Endian) (grant : Coherent) {number : Nat}
    (positive : 0 < number) :
    xdmaDescAlloc host (some grant) number =
      ⟨.ok (some (allocatedList host grant number, grant.bus)),
        [.useDevice, .acquire (.coherent (number * xdmaDescSize) grant.bus)]⟩
    := by
  have enough : ¬number < 1 := by omega
  have list := xdmaDescAllocLoop_eq host grant.bus
    ((List.range number).map grant.content)
  have filled : ((List.range number).map grant.content).mapIdx
      (allocatedDesc host grant.bus number) =
        allocatedList host grant number := by
    apply List.ext_getElem?
    intro index
    by_cases inside : index < number
    · simp [allocatedList, inside]
    · simp [allocatedList, inside]
  rw [List.length_map, List.length_range, filled] at list
  simp [xdmaDescAlloc, enough, list]

theorem xdmaDescAlloc_none (host : Endian) {number : Nat}
    (positive : 0 < number) :
    xdmaDescAlloc host none number = ⟨.ok none, [.useDevice]⟩ := by
  have enough : ¬number < 1 := by omega
  simp [xdmaDescAlloc, enough]

/-! ## Following a chain -/

theorem coherentRead_descAddr (descBus : U64) {descVirt : List XdmaDesc}
    {i : Nat} (fits : xdmaDescSize * descVirt.length ≤ 2 ^ 64)
    (inside : i < descVirt.length) :
    coherentRead descBus descVirt (descAddr descBus i) = descVirt[i]? := by
  have offset : (descAddr descBus i - descBus).toNat = xdmaDescSize * i := by
    rw [descAddr, BitVec.add_comm, BitVec.add_sub_cancel, BitVec.toNat_ofNat]
    unfold xdmaDescSize at *
    omega
  have aligned : xdmaDescSize * i % xdmaDescSize = 0 := Nat.mul_mod_right _ _
  have index : xdmaDescSize * i / xdmaDescSize = i :=
    Nat.mul_div_cancel_left i (by decide)
  simp only [coherentRead, offset, aligned, index, if_pos]

/-- A chain that was followed to its end needs no more fuel. -/
theorem followChain_mono {host : Endian} {memory : U64 → Option XdmaDesc}
    {fuel more : Nat} {addr : U64} {copies : List (U64 × U64)}
    (followed : followChain host memory fuel addr = some copies)
    (enough : fuel ≤ more) :
    followChain host memory more addr = some copies := by
  induction fuel generalizing more addr copies with
  | zero => cases followed
  | succ fuel induction =>
      obtain ⟨more, rfl⟩ := Nat.exists_eq_add_one_of_ne_zero
        (Nat.ne_of_gt (Nat.lt_of_lt_of_le (Nat.succ_pos fuel) enough))
      rw [followChain] at followed ⊢
      cases here : memory addr with
      | none =>
          rw [here] at followed
          cases followed
      | some desc =>
          rw [here] at followed
          simp only [Option.bind_eq_bind, Option.bind_some] at followed ⊢
          by_cases stopped : desc.isStopped host
          · rwa [if_pos stopped] at followed ⊢
          · rw [if_neg stopped] at followed ⊢
            obtain ⟨later, rest, result⟩ :=
              Option.bind_eq_some_iff.mp followed
            rw [induction rest (Nat.le_of_succ_le_succ enough)]
            exact result

/-- Descriptors `0` to `last` of the array lead to one another and only the
last one stops the engine. -/
structure Chained (host : Endian) (descBus : U64)
    (descVirt : List XdmaDesc) (last : Nat) : Prop where
  inside : last < descVirt.length
  stops : ∀ i desc, i ≤ last → descVirt[i]? = some desc →
    (desc.isStopped host ↔ i = last)
  leads : ∀ i desc, i < last → descVirt[i]? = some desc →
    desc.next host = descAddr descBus (i + 1)

theorem Chained.follow {host : Endian} {descBus : U64}
    {descVirt : List XdmaDesc} {last : Nat}
    (chained : Chained host descBus descVirt last)
    (fits : xdmaDescSize * descVirt.length ≤ 2 ^ 64)
    {remaining i : Nat} (position : i + remaining = last) :
    followChain host (coherentRead descBus descVirt) (remaining + 1)
        (descAddr descBus i) =
      some (((descVirt.drop i).take (remaining + 1)).flatMap
        (XdmaDesc.copies host)) := by
  have lastInside := chained.inside
  induction remaining generalizing i with
  | zero =>
      have here := List.getElem?_eq_getElem
        (show i < descVirt.length by omega)
      have stopped := (chained.stops i _ (by omega) here).mpr (by omega)
      have drop := List.drop_eq_getElem_cons
        (show i < descVirt.length by omega)
      rw [followChain, coherentRead_descAddr descBus fits
        (show i < descVirt.length by omega), here]
      simp only [Option.bind_eq_bind, Option.bind_some, if_pos stopped]
      rw [drop, List.take_succ_cons, List.take_zero, List.flatMap_singleton]
  | succ remaining induction =>
      have here := List.getElem?_eq_getElem
        (show i < descVirt.length by omega)
      have running := mt (chained.stops i _ (by omega) here).mp (by omega)
      have link := chained.leads i _ (by omega) here
      have drop := List.drop_eq_getElem_cons
        (show i < descVirt.length by omega)
      have later := induction (show i + 1 + remaining = last by omega)
      rw [followChain, coherentRead_descAddr descBus fits
        (show i < descVirt.length by omega), here]
      simp only [Option.bind_eq_bind, Option.bind_some, if_neg running, link,
        later]
      rw [drop, List.take_succ_cons, List.flatMap_cons]

end Xpcie
