import Xpcie.Write

/-!
# What a write stores in the device

The engine starts at the address in its registers and follows the chain of
descriptors.  The stores below are the byte moves it makes, with each bus
address resolved to the physical byte behind it.
-/

namespace Xpcie

open EffectLog

/-- A byte of physical memory, as scatterlist entries name it. -/
abbrev UserByte := Option Page × Nat

/-- The byte behind a virtual address. -/
def physicalByte (pageOf : Nat → Page) (address : Nat) : UserByte :=
  (some (pageOf (address / 4096)), address % 4096)

/-- The pages `get_user_pages_fast` pins are those of the buffer. -/
def UserPages.Back (user : UserPages) (pageOf : Nat → Page)
    (buf count : U64) : Prop :=
  ∀ i < pageSpan buf count, user.page i = pageOf (buf.toNat / 4096 + i)

/-- What the DMA API promises of a mapped table: no entry is empty, and the
bus addresses lead, in order, to the bytes of the scatterlist. -/
structure DmaMapping (translate : U64 → UserByte) (table : List Scatterlist)
    (mapped : List DmaSegment) : Prop where
  positive : ∀ entry ∈ mapped, 0 < entry.len.toNat
  covers : (mapped.flatMap DmaSegment.span).map translate =
    table.flatMap Scatterlist.bytes

/-- The stores a write of the buffer asks for. -/
def bufferStores (pageOf : Nat → Page) (buf count ppos : U64) :
    List (UserByte × Nat) :=
  (List.range count.toNat).map fun k =>
    (physicalByte pageOf (buf.toNat + k), ppos.toNat + k)

/-- The byte moves of the engine during a write, from source bus address to
device address, if the engine is started once and its chain ends. -/
def engineCopies (host : Endian) (registers : RegisterFile)
    (kernel : KernelCalls) (buf count ppos : U64) :
    Option (List (U64 × U64)) :=
  match (h2cPrepare host kernel buf count ppos).result,
    launches registers
      (accesses (xpcieH2cWrite host kernel buf count ppos).log) with
  | .ok transfer, [launched] =>
      followChain host (coherentRead transfer.descBus transfer.descVirt)
        transfer.descVirt.length launched.firstDesc
  | _, _ => none

/-- The same moves, with the source resolved to a byte of memory. -/
def engineStores (host : Endian) (registers : RegisterFile)
    (translate : U64 → UserByte) (kernel : KernelCalls)
    (buf count ppos : U64) : Option (List (UserByte × Nat)) :=
  (engineCopies host registers kernel buf count ppos).map <|
    List.map fun move => (translate move.1, move.2.toNat)

theorem span_length_sum (sgl : List DmaSegment) :
    (sgl.flatMap DmaSegment.span).length = groupBytes sgl := by
  simp [DmaSegment.span, List.length_flatMap, groupBytes]

theorem length_le_groupBytes {sgl : List DmaSegment}
    (positive : ∀ entry ∈ sgl, 0 < entry.len.toNat) :
    sgl.length ≤ groupBytes sgl := by
  induction sgl with
  | nil => exact Nat.le_refl 0
  | cons entry rest induction =>
      have first := positive entry List.mem_cons_self
      have later := induction fun other member =>
        positive other (List.mem_cons_of_mem entry member)
      have total : groupBytes (entry :: rest) =
          entry.len.toNat + groupBytes rest := by
        simp [groupBytes]
      rw [List.length_cons, total]
      omega

/-- A buffer seen through its pinned pages is the buffer. -/
theorem userByte_eq {user : UserPages} {pageOf : Nat → Page}
    {buf count : U64} (back : user.Back pageOf buf count) {k : Nat}
    (inside : k < count.toNat) :
    userByte user.page buf k = physicalByte pageOf (buf.toNat + k) := by
  have page := back ((buf.toNat % 4096 + k) / 4096) (by
    unfold pageSpan
    omega)
  have number : buf.toNat / 4096 + (buf.toNat % 4096 + k) / 4096 =
      (buf.toNat + k) / 4096 := by omega
  have offset : (buf.toNat % 4096 + k) % 4096 = (buf.toNat + k) % 4096 := by
    omega
  rw [userByte, physicalByte, page, number, offset]

section Copies

variable {kernel : KernelCalls} {buf count ppos : U64}
  {pageOf : Nat → Page} {translate : U64 → UserByte}

/-- The mapped table holds as many bytes as the buffer. -/
theorem groupBytes_mapped
    (mapping : DmaMapping translate
      (userSegments kernel.user.page buf count) (kernel.mapped buf count)) :
    groupBytes (kernel.mapped buf count) = count.toNat := by
  have lengths := congrArg List.length mapping.covers
  rw [List.length_map, span_length_sum, userSegments_bytes] at lengths
  simpa using lengths

theorem engineStores_eq (registers : RegisterFile)
    (admitted : count.toNat ≤ maxRwCount)
    (inFile : ppos.toNat + count.toNat ≤ 2 ^ 63)
    (succeed : kernel.Succeed buf count)
    (back : kernel.user.Back pageOf buf count)
    (mapping : DmaMapping translate
      (userSegments kernel.user.page buf count) (kernel.mapped buf count)) :
    engineStores .little registers translate kernel buf count ppos =
      some (bufferStores pageOf buf count ppos) := by
  obtain ⟨grant, allocated⟩ := succeed.allocated
  have total := groupBytes_mapped mapping
  have entries := length_le_groupBytes mapping.positive
  have prepared := h2cPrepare_ok .little ppos admitted succeed allocated
  obtain ⟨launched, launch, start⟩ := launches_transferAccesses
    (preparedTransfer .little kernel grant buf count ppos) kernel.status
    registers
  have small : groupBytes (kernel.mapped buf count) < 2 ^ 32 := by
    unfold maxRwCount at admitted
    omega
  have fits : xdmaDescSize * (kernel.mapped buf count).length ≤ 2 ^ 64 := by
    unfold xdmaDescSize
    omega
  have followed := followChain_mono
    (setUpList_followed .little grant (kernel.mapped buf count) ppos h2cFlags
      succeed.mapped (show h2cFlags.dirToDev ≠ 0 by decide) (.inr rfl) small
      fits)
    (transferBlocks_length_le h2cFlags ppos (kernel.mapped buf count))
  have copies : engineCopies .little registers kernel buf count ppos =
      some (((kernel.mapped buf count).flatMap DmaSegment.span).zip
        (AddressSpan.span ppos count.toNat)) := by
    rw [engineCopies, prepared,
      xpcieH2cWrite_accesses .little ppos admitted succeed allocated, launch]
    simp only [start, preparedTransfer, setUpList_length]
    rw [followed, total]
  have sources : ((kernel.mapped buf count).flatMap DmaSegment.span).map
      translate = (List.range count.toNat).map fun k =>
        physicalByte pageOf (buf.toNat + k) := by
    rw [mapping.covers, userSegments_bytes]
    apply List.map_congr_left
    intro k member
    exact userByte_eq back (List.mem_range.mp member)
  have destinations : (AddressSpan.span ppos count.toNat).map BitVec.toNat =
      (List.range count.toNat).map fun k => ppos.toNat + k := by
    rw [AddressSpan.span, List.map_map]
    apply List.map_congr_left
    intro k member
    have inside := List.mem_range.mp member
    simp only [Function.comp_apply, BitVec.toNat_add, BitVec.toNat_ofNat]
    omega
  calc engineStores .little registers translate kernel buf count ppos
      = some ((((kernel.mapped buf count).flatMap DmaSegment.span).zip
          (AddressSpan.span ppos count.toNat)).map
            (Prod.map translate BitVec.toNat)) := by
        rw [engineStores, copies]
        rfl
    _ = some ((((kernel.mapped buf count).flatMap DmaSegment.span).map
          translate).zip
            ((AddressSpan.span ppos count.toNat).map BitVec.toNat)) := by
        rw [List.zip_map]
    _ = some (bufferStores pageOf buf count ppos) := by
        rw [sources, destinations, List.zip_map', bufferStores]

/-- The whole buffer goes to the device, byte by byte and in order, and
nothing else does. -/
theorem xpcieH2cWrite_stores_buffer (registers : RegisterFile)
    (admitted : count.toNat ≤ maxRwCount)
    (inFile : ppos.toNat + count.toNat ≤ 2 ^ 63)
    (succeed : kernel.Succeed buf count)
    (back : kernel.user.Back pageOf buf count)
    (mapping : DmaMapping translate
      (userSegments kernel.user.page buf count) (kernel.mapped buf count)) :
    (xpcieH2cWrite .little kernel buf count ppos).result =
        .ok ((count.toNat : Int), ppos) ∧
      engineStores .little registers translate kernel buf count ppos =
        some ((List.range count.toNat).map fun k =>
          (physicalByte pageOf (buf.toNat + k), ppos.toNat + k)) := by
  obtain ⟨grant, allocated⟩ := succeed.allocated
  constructor
  · rw [xpcieH2cWrite_ok .little ppos admitted succeed allocated,
      toInt_of_admitted admitted]
  · exact engineStores_eq registers admitted inFile succeed back mapping

end Copies

/-- Resolves the bus addresses of a machine without an IOMMU. -/
def directByte (addr : U64) : UserByte :=
  (some (addr.toNat / 4096), addr.toNat % 4096)

/-- Four bytes that straddle a page boundary. -/
theorem xpcieH2cWrite_stores_buffer_straddling :
    (xpcieH2cWrite .little (directKernel 0x1ffe 4 2) 0x1ffe 4 0x100).result =
        .ok ((4 : Nat), 0x100) ∧
      engineStores .little idleRegisters directByte
          (directKernel 0x1ffe 4 2) 0x1ffe 4 0x100 =
        some ((List.range 4).map fun k =>
          (physicalByte id (0x1ffe + k), 0x100 + k)) :=
  xpcieH2cWrite_stores_buffer idleRegisters (by decide) (by decide)
    (directKernel_succeed 0x1ffe 2 (by decide)) (fun _ _ => rfl)
    { positive := by decide
      covers := by decide }

end Xpcie
