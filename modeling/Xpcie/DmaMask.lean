import Xpcie.Write

/-!
# Descriptors below 4 GiB

`set_dma_mask` asks for 64-bit addresses for the data and for 32-bit ones for
the descriptors.  `xpcie_probe` does not look at its result, nor does it look
at those of `pci_set_consistent_dma_mask`.
-/

namespace Xpcie

open EffectLog

/-- Which masks the platform accepts for the device, by their width. -/
structure DmaSupport where
  streaming : Nat → Bool
  consistent : Nat → Bool

/-- The widths of the addresses the device is given. -/
structure DmaMasks where
  streaming : Nat
  consistent : Nat
  deriving DecidableEq, Repr

/-- The masks of a device nobody has set any for. -/
def pciDefaultMasks : DmaMasks :=
  { streaming := 32
    consistent := 32 }

/-- `pci_set_consistent_dma_mask`; no caller looks at its result. -/
def pciSetConsistentDmaMask (support : DmaSupport) (width : Nat)
    (masks : DmaMasks) : DmaMasks :=
  if support.consistent width then { masks with consistent := width }
  else masks

def setDmaMask (support : DmaSupport) (masks : DmaMasks) : Int × DmaMasks :=
  -- 64-bit addressing capability for XDMA?
  if support.streaming 64 then
    -- use 32-bit DMA for descriptors
    (0, pciSetConsistentDmaMask support 32 { masks with streaming := 64 })
  else if support.streaming 32 then
    (0, pciSetConsistentDmaMask support 32 { masks with streaming := 32 })
  else (-1, masks)

/-- The masks of a device that has been probed again and again. -/
def masksAfter (probes : List DmaSupport) : DmaMasks :=
  probes.foldl (fun masks support => (setDmaMask support masks).2)
    pciDefaultMasks

/-- What `pci_alloc_consistent` keeps to. -/
def Coherent.Within (grant : Coherent) (size width : Nat) : Prop :=
  grant.bus.toNat + size ≤ 2 ^ width

/-! ## The consistent mask -/

theorem pciSetConsistentDmaMask_consistent (support : DmaSupport)
    {masks : DmaMasks} (narrow : masks.consistent = 32) :
    (pciSetConsistentDmaMask support 32 masks).consistent = 32 := by
  rw [pciSetConsistentDmaMask]
  split
  · rfl
  · exact narrow

theorem setDmaMask_consistent (support : DmaSupport) {masks : DmaMasks}
    (narrow : masks.consistent = 32) :
    (setDmaMask support masks).2.consistent = 32 := by
  rw [setDmaMask]
  split
  · exact pciSetConsistentDmaMask_consistent support narrow
  · split
    · exact pciSetConsistentDmaMask_consistent support narrow
    · exact narrow

/-- Whatever the platform accepts, the descriptors stay where they were. -/
theorem masksAfter_consistent (probes : List DmaSupport) :
    (masksAfter probes).consistent = 32 := by
  rw [masksAfter]
  induction probes using List.reverseRecOn with
  | nil => rfl
  | append_singleton probes support induction =>
      rw [List.foldl_append]
      exact setDmaMask_consistent support induction

/-! ## High words -/

theorem pciDmaH_of_small {addr : U64} (small : addr.toNat < 2 ^ 32) :
    pciDmaH addr = 0 := by
  apply BitVec.eq_of_toNat_eq
  rw [pciDmaH_toNat, Nat.div_eq_of_lt small]
  rfl

/-- The descriptors of a call lie below 4 GiB, and so does all that points to
them. -/
structure LowDescriptors (call : WriteCall) (host : Endian) : Prop where
  first : ∀ value, Access.write .firstDescHi value ∈ call.program host →
    value = 0
  next : ∀ transfer, call.transfer host = some transfer → ∀ (i : Nat) desc,
    (i : Int) < transfer.descNum → transfer.descVirt[i]? = some desc →
      desc.nextHi = 0

theorem nextDescAddr_small {grant : Coherent} {number entries i : Nat}
    (within : grant.Within (entries * xdmaDescSize) 32)
    (bounded : number ≤ entries) :
    (nextDescAddr grant.bus number i).toNat < 2 ^ 32 := by
  have room : grant.bus.toNat + entries * xdmaDescSize ≤ 2 ^ 32 := within
  rw [nextDescAddr]
  split
  · rename_i more
    have offset : xdmaDescSize * (i + 1) < entries * xdmaDescSize := by
      unfold xdmaDescSize
      omega
    rw [descAddr, BitVec.toNat_add, BitVec.toNat_ofNat]
    omega
  · decide

theorem writes_descriptors_low (probes : List DmaSupport) {call : WriteCall}
    (admitted : call.Admitted)
    (within : ∀ grant, call.kernel.coherent = some grant → grant.Within
      ((call.kernel.mapped call.buf call.count).length * xdmaDescSize)
      (masksAfter probes).consistent) (host : Endian) :
    LowDescriptors call host := by
  rw [masksAfter_consistent] at within
  by_cases succeed : call.kernel.Succeed call.buf call.count
  · obtain ⟨grant, allocated⟩ := succeed.allocated
    have room := within grant allocated
    have prepared := h2cPrepare_ok host call.ppos admitted.count succeed
      allocated
    have entries := List.length_pos_iff.mpr succeed.mapped
    constructor
    · intro value member
      have bus : grant.bus.toNat < 2 ^ 32 := by
        have total : grant.bus.toNat + _ * xdmaDescSize ≤ 2 ^ 32 := room
        unfold xdmaDescSize at total
        omega
      rw [WriteCall.program, WriteCall.run, xpcieH2cWrite_accesses host
        call.ppos admitted.count succeed allocated] at member
      simp only [transferAccesses, List.mem_cons, List.not_mem_nil,
        Access.write.injEq, reduceCtorEq, false_and, true_and, or_false,
        false_or] at member
      rw [member]
      change cpuToLe32 host (pciDmaH grant.bus) = 0
      rw [pciDmaH_of_small bus]
      exact cpuToLe32_zero host
    · intro transfer running i desc inside found
      rw [WriteCall.transfer, prepared] at running
      cases running
      have bounded := transferBlocks_length_le h2cFlags call.ppos
        (call.kernel.mapped call.buf call.count)
      obtain ⟨block, _, rfl⟩ := setUpList_described host grant
        (call.kernel.mapped call.buf call.count) call.ppos h2cFlags
        (Int.ofNat_lt.mp inside) found
      have small := @nextDescAddr_small grant _ _ i room bounded
      rw [setUpDesc, Block.store_nextHi, pciDmaH_of_small small]
      exact cpuToLe32_zero host
  · rcases admitted.program_cases host with ⟨_, none, nothing⟩ | ⟨ran, _⟩
    · constructor
      · intro value member
        rw [nothing] at member
        cases member
      · intro transfer running
        rw [none] at running
        cases running
    · exact absurd ran succeed

/-- A platform without 64-bit addresses. -/
def narrowPlatform : DmaSupport :=
  { streaming := fun width => width == 32
    consistent := fun _ => false }

theorem writes_descriptors_low_oneByteWrite :
    LowDescriptors oneByteWrite .big :=
  writes_descriptors_low [narrowPlatform]
    ⟨by decide, by decide⟩
    (by
      intro grant allocated
      cases allocated
      change _ ≤ 2 ^ (masksAfter [narrowPlatform]).consistent
      decide)
    .big

end Xpcie
