import Xpcie.Machine

/-!
# Mapping a BAR into user space

`xpcie_user_mmap` and `xpcie_h2c_mmap` differ in the BAR only.  Their guard
subtracts the offset from the length of the BAR before it compares, in
unsigned arithmetic.
-/

namespace Xpcie

/-- The first and the last bus address of a BAR; both are zero for one the
device does not have. -/
structure PciResource where
  start : U64
  last : U64
  deriving DecidableEq, Repr

def pciResourceStart (dev : Nat → PciResource) (bar : Nat) : U64 :=
  (dev bar).start

def pciResourceEnd (dev : Nat → PciResource) (bar : Nat) : U64 :=
  (dev bar).last

/-- The kernel's `pci_resource_len`. -/
def pciResourceLen (dev : Nat → PciResource) (bar : Nat) : U64 :=
  if pciResourceStart dev bar = 0 ∧
      pciResourceEnd dev bar = pciResourceStart dev bar then 0
  else pciResourceEnd dev bar - pciResourceStart dev bar + 1

/-- `struct vm_area_struct` -/
structure VmAreaStruct where
  vmStart : U64
  vmEnd : U64
  vmPgoff : U64
  vmPageProt : U64
  vmFlags : U64
  deriving DecidableEq, Repr

/-- `VM_IO | VM_DONTEXPAND | VM_DONTDUMP` -/
def vmemFlags : U64 := 0x00004000 ||| 0x00040000 ||| 0x04000000

/-- The arguments of a call of `io_remap_pfn_range`. -/
structure Remap where
  addr : U64
  pfn : U64
  size : U64
  prot : U64
  deriving DecidableEq, Repr

/-- The kernel's answers: `pgprot_noncached`, and the result of
`io_remap_pfn_range`. -/
structure MmapCalls where
  pgprotNoncached : U64 → U64
  ioRemapPfnRange : Remap → Int

structure MmapOutcome where
  rc : Int
  vma : VmAreaStruct
  remapped : Option Remap
  deriving DecidableEq, Repr

/-- The common body, for one BAR. -/
def mmapBar (bar : Nat) (calls : MmapCalls) (xpcieDev : Nat → PciResource)
    (vma : VmAreaStruct) : MmapOutcome :=
  let off := vma.vmPgoff <<< pageShift
  -- BAR physical address
  let phys := pciResourceStart xpcieDev bar + off
  let vsize := vma.vmEnd - vma.vmStart
  -- complete resource
  let psize := pciResourceEnd xpcieDev bar - pciResourceStart xpcieDev bar +
    1 - off
  if vsize > psize then
    { rc := -einval
      vma
      remapped := none }
  else
    let vma := { vma with
      vmPageProt := calls.pgprotNoncached vma.vmPageProt
      vmFlags := vma.vmFlags ||| vmemFlags }
    -- make MMIO accessible to user space
    let remap :=
      { addr := vma.vmStart
        pfn := phys >>> pageShift
        size := vsize
        prot := vma.vmPageProt }
    { rc := if calls.ioRemapPfnRange remap ≠ 0 then -eagain else 0
      vma
      remapped := some remap }

def xpcieUserMmap (calls : MmapCalls) (xpcieDev : Nat → PciResource)
    (vma : VmAreaStruct) : MmapOutcome :=
  mmapBar 0 calls xpcieDev vma

def xpcieH2cMmap (calls : MmapCalls) (xpcieDev : Nat → PciResource)
    (vma : VmAreaStruct) : MmapOutcome :=
  mmapBar 1 calls xpcieDev vma

/-! ## Confinement -/

/-- A resource as the PCI core sets it up. -/
structure PciResource.Valid (resource : PciResource) : Prop where
  ordered : resource.start.toNat ≤ resource.last.toNat
  small : resource.last.toNat < 2 ^ 63

/-- A request as `mmap` hands it to a driver. -/
structure VmAreaStruct.Valid (vma : VmAreaStruct) : Prop where
  representable : vma.vmPgoff.toNat * 4096 < 2 ^ 64
  nonempty : vma.vmStart.toNat < vma.vmEnd.toNat
  startAligned : vma.vmStart.toNat % 4096 = 0
  endAligned : vma.vmEnd.toNat % 4096 = 0

/-- Offset and size of the request, in bytes. -/
def VmAreaStruct.off (vma : VmAreaStruct) : Nat :=
  vma.vmPgoff.toNat * 4096

def VmAreaStruct.vsize (vma : VmAreaStruct) : Nat :=
  vma.vmEnd.toNat - vma.vmStart.toNat

/-- The requested physical window lies inside the BAR. -/
def InsideBar (dev : Nat → PciResource) (bar : Nat)
    (vma : VmAreaStruct) : Prop :=
  (pciResourceStart dev bar).toNat + vma.off + vma.vsize ≤
    (pciResourceStart dev bar).toNat + (pciResourceLen dev bar).toNat

/-- Exactly the windows inside the BAR are mapped, and the others refused. -/
def ConfinedTo (dev : Nat → PciResource) (bar : Nat) (vma : VmAreaStruct)
    (outcome : MmapOutcome) : Prop :=
  (outcome.remapped.isSome ↔ InsideBar dev bar vma) ∧
    (¬InsideBar dev bar vma → outcome.rc = -einval ∧ outcome.vma = vma)

/-- `end - start + 1`, which is the length of a BAR that is present. -/
def barSpan (dev : Nat → PciResource) (bar : Nat) : Nat :=
  (pciResourceEnd dev bar).toNat - (pciResourceStart dev bar).toNat + 1

section MmapBar

variable {bar : Nat} {dev : Nat → PciResource} {vma : VmAreaStruct}

theorem insideBar_iff (resource : (dev bar).Valid) (valid : vma.Valid) :
    InsideBar dev bar vma ↔ vma.off + vma.vsize ≤ barSpan dev bar := by
  obtain ⟨ordered, small⟩ := resource
  obtain ⟨_, nonempty, startAligned, endAligned⟩ := valid
  have ordered' : (pciResourceStart dev bar).toNat ≤
      (pciResourceEnd dev bar).toNat := ordered
  have small' : (pciResourceEnd dev bar).toNat < 2 ^ 63 := small
  unfold InsideBar barSpan pciResourceLen VmAreaStruct.vsize
  by_cases absent : pciResourceStart dev bar = 0 ∧
      pciResourceEnd dev bar = pciResourceStart dev bar
  · -- An absent BAR spans one byte by the formula; a request has a page.
    rw [if_pos absent, absent.2, absent.1]
    have zero : (0 : U64).toNat = 0 := rfl
    rw [zero]
    omega
  · rw [if_neg absent, BitVec.toNat_add, BitVec.toNat_sub_of_le ordered']
    have one : (1 : U64).toNat = 1 := rfl
    rw [one]
    omega

/-- What the guard compares, as naturals. -/
theorem guard_iff (resource : (dev bar).Valid) (valid : vma.Valid) :
    ¬vma.vmEnd - vma.vmStart > pciResourceEnd dev bar -
        pciResourceStart dev bar + 1 - (vma.vmPgoff <<< pageShift) ↔
      vma.off + vma.vsize ≤ barSpan dev bar ∨
        barSpan dev bar < vma.off ∧
          vma.off + vma.vsize ≤ 2 ^ 64 + barSpan dev bar := by
  have ordered : (pciResourceStart dev bar).toNat ≤
      (pciResourceEnd dev bar).toNat := resource.ordered
  have small : (pciResourceEnd dev bar).toNat < 2 ^ 63 := resource.small
  have representable : vma.off < 2 ^ 64 := valid.representable
  have sizeBound := vma.vmEnd.isLt
  have off : (vma.vmPgoff <<< pageShift).toNat = vma.off := by
    rw [BitVec.toNat_shiftLeft, Nat.shiftLeft_eq]
    exact Nat.mod_eq_of_lt representable
  have vsize : (vma.vmEnd - vma.vmStart).toNat = vma.vsize :=
    BitVec.toNat_sub_of_le (Nat.le_of_lt valid.nonempty)
  have span : (pciResourceEnd dev bar - pciResourceStart dev bar + 1).toNat =
      barSpan dev bar := by
    have one : (1 : U64).toNat = 1 := rfl
    rw [BitVec.toNat_add, BitVec.toNat_sub_of_le ordered, one, barSpan]
    omega
  have spanBound : barSpan dev bar ≤ 2 ^ 63 := by
    unfold barSpan
    omega
  have vsizeBound : vma.vsize < 2 ^ 64 := by
    unfold VmAreaStruct.vsize
    omega
  rw [gt_iff_lt, BitVec.lt_def, BitVec.toNat_sub, span, off, vsize, Nat.not_lt]
  clear off vsize span
  generalize barSpan dev bar = span at *
  generalize vma.off = offset at *
  rcases Nat.lt_or_ge span offset with beyond | within
  · -- The subtraction wraps, and nearly every size is below the result.
    have wrapped : (2 ^ 64 - offset + span) % 2 ^ 64 =
        2 ^ 64 - offset + span := by omega
    rw [wrapped]
    omega
  · have exact_ : (2 ^ 64 - offset + span) % 2 ^ 64 = span - offset := by
      omega
    rw [exact_]
    omega

theorem mmapBar_remapped (calls : MmapCalls) (resource : (dev bar).Valid)
    (valid : vma.Valid) :
    (mmapBar bar calls dev vma).remapped.isSome ↔
      vma.off + vma.vsize ≤ barSpan dev bar ∨
        barSpan dev bar < vma.off ∧
          vma.off + vma.vsize ≤ 2 ^ 64 + barSpan dev bar := by
  rw [← guard_iff resource valid, mmapBar]
  dsimp only
  split
  · rename_i refused
    exact iff_of_false Bool.false_ne_true (not_not_intro refused)
  · rename_i accepted
    exact iff_of_true rfl accepted

theorem mmapBar_refused (calls : MmapCalls)
    (refused : ¬(mmapBar bar calls dev vma).remapped.isSome) :
    (mmapBar bar calls dev vma).rc = -einval ∧
      (mmapBar bar calls dev vma).vma = vma := by
  rw [mmapBar] at refused ⊢
  dsimp only at refused ⊢
  split
  · exact ⟨rfl, rfl⟩
  · rename_i accepted
    rw [if_neg accepted] at refused
    exact absurd rfl refused

/-- The guard is right unless the offset lies past the end of the BAR and the
size does not make up for it. -/
theorem mmapBar_confined_iff (calls : MmapCalls)
    (resource : (dev bar).Valid) (valid : vma.Valid) :
    ConfinedTo dev bar vma (mmapBar bar calls dev vma) ↔
      vma.off ≤ barSpan dev bar ∨
        2 ^ 64 + barSpan dev bar < vma.off + vma.vsize := by
  have remapped := mmapBar_remapped calls resource valid
  have inside := insideBar_iff resource valid
  have requested : 0 < vma.vsize := Nat.sub_pos_of_lt valid.nonempty
  constructor
  · rintro ⟨confined, _⟩
    rw [remapped, inside] at confined
    omega
  · intro condition
    have confined : (mmapBar bar calls dev vma).remapped.isSome ↔
        InsideBar dev bar vma := by
      rw [remapped, inside]
      omega
    exact ⟨confined, fun outside =>
      mmapBar_refused calls (mt confined.mp outside)⟩

end MmapBar

theorem mmap_confined_iff (calls : MmapCalls) {xpcieDev : Nat → PciResource}
    {vma : VmAreaStruct} (userBar : (xpcieDev 0).Valid)
    (dmaBar : (xpcieDev 1).Valid) (valid : vma.Valid) :
    (ConfinedTo xpcieDev 0 vma (xpcieUserMmap calls xpcieDev vma) ↔
        vma.off ≤ barSpan xpcieDev 0 ∨
          2 ^ 64 + barSpan xpcieDev 0 < vma.off + vma.vsize) ∧
      (ConfinedTo xpcieDev 1 vma (xpcieH2cMmap calls xpcieDev vma) ↔
        vma.off ≤ barSpan xpcieDev 1 ∨
          2 ^ 64 + barSpan xpcieDev 1 < vma.off + vma.vsize) :=
  ⟨mmapBar_confined_iff calls userBar valid,
    mmapBar_confined_iff calls dmaBar valid⟩

/-! ## A window past the end -/

/-- A device with BARs of 64 KiB. -/
def smallBars : Nat → PciResource := fun _ =>
  { start := 0xf0000000
    last := 0xf000ffff }

/-- One page, 128 KiB into the file. -/
def pageBeyond : VmAreaStruct :=
  { vmStart := 0x10000
    vmEnd := 0x11000
    vmPgoff := 0x20
    vmPageProt := 0
    vmFlags := 0 }

theorem smallBars_valid (bar : Nat) : (smallBars bar).Valid where
  ordered := by simp [smallBars]
  small := by simp [smallBars]

theorem pageBeyond_valid : pageBeyond.Valid :=
  ⟨by decide, by decide, by decide, by decide⟩

def grantingCalls : MmapCalls :=
  { pgprotNoncached := id
    ioRemapPfnRange := fun _ => 0 }

theorem mmap_confined_iff_pageBeyond :
    (ConfinedTo smallBars 0 pageBeyond
          (xpcieUserMmap grantingCalls smallBars pageBeyond) ↔
        pageBeyond.off ≤ barSpan smallBars 0 ∨
          2 ^ 64 + barSpan smallBars 0 < pageBeyond.off + pageBeyond.vsize) ∧
      (ConfinedTo smallBars 1 pageBeyond
          (xpcieH2cMmap grantingCalls smallBars pageBeyond) ↔
        pageBeyond.off ≤ barSpan smallBars 1 ∨
          2 ^ 64 + barSpan smallBars 1 <
            pageBeyond.off + pageBeyond.vsize) :=
  mmap_confined_iff grantingCalls (smallBars_valid 0) (smallBars_valid 1)
    pageBeyond_valid

theorem not_confined_pageBeyond :
    ¬∀ (calls : MmapCalls) (xpcieDev : Nat → PciResource)
        (vma : VmAreaStruct),
      (xpcieDev 0).Valid → (xpcieDev 1).Valid → vma.Valid →
        ConfinedTo xpcieDev 0 vma (xpcieUserMmap calls xpcieDev vma) ∧
          ConfinedTo xpcieDev 1 vma (xpcieH2cMmap calls xpcieDev vma) := by
  intro confined
  obtain ⟨user, _⟩ := confined grantingCalls smallBars pageBeyond
    (smallBars_valid 0) (smallBars_valid 1) pageBeyond_valid
  have within := (mmapBar_confined_iff grantingCalls (smallBars_valid 0)
    pageBeyond_valid).mp user
  exact absurd within (by decide)

end Xpcie
