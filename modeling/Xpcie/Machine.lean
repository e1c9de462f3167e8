import Mathlib.Algebra.BigOperators.Group.List.Basic
import Mathlib.Algebra.Order.Ring.Int
import Mathlib.Data.List.FinRange

/-!
# Words, addresses and byte order

The fixed-width types of the driver and the conversions it makes between
them, for a 64-bit kernel with 4 KiB pages.
-/

namespace Xpcie

abbrev U8 := BitVec 8
abbrev U32 := BitVec 32
/-- `unsigned long`, `size_t`, `u64` and `dma_addr_t`. -/
abbrev U64 := BitVec 64

/-- Conversion of an `unsigned long` to `int`. -/
def intOfULong (value : U64) : Int :=
  (value.setWidth 32).toInt

theorem intOfULong_of_mod {value : U64} {low : Nat}
    (remainder : value.toNat % 2 ^ 32 = low) (small : low < 2 ^ 31) :
    intOfULong value = low := by
  have narrow : (value.setWidth 32).toNat = low := by
    rw [BitVec.toNat_setWidth, remainder]
  rw [intOfULong, BitVec.toInt_eq_toNat_cond, narrow, if_pos (by omega)]

/-! ## Error numbers -/

def eagain : Int := 11
def enomem : Int := 12
def einval : Int := 22

/-! ## Pages -/

def pageShift : Nat := 12
def pageSize : U64 := 1 <<< pageShift
def pageMask : U64 := ~~~(pageSize - 1)

/-- `(addr & PAGE_MASK) >> PAGE_SHIFT` -/
def pageNumber (addr : U64) : U64 :=
  (addr &&& pageMask) >>> pageShift

/-- The kernel's `offset_in_page`. -/
def offsetInPage (addr : U64) : U64 :=
  addr &&& ~~~pageMask

@[simp] theorem pageSize_toNat : pageSize.toNat = 4096 := rfl

@[simp] theorem pageNumber_toNat (addr : U64) :
    (pageNumber addr).toNat = addr.toNat / 4096 := by
  have unmasked : pageNumber addr = addr >>> 12 := by
    have maskBit : ∀ index < 52, pageMask.getLsbD (12 + index) = true := by
      decide
    apply BitVec.eq_of_getLsbD_eq
    intro index inside
    simp only [pageNumber, pageShift, BitVec.getLsbD_ushiftRight,
      BitVec.getLsbD_and]
    by_cases low : index < 52
    · rw [maskBit index low, Bool.and_true]
    · rw [BitVec.getLsbD_of_ge addr (12 + index) (by omega), Bool.false_and]
  rw [unmasked, BitVec.toNat_ushiftRight, Nat.shiftRight_eq_div_pow]

@[simp] theorem offsetInPage_toNat (addr : U64) :
    (offsetInPage addr).toNat = addr.toNat % 4096 := by
  have lowBits : (~~~pageMask).toNat = 2 ^ 12 - 1 := rfl
  rw [offsetInPage, BitVec.toNat_and, lowBits, Nat.and_two_pow_sub_one_eq_mod]

/-! ## Halves of a bus address -/

def pciDmaH (addr : U64) : U32 :=
  ((addr >>> 16) >>> 16).setWidth 32

def pciDmaL (addr : U64) : U32 :=
  (addr &&& 0xffffffff).setWidth 32

@[simp] theorem pciDmaH_zero : pciDmaH 0#64 = 0#32 := by decide

@[simp] theorem pciDmaL_zero : pciDmaL 0#64 = 0#32 := by decide

/-- The address a device forms from its two words. -/
def joinAddr (hi lo : U32) : U64 :=
  hi ++ lo

theorem pciDmaH_toNat (addr : U64) :
    (pciDmaH addr).toNat = addr.toNat / 2 ^ 32 := by
  have bound := addr.isLt
  simp only [pciDmaH, BitVec.toNat_setWidth, BitVec.toNat_ushiftRight,
    Nat.shiftRight_eq_div_pow]
  omega

theorem pciDmaL_toNat (addr : U64) :
    (pciDmaL addr).toNat = addr.toNat % 2 ^ 32 := by
  have mask : (0xffffffff : U64).toNat = 2 ^ 32 - 1 := rfl
  simp only [pciDmaL, BitVec.toNat_setWidth, BitVec.toNat_and, mask,
    Nat.and_two_pow_sub_one_eq_mod]
  omega

theorem joinAddr_toNat (hi lo : U32) :
    (joinAddr hi lo).toNat = hi.toNat * 2 ^ 32 + lo.toNat := by
  rw [joinAddr, BitVec.toNat_append,
    ← Nat.shiftLeft_add_eq_or_of_lt lo.isLt, Nat.shiftLeft_eq]

@[simp] theorem joinAddr_pciDma (addr : U64) :
    joinAddr (pciDmaH addr) (pciDmaL addr) = addr := by
  apply BitVec.eq_of_toNat_eq
  rw [joinAddr_toNat, pciDmaH_toNat, pciDmaL_toNat]
  omega

/-! ## Byte order -/

inductive Endian where
  | little
  | big
  deriving DecidableEq, Repr

def byteOf (word : U32) (index : Nat) : U8 :=
  word.extractLsb' (8 * index) 8

/-- The word whose least significant byte is `b0`. -/
def wordOf (b0 b1 b2 b3 : U8) : U32 :=
  b3 ++ b2 ++ b1 ++ b0

/-- Byte `index` of a word as the host lays it out in memory. -/
def storedByte (host : Endian) (word : U32) (index : Nat) : U8 :=
  match host with
  | .little => byteOf word index
  | .big => byteOf word (3 - index)

def swab32 (word : U32) : U32 :=
  wordOf (byteOf word 3) (byteOf word 2) (byteOf word 1) (byteOf word 0)

def cpuToLe32 (host : Endian) (word : U32) : U32 :=
  match host with
  | .little => word
  | .big => swab32 word

def le32ToCpu (host : Endian) (word : U32) : U32 :=
  match host with
  | .little => word
  | .big => swab32 word

/-- What a little-endian device reads where the host stored `word`. -/
def deviceWord (host : Endian) (word : U32) : U32 :=
  wordOf (storedByte host word 0) (storedByte host word 1)
    (storedByte host word 2) (storedByte host word 3)

theorem wordOf_byteOf (word : U32) :
    wordOf (byteOf word 0) (byteOf word 1) (byteOf word 2)
      (byteOf word 3) = word := by
  ext index inside
  simp only [wordOf, byteOf]
  grind

theorem byteOf_wordOf (b0 b1 b2 b3 : U8) :
    byteOf (wordOf b0 b1 b2 b3) 0 = b0 ∧ byteOf (wordOf b0 b1 b2 b3) 1 = b1 ∧
      byteOf (wordOf b0 b1 b2 b3) 2 = b2 ∧
      byteOf (wordOf b0 b1 b2 b3) 3 = b3 := by
  refine ⟨?_, ?_, ?_, ?_⟩ <;>
  · ext index inside
    simp only [wordOf, byteOf]
    grind

theorem swab32_swab32 (word : U32) : swab32 (swab32 word) = word := by
  obtain ⟨zero, one, two, three⟩ := byteOf_wordOf (byteOf word 3)
    (byteOf word 2) (byteOf word 1) (byteOf word 0)
  rw [swab32, swab32, zero, one, two, three, wordOf_byteOf]

@[simp] theorem le32ToCpu_cpuToLe32 (host : Endian) (word : U32) :
    le32ToCpu host (cpuToLe32 host word) = word := by
  cases host with
  | little => rfl
  | big => exact swab32_swab32 word

@[simp] theorem cpuToLe32_zero (host : Endian) :
    cpuToLe32 host 0#32 = 0#32 := by
  cases host <;> decide

@[simp] theorem le32ToCpu_zero (host : Endian) :
    le32ToCpu host 0#32 = 0#32 := by
  cases host <;> decide

/-- The device reads exactly the words the host converted before storing. -/
theorem deviceWord_eq_le32ToCpu (host : Endian) (word : U32) :
    deviceWord host word = le32ToCpu host word := by
  cases host with
  | little => exact wordOf_byteOf word
  | big => rfl

@[simp] theorem deviceWord_cpuToLe32 (host : Endian) (word : U32) :
    deviceWord host (cpuToLe32 host word) = word := by
  rw [deviceWord_eq_le32ToCpu, le32ToCpu_cpuToLe32]

end Xpcie
