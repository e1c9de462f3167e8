import Xpcie.WriteCopies

/-!
# Writes one after another

A buffer is written in two parts, the second at the file position the first
one left.  `xpcie_h2c_write` leaves the position where it was, so the parts
land on top of each other.
-/

namespace Xpcie

open EffectLog

/-- A write of `count` bytes at `buf`, with all that makes it succeed. -/
structure SuccessfulWrite (pageOf : Nat → Page) (buf count : U64) where
  kernel : KernelCalls
  translate : U64 → UserByte
  /-- The device's registers when the write is called. -/
  registers : RegisterFile
  admitted : count.toNat ≤ maxRwCount
  succeed : kernel.Succeed buf count
  back : kernel.user.Back pageOf buf count
  mapping : DmaMapping translate (userSegments kernel.user.page buf count)
    (kernel.mapped buf count)

/-- The last store to a device address. -/
def deviceImage (stores : List (UserByte × Nat)) (address : Nat) :
    Option UserByte :=
  (stores.reverse.find? fun store => store.2 = address).map Prod.fst

namespace SuccessfulWrite

variable {pageOf : Nat → Page} {buf count a b : U64}

def result (write : SuccessfulWrite pageOf buf count) (ppos : U64) :
    Except Fault (Int × U64) :=
  (xpcieH2cWrite .little write.kernel buf count ppos).result

def stores (write : SuccessfulWrite pageOf buf count) (ppos : U64) :
    Option (List (UserByte × Nat)) :=
  engineStores .little write.registers write.translate write.kernel buf count
    ppos

/-- Returning `n` goes with advancing `*ppos` by `n`. -/
def AdvancesPosition (write : SuccessfulWrite pageOf buf count)
    (ppos : U64) : Prop :=
  ∀ n position, write.result ppos = .ok (n, position) →
    (position.toNat : Int) = ppos.toNat + n

/-- The second part, written at the position the first one left, completes
the image one write of the whole leaves. -/
def Composes (first : SuccessfulWrite pageOf buf a)
    (second : SuccessfulWrite pageOf (buf + a) b)
    (whole : SuccessfulWrite pageOf buf (a + b)) (ppos : U64) : Prop :=
  ∀ n position storesFirst storesSecond storesWhole,
    first.result ppos = .ok (n, position) →
    first.stores ppos = some storesFirst →
    second.stores position = some storesSecond →
    whole.stores ppos = some storesWhole →
    deviceImage (storesFirst ++ storesSecond) = deviceImage storesWhole

theorem result_eq (write : SuccessfulWrite pageOf buf count) (ppos : U64) :
    write.result ppos = .ok (count.toInt, ppos) := by
  obtain ⟨grant, allocated⟩ := write.succeed.allocated
  rw [result, xpcieH2cWrite_ok .little ppos write.admitted write.succeed
    allocated]

theorem stores_eq (write : SuccessfulWrite pageOf buf count) {ppos : U64}
    (inFile : ppos.toNat + count.toNat ≤ 2 ^ 63) :
    write.stores ppos = some (bufferStores pageOf buf count ppos) :=
  engineStores_eq write.registers write.admitted inFile write.succeed
    write.back write.mapping

end SuccessfulWrite

/-! ## Images -/

theorem deviceImage_eq_none {stores : List (UserByte × Nat)} {address : Nat} :
    deviceImage stores address = none ↔
      ∀ store ∈ stores, store.2 ≠ address := by
  simp [deviceImage]

theorem mem_bufferStores {pageOf : Nat → Page} {buf count ppos : U64}
    {store : UserByte × Nat} :
    store ∈ bufferStores pageOf buf count ppos ↔
      ∃ k < count.toNat,
        store = (physicalByte pageOf (buf.toNat + k), ppos.toNat + k) := by
  simp [bufferStores, eq_comm]

/-- The stores of a buffer are those of its parts, the second of which
starts where the first ends. -/
theorem bufferStores_add (pageOf : Nat → Page) {buf a b ppos : U64}
    (inSpace : buf.toNat + a.toNat + b.toNat ≤ 2 ^ 64)
    (positive : 0 < b.toNat)
    (inFile : ppos.toNat + a.toNat + b.toNat ≤ 2 ^ 63) :
    bufferStores pageOf buf (a + b) ppos =
      bufferStores pageOf buf a ppos ++
        bufferStores pageOf (buf + a) b (ppos + a) := by
  have total : (a + b).toNat = a.toNat + b.toNat := by
    rw [BitVec.toNat_add]
    omega
  have start : (buf + a).toNat = buf.toNat + a.toNat := by
    rw [BitVec.toNat_add]
    omega
  have position : (ppos + a).toNat = ppos.toNat + a.toNat := by
    rw [BitVec.toNat_add]
    omega
  rw [bufferStores, total, List.range_add, List.map_append, List.map_map,
    bufferStores, bufferStores, start, position]
  simp only [Function.comp_def, Nat.add_assoc]

namespace SuccessfulWrite

variable {pageOf : Nat → Page} {buf a b ppos : U64}

theorem not_advancesPosition (write : SuccessfulWrite pageOf buf a)
    (ppos : U64) : ¬write.AdvancesPosition ppos := by
  intro advances
  have moved := advances a.toInt ppos (write.result_eq ppos)
  have requested := write.succeed.requested
  rw [toInt_of_admitted write.admitted] at moved
  omega

/-- Both parts land at `ppos`, so the last byte of the whole is missing. -/
theorem not_composes (first : SuccessfulWrite pageOf buf a)
    (second : SuccessfulWrite pageOf (buf + a) b)
    (whole : SuccessfulWrite pageOf buf (a + b))
    (inFile : ppos.toNat + a.toNat + b.toNat ≤ 2 ^ 63) :
    ¬first.Composes second whole ppos := by
  intro composes
  have firstSome := first.succeed.requested
  have secondSome := second.succeed.requested
  have total : (a + b).toNat = a.toNat + b.toNat := by
    rw [BitVec.toNat_add]
    omega
  have same := congrFun (composes a.toInt ppos _ _ _ (first.result_eq ppos)
    (first.stores_eq (by omega)) (second.stores_eq (by omega))
    (whole.stores_eq (by omega))) (ppos.toNat + (a.toNat + b.toNat - 1))
  have missing : deviceImage (bufferStores pageOf buf a ppos ++
      bufferStores pageOf (buf + a) b ppos)
        (ppos.toNat + (a.toNat + b.toNat - 1)) = none := by
    rw [deviceImage_eq_none]
    intro store member
    rcases List.mem_append.mp member with early | late
    · obtain ⟨k, inside, rfl⟩ := mem_bufferStores.mp early
      dsimp only
      omega
    · obtain ⟨k, inside, rfl⟩ := mem_bufferStores.mp late
      dsimp only
      omega
  rw [missing, eq_comm, deviceImage_eq_none] at same
  exact same _ (mem_bufferStores.mpr
    ⟨a.toNat + b.toNat - 1, by omega, rfl⟩) rfl

end SuccessfulWrite

/-- The parts never make up the whole.  They would if the second one were
written at the position advanced by the first. -/
theorem splitWrites_never_compose {pageOf : Nat → Page} {buf a b ppos : U64}
    (first : SuccessfulWrite pageOf buf a)
    (second : SuccessfulWrite pageOf (buf + a) b)
    (whole : SuccessfulWrite pageOf buf (a + b))
    (inSpace : buf.toNat + a.toNat + b.toNat ≤ 2 ^ 64)
    (inFile : ppos.toNat + a.toNat + b.toNat ≤ 2 ^ 63) :
    ¬first.AdvancesPosition ppos ∧ ¬first.Composes second whole ppos ∧
      ∃ storesFirst storesSecond,
        first.stores ppos = some storesFirst ∧
          second.stores (ppos + a) = some storesSecond ∧
          whole.stores ppos = some (storesFirst ++ storesSecond) := by
  have secondSome := second.succeed.requested
  have total : (a + b).toNat = a.toNat + b.toNat := by
    rw [BitVec.toNat_add]
    omega
  have position : (ppos + a).toNat = ppos.toNat + a.toNat := by
    rw [BitVec.toNat_add]
    omega
  refine ⟨first.not_advancesPosition ppos,
    first.not_composes second whole inFile, _, _, first.stores_eq (by omega),
    second.stores_eq (by omega), ?_⟩
  rw [whole.stores_eq (by omega),
    bufferStores_add pageOf inSpace secondSome inFile]

/-- A write on a machine without an IOMMU. -/
def directWrite (buf count : U64) (requested : 0 < count.toNat)
    (admitted : count.toNat ≤ maxRwCount)
    (mapping : DmaMapping directByte
      (userSegments (directKernel buf count 2).user.page buf count)
      ((directKernel buf count 2).mapped buf count)) :
    SuccessfulWrite id buf count where
  kernel := directKernel buf count 2
  translate := directByte
  registers := idleRegisters
  admitted := admitted
  succeed := directKernel_succeed buf 2 requested
  back := fun _ _ => rfl
  mapping := mapping

def firstByte : SuccessfulWrite id 0x1000 1 :=
  directWrite 0x1000 1 (by decide) (by decide)
    { positive := by decide
      covers := by decide }

def secondByte : SuccessfulWrite id (0x1000 + 1) 1 :=
  directWrite (0x1000 + 1) 1 (by decide) (by decide)
    { positive := by decide
      covers := by decide }

def bothBytes : SuccessfulWrite id 0x1000 (1 + 1) :=
  directWrite 0x1000 (1 + 1) (by decide) (by decide)
    { positive := by decide
      covers := by decide }

theorem splitWrites_never_compose_two_bytes :
    ¬firstByte.AdvancesPosition 0 ∧
      ¬firstByte.Composes secondByte bothBytes 0 ∧
      ∃ storesFirst storesSecond,
        firstByte.stores 0 = some storesFirst ∧
          secondByte.stores (0 + 1) = some storesSecond ∧
          bothBytes.stores 0 = some (storesFirst ++ storesSecond) :=
  splitWrites_never_compose firstByte secondByte bothBytes (by decide)
    (by decide)

theorem not_compose_two_bytes :
    ¬∀ (pageOf : Nat → Page) (buf a b ppos : U64)
        (first : SuccessfulWrite pageOf buf a)
        (second : SuccessfulWrite pageOf (buf + a) b)
        (whole : SuccessfulWrite pageOf buf (a + b)),
      buf.toNat + a.toNat + b.toNat ≤ 2 ^ 64 →
      ppos.toNat + a.toNat + b.toNat ≤ 2 ^ 63 →
        first.AdvancesPosition ppos ∧ first.Composes second whole ppos := by
  intro compose
  exact firstByte.not_advancesPosition 0 (compose id 0x1000 1 1 0 firstByte
    secondByte bothBytes (by decide) (by decide)).1

end Xpcie
