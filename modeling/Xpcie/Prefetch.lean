import Xpcie.DescriptorChain
import Xpcie.Engine

/-!
# Prefetch blocks

The engine fetches descriptors in blocks.  The first block is announced in a
register, every other one by the last descriptor of the block before it.  The
counts must cover the whole chain without leaving the array or a page.
-/

namespace Xpcie

open EffectLog

/-- The adjacency count a descriptor announces for the block at its next
address. -/
def XdmaDesc.extraAdjacent (host : Endian) (desc : XdmaDesc) : Nat :=
  (deviceWord host desc.control >>> 8 &&& 0xF).toNat

/-- Fetch the descriptor at `addr` and the `extra` that follow it in memory.
Returns the addresses fetched, and the last descriptor. -/
def fetchBlock (memory : U64 → Option XdmaDesc) (addr : U64) :
    Nat → Option (List U64 × XdmaDesc)
  | 0 => do
      let desc ← memory addr
      some ([addr], desc)
  | extra + 1 => do
      let (fetched, _) ← fetchBlock memory addr extra
      let desc ← memory (descAddr addr (extra + 1))
      some (fetched ++ [descAddr addr (extra + 1)], desc)

/-- Fetch a block, then the block its last descriptor announces, and so on
until that descriptor stops the engine. -/
def prefetch (host : Endian) (memory : U64 → Option XdmaDesc) :
    Nat → U64 → Nat → Option (List U64)
  | 0, _, _ => none
  | fuel + 1, addr, extra => do
      let (fetched, desc) ← fetchBlock memory addr extra
      if desc.isStopped host then some fetched
      else do
        let later ← prefetch host memory fuel (desc.next host)
          (desc.extraAdjacent host)
        some (fetched ++ later)

/-- The block of `1 + extra` descriptors from descriptor `first` on lies
inside an array of `number` descriptors and inside one page. -/
structure PrefetchBlock (descBus : U64) (number first extra : Nat) : Prop where
  count : extra ≤ 15
  inside : first + extra < number
  page : (descAddr descBus first).toNat % 4096 +
    xdmaDescSize * (1 + extra) ≤ 4096

/-- What the engine relies on when it prefetches the `number` descriptors at
`descBus`, having been told of `firstExtra` that follow the first one. -/
structure PrefetchSafe (host : Endian) (descBus : U64)
    (descVirt : List XdmaDesc) (number firstExtra : Nat) : Prop where
  first : PrefetchBlock descBus number 0 firstExtra
  announced : ∀ i desc, i + 1 < number → descVirt[i]? = some desc →
    desc.next host = descAddr descBus (i + 1) ∧
      PrefetchBlock descBus number (i + 1) (desc.extraAdjacent host)
  final : ∀ desc, descVirt[number - 1]? = some desc →
    desc.extraAdjacent host = 0
  fetched : prefetch host (coherentRead descBus descVirt) number descBus
    firstExtra = some ((List.range number).map (descAddr descBus))
  once : ((List.range number).map (descAddr descBus)).Nodup

/-! ## The adjacency counts -/

theorem controlWord_extra {extra field : Nat} (extraSmall : extra < 16)
    (fieldSmall : field < 256) :
    (controlWord extra field >>> 8 &&& 0xF).toNat = extra := by
  have magic : descMagic >>> 8 &&& 0xF = 0 := by decide
  have count : ∀ extra : Fin 16,
      (BitVec.ofNat 32 extra <<< 8) >>> 8 &&& 0xF =
        BitVec.ofNat 32 extra := by decide
  have flags : ∀ field : Fin 256,
      BitVec.ofNat 32 field >>> 8 &&& 0xF = (0 : U32) := by
    decide +kernel
  rw [controlWord, BitVec.ushiftRight_or_distrib,
    BitVec.ushiftRight_or_distrib, BitVec.and_or_distrib_right,
    BitVec.and_or_distrib_right, magic, count ⟨extra, extraSmall⟩,
    flags ⟨field, fieldSmall⟩]
  simp only [BitVec.ofNat_eq_ofNat, BitVec.zero_or, BitVec.or_zero,
    BitVec.toNat_ofNat]
  omega

/-- In a page-aligned array the offset of a descriptor in its page does not
depend on where the array lies. -/
theorem descAddr_mod_page {descBus : U64}
    (aligned : descBus.toNat % 4096 = 0) (i : Nat) :
    (descAddr descBus i).toNat % 4096 = xdmaDescSize * (i % 128) := by
  rw [descAddr, BitVec.toNat_add, BitVec.toNat_ofNat, xdmaDescSize]
  omega

/-- The count is clamped by the descriptors left, by the field, and by the
end of the page the next descriptor lies in. -/
theorem xdmaExtraAdj_eq {nextLo : U32} {slot left : Nat}
    (position : nextLo.toNat % 4096 = xdmaDescSize * slot)
    (inPage : slot < 128) :
    xdmaExtraAdj nextLo (left + 1 : Nat) =
      (min (min left 15) (127 - slot) : Nat) := by
  have offset : (nextLo &&& 0xFFF).toNat = xdmaDescSize * slot := by
    have mask : (0xFFF : U32).toNat = 2 ^ 12 - 1 := rfl
    rw [BitVec.toNat_and, mask, Nat.and_two_pow_sub_one_eq_mod, position]
  have room : ((0x1000 - (nextLo &&& 0xFFF)) / 32 - 1 : U32).toNat =
      127 - slot := by
    generalize nextLo &&& 0xFFF = low at offset
    rw [xdmaDescSize] at offset
    simp only [BitVec.toNat_sub, BitVec.toNat_udiv, offset,
      BitVec.toNat_ofNat, BitVec.ofNat_eq_ofNat, Nat.reducePow,
      Nat.reduceMod]
    omega
  have positive : ((left + 1 : Nat) : Int) > 0 := by omega
  unfold xdmaExtraAdj
  rw [if_pos positive]
  generalize (0x1000 - (nextLo &&& 0xFFF)) / 32 - 1 = maxAdj4k at room
  have clamped : (if ((left + 1 : Nat) : Int) - 1 > maxExtraAdj then
      maxExtraAdj else ((left + 1 : Nat) : Int) - 1) = (min left 15 : Nat) := by
    unfold maxExtraAdj
    omega
  have signed : maxAdj4k.toInt = (127 - slot : Nat) := by
    rw [BitVec.toInt_eq_toNat_cond, room, if_pos (by omega)]
  have word : (BitVec.ofInt 32 (min left 15 : Nat)).toNat = min left 15 := by
    rw [BitVec.ofInt_natCast, BitVec.toNat_ofNat]
    omega
  dsimp only
  rw [clamped]
  by_cases exceeds : BitVec.ofInt 32 (min left 15 : Nat) > maxAdj4k
  · have less := BitVec.lt_def.mp exceeds
    rw [if_pos exceeds, signed, if_neg (by omega)]
    omega
  · have atMost := mt BitVec.lt_def.mpr exceeds
    rw [if_neg exceeds, if_neg (by omega)]
    omega

section SetUpDesc

variable (host : Endian) (descBus : U64) (dirToDev : Int) (number i : Nat)
  (block : Block) (old : XdmaDesc)

theorem setUpDesc_extraAdjacent :
    (setUpDesc host descBus dirToDev number i block old).extraAdjacent host =
      (xdmaExtraAdj (pciDmaL (nextDescAddr descBus number i))
        ((number : Int) - i - 1)).toNat := by
  have bounds := xdmaExtraAdj_bounds
    (pciDmaL (nextDescAddr descBus number i)) ((number : Int) - i - 1)
  rw [XdmaDesc.extraAdjacent, setUpDesc, Block.store_control,
    deviceWord_cpuToLe32]
  exact controlWord_extra (by omega) (flagByte_lt number i)

theorem setUpDesc_extraAdjacent_inner
    (aligned : descBus.toNat % 4096 = 0) (before : i + 1 < number) :
    (setUpDesc host descBus dirToDev number i block old).extraAdjacent host =
      min (min (number - i - 2) 15) (127 - (i + 1) % 128) := by
  have offset := descAddr_mod_page aligned (i + 1)
  have position : (pciDmaL (nextDescAddr descBus number i)).toNat % 4096 =
      xdmaDescSize * ((i + 1) % 128) := by
    rw [nextDescAddr, if_pos before, pciDmaL_toNat, ← offset]
    omega
  have left : (number : Int) - i - 1 = (number - i - 2 + 1 : Nat) := by
    omega
  rw [setUpDesc_extraAdjacent, left,
    xdmaExtraAdj_eq position (Nat.mod_lt _ (by decide)), Int.toNat_natCast]

theorem setUpDesc_extraAdjacent_last (isLast : i + 1 = number) :
    (setUpDesc host descBus dirToDev number i block old).extraAdjacent host =
      0 := by
  have none : (number : Int) - i - 1 = 0 := by omega
  rw [setUpDesc_extraAdjacent, none]
  rfl

end SetUpDesc

/-! ## Reading block by block -/

theorem descAddr_descAddr (descBus : U64) (i k : Nat) :
    descAddr (descAddr descBus i) k = descAddr descBus (i + k) := by
  rw [descAddr, descAddr, descAddr, BitVec.add_assoc, ← BitVec.ofNat_add,
    Nat.mul_add]

theorem descAddr_injective {descBus : U64} {number i k : Nat}
    (fits : xdmaDescSize * number ≤ 2 ^ 64) (first : i < number)
    (second : k < number) (same : descAddr descBus i = descAddr descBus k) :
    i = k := by
  have values := congrArg BitVec.toNat same
  rw [descAddr, descAddr, BitVec.toNat_add, BitVec.toNat_add,
    BitVec.toNat_ofNat, BitVec.toNat_ofNat] at values
  unfold xdmaDescSize at fits values
  omega

section Reading

variable {host : Endian} {descBus : U64} {descVirt : List XdmaDesc}

theorem fetchBlock_eq (fits : xdmaDescSize * descVirt.length ≤ 2 ^ 64)
    {first extra : Nat} {desc : XdmaDesc}
    (found : descVirt[first + extra]? = some desc) :
    fetchBlock (coherentRead descBus descVirt) (descAddr descBus first)
        extra =
      some ((List.range' first (extra + 1)).map (descAddr descBus), desc) := by
  have inside := (List.getElem?_eq_some_iff.mp found).1
  have here := coherentRead_descAddr descBus fits inside
  induction extra generalizing desc with
  | zero =>
      simp only [fetchBlock, Nat.add_zero] at here found ⊢
      rw [here, found]
      rfl
  | succ extra induction =>
      have before : first + extra < descVirt.length := by omega
      have earlier := induction (List.getElem?_eq_getElem before) before
        (coherentRead_descAddr descBus fits before)
      simp only [fetchBlock, earlier, descAddr_descAddr, here, found,
        Option.bind_eq_bind, Option.bind_some]
      have split : List.range' first (extra + 1 + 1) =
          List.range' first (extra + 1) ++ [first + (extra + 1)] :=
        List.range'_1_concat
      rw [split, List.map_append]
      rfl

/-- Counts that stay inside the array lead the reader through all of it,
because each block begins where the one before it ended. -/
theorem prefetch_eq {number : Nat} (enough : number ≤ descVirt.length)
    (fits : xdmaDescSize * descVirt.length ≤ 2 ^ 64)
    (stops : ∀ i desc, i < number → descVirt[i]? = some desc →
      (desc.isStopped host ↔ i + 1 = number))
    (announced : ∀ i desc, i + 1 < number → descVirt[i]? = some desc →
      desc.next host = descAddr descBus (i + 1) ∧
        i + 1 + desc.extraAdjacent host < number)
    {fuel first extra : Nat} (inside : first + extra < number)
    (enoughFuel : number ≤ first + fuel) :
    prefetch host (coherentRead descBus descVirt) fuel
        (descAddr descBus first) extra =
      some ((List.range' first (number - first)).map (descAddr descBus)) := by
  induction fuel generalizing first extra with
  | zero => omega
  | succ fuel induction =>
      have inArray : first + extra < descVirt.length := by omega
      have found := List.getElem?_eq_getElem inArray
      have block : fetchBlock (coherentRead descBus descVirt)
          (descAddr descBus first) extra = _ := fetchBlock_eq fits found
      have stop := stops _ _ inside found
      simp only [prefetch, block, Option.bind_eq_bind, Option.bind_some]
      by_cases isLast : first + extra + 1 = number
      · have whole : number - first = extra + 1 := by omega
        rw [if_pos (stop.mpr isLast), whole]
      · obtain ⟨link, next⟩ := announced _ _ (by omega) found
        have later := induction next (by omega)
        have split : List.range' first (number - first) =
            List.range' first (extra + 1) ++
              List.range' (first + extra + 1)
                (number - (first + extra + 1)) := by
          rw [Nat.add_assoc, List.range'_append_1]
          congr 1
          omega
        rw [if_neg (mt stop.mp isLast), link, later, split, List.map_append]
        rfl

end Reading

/-! ## The blocks of a transfer -/

section Transfer

variable {host : Endian} {grant : Coherent} {sgl : List DmaSegment}
  {epAddr : U64} {flags : BuildFlags}

theorem setUpList_announced (aligned : grant.bus.toNat % 4096 = 0) {i : Nat}
    {desc : XdmaDesc}
    (before : i + 1 < (transferBlocks flags epAddr sgl).length)
    (found : (setUpList host grant sgl epAddr flags)[i]? = some desc) :
    desc.next host = descAddr grant.bus (i + 1) ∧
      PrefetchBlock grant.bus (transferBlocks flags epAddr sgl).length (i + 1)
        (desc.extraAdjacent host) := by
  obtain ⟨block, _, rfl⟩ := setUpList_described host grant sgl epAddr flags
    (Nat.lt_of_succ_lt before) found
  have slot : (i + 1) % 128 < 128 := Nat.mod_lt _ (by decide)
  rw [setUpDesc_next, nextDescAddr, if_pos before,
    setUpDesc_extraAdjacent_inner host grant.bus flags.dirToDev _ i block _
      aligned before]
  refine ⟨rfl, ?_, ?_, ?_⟩
  · omega
  · omega
  · rw [descAddr_mod_page aligned]
    unfold xdmaDescSize
    omega

theorem setUpList_prefetchSafe (nonempty : sgl ≠ [])
    (aligned : grant.bus.toNat % 4096 = 0)
    (fits : xdmaDescSize * sgl.length ≤ 2 ^ 64) :
    PrefetchSafe host grant.bus (setUpList host grant sgl epAddr flags)
      (transferBlocks flags epAddr sgl).length
      (firstExtraAdj (transferBlocks flags epAddr sgl).length).toNat := by
  have blocks := transferBlocks_length_pos flags epAddr nonempty
  have bounded := transferBlocks_length_le flags epAddr sgl
  have chained := setUpList_chained host grant sgl epAddr flags nonempty
  have first : PrefetchBlock grant.bus (transferBlocks flags epAddr sgl).length 0
      (firstExtraAdj (transferBlocks flags epAddr sgl).length).toNat := by
    rw [firstExtraAdj_eq blocks, Int.toNat_natCast]
    refine ⟨?_, ?_, ?_⟩
    · omega
    · omega
    · rw [descAddr_mod_page aligned]
      unfold xdmaDescSize
      omega
  refine ⟨first, ?_, ?_, ?_, ?_⟩
  · intro i desc before found
    exact setUpList_announced aligned before found
  · intro desc found
    obtain ⟨block, _, rfl⟩ := setUpList_described host grant sgl epAddr flags
      (Nat.sub_one_lt_of_lt blocks) found
    apply setUpDesc_extraAdjacent_last
    omega
  · have stops : ∀ i desc, i < (transferBlocks flags epAddr sgl).length →
        (setUpList host grant sgl epAddr flags)[i]? = some desc →
        (desc.isStopped host ↔
          i + 1 = (transferBlocks flags epAddr sgl).length) := by
      intro i desc inside found
      rw [chained.stops i desc (by omega) found]
      omega
    have announced : ∀ i desc,
        i + 1 < (transferBlocks flags epAddr sgl).length →
        (setUpList host grant sgl epAddr flags)[i]? = some desc →
        desc.next host = descAddr grant.bus (i + 1) ∧
          i + 1 + desc.extraAdjacent host <
            (transferBlocks flags epAddr sgl).length := by
      intro i desc before found
      obtain ⟨link, block⟩ := setUpList_announced aligned before found
      exact ⟨link, block.inside⟩
    have walk := prefetch_eq
      (by rw [setUpList_length]; exact bounded)
      (by rw [setUpList_length]; exact fits) stops announced first.inside
      (Nat.zero_add (transferBlocks flags epAddr sgl).length).ge
    rw [Nat.sub_zero, ← List.range_eq_range'] at walk
    simpa [descAddr] using walk
  · apply List.Nodup.map_on _ List.nodup_range
    intro i first k second same
    exact descAddr_injective (Nat.le_trans (Nat.mul_le_mul_left _ bounded)
      fits) (List.mem_range.mp first) (List.mem_range.mp second) same

/-- The count reaches the register of a little-endian host's device. -/
theorem launches_firstDescAdjacent {transfer : XdmaTransfer} {number : Nat}
    (positive : 0 < number) (count : transfer.descAdjacent = number)
    (status : Nat → U32) (registers : RegisterFile) :
    ∃ launched,
      launches registers
        (accesses (transferStart .little transfer status).log) = [launched] ∧
      launched.firstDescAdjacent.toNat = (firstExtraAdj number).toNat := by
  refine ⟨_, rfl, ?_⟩
  change (BitVec.ofInt 32 (firstExtraAdj transfer.descAdjacent)).toNat = _
  rw [count, firstExtraAdj_eq positive, BitVec.ofInt_natCast,
    BitVec.toNat_ofNat, Int.toNat_natCast]
  omega

/-- However many descriptors a transfer has, the engine that prefetches them
block by block stays inside the array and inside a page, and fetches each
descriptor once and in order. -/
theorem h2cDescriptors_prefetchSafe {descVirt : List XdmaDesc}
    {number : Nat} {log : List Event} (nonempty : sgl ≠ [])
    (aligned : grant.bus.toNat % 4096 = 0)
    (fits : xdmaDescSize * sgl.length ≤ 2 ^ 64)
    (setUp : h2cDescriptors host (some grant) sgl epAddr flags =
      ⟨.ok (descVirt, grant.bus, number), log⟩) :
    1 ≤ number ∧
      PrefetchSafe host grant.bus descVirt number
        (firstExtraAdj number).toNat ∧
      ∀ (transfer : XdmaTransfer) (status : Nat → U32)
        (registers : RegisterFile), transfer.descAdjacent = number →
        ∃ launched,
          launches registers
            (accesses (transferStart .little transfer status).log) =
              [launched] ∧
          launched.firstDescAdjacent.toNat =
            (firstExtraAdj number).toNat := by
  rw [h2cDescriptors_eq host grant sgl epAddr flags nonempty] at setUp
  cases setUp
  have positive := transferBlocks_length_pos flags epAddr nonempty
  exact ⟨positive, setUpList_prefetchSafe nonempty aligned fits,
    fun _ status registers count =>
      launches_firstDescAdjacent positive count status registers⟩

end Transfer

theorem h2cDescriptors_prefetchSafe_scattered :
    1 ≤ 2 ∧
      PrefetchSafe .little 0x7000
        (setUpList .little ⟨0x7000, clearedMemory⟩ scatteredPages 0
          ⟨1, 0, 0, 1⟩) 2 (firstExtraAdj (2 : Nat)).toNat ∧
      ∀ (transfer : XdmaTransfer) (status : Nat → U32)
        (registers : RegisterFile), transfer.descAdjacent = (2 : Nat) →
        ∃ launched,
          launches registers
            (accesses (transferStart .little transfer status).log) =
              [launched] ∧
          launched.firstDescAdjacent.toNat =
            (firstExtraAdj (2 : Nat)).toNat :=
  h2cDescriptors_prefetchSafe (List.cons_ne_nil _ _) (by decide) (by decide)
    (h2cDescriptors_eq .little ⟨0x7000, clearedMemory⟩ scatteredPages 0
      ⟨1, 0, 0, 1⟩ (List.cons_ne_nil _ _))

end Xpcie
