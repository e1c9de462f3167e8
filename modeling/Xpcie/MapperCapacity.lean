import Xpcie.KernelPages

/-!
# The capacity check of a mapper

`sgm_kernel_pages` compares the pages of a buffer with the capacity of the
mapper.  Both numbers are computed as `unsigned long` and kept as `int`, and
what is lost on the way can turn the comparison round.
-/

namespace Xpcie

open EffectLog

/-- The page of a virtual page, seen from the buffer that begins at
`start`. -/
def vmallocLookup (vmallocToPage : U64 → Option Page) (start : U64)
    (page : Nat) : Page :=
  (vmallocToPage (BitVec.ofNat 64 (4096 * page + start.toNat % 4096))).getD 0

/-- The check on a mapper made for `maxLen` bytes is sound for a buffer. -/
structure CheckSound (vmallocToPage : U64 → Option Page) (sgm : SgMapping)
    (maxLen start count : U64) : Prop where
  refuses : sgm.pages.length < (touchedPages start count).card →
    (sgmKernelPages vmallocToPage sgm start count).result =
      .ok (-einval, sgm)
  accepts : count.toNat ≤ maxLen.toNat → ∀ left,
    (sgmKernelPages vmallocToPage sgm start count).result ≠
      .ok (-einval, left)
  /-- Past the check the call keeps to its arrays, and a table that was
  filled is the whole buffer. -/
  fills : (∀ left, (sgmKernelPages vmallocToPage sgm start count).result ≠
      .ok (-einval, left)) →
    ∃ rc left, (sgmKernelPages vmallocToPage sgm start count).result =
        .ok (rc, left) ∧
      (0 ≤ rc → DescribesBuffer left (vmallocLookup vmallocToPage start)
        start count (touchedPages start count).card)

/-- The pages of the buffer fit the arrays, or the buffer is too long and
its page count is still too large when only the low 32 bits are read, as a
signed number. -/
def CountKept (sgm : SgMapping) (maxLen start count : U64) : Prop :=
  (touchedPages start count).card ≤ sgm.pages.length ∨
    (maxLen.toNat < count.toNat ∧
      (sgm.pages.length : Int) <
        ((touchedPages start count).card : Int).bmod (2 ^ 32))

section Check

variable {vmallocToPage : U64 → Option Page} {sgm : SgMapping}
  {start count : U64}

/-- Without a wrap-around the page count is exact, up to its truncation. -/
theorem nrPages_eq_bmod (positive : 1 ≤ count.toNat)
    (noWrap : start.toNat + count.toNat < 2 ^ 64) :
    nrPages start count = (pageSpan start count : Int).bmod (2 ^ 32) := by
  have lastByte : (start + count - 1).toNat =
      start.toNat + count.toNat - 1 := by
    have one : (1 : U64).toNat = 1 := rfl
    rw [BitVec.toNat_sub, BitVec.toNat_add, one]
    omega
  have pages : (pageNumber (start + count - 1) - pageNumber start + 1).toNat =
      pageSpan start count := by
    have one : (1 : U64).toNat = 1 := rfl
    rw [BitVec.toNat_add, BitVec.toNat_sub, pageNumber_toNat,
      pageNumber_toNat, lastByte, one]
    unfold pageSpan
    omega
  rw [nrPages, intOfULong, BitVec.toInt_eq_toNat_bmod, BitVec.toNat_setWidth,
    pages, Int.natCast_emod, Int.emod_bmod]

/-- The call is refused exactly when the truncated count exceeds the
capacity. -/
theorem sgmKernelPages_refused_iff (positive : 1 ≤ count.toNat)
    (idle : sgm.mappedPages = 0) (noWrap : ¬start + count < start) :
    (∃ left, (sgmKernelPages vmallocToPage sgm start count).result =
        .ok (-einval, left)) ↔ sgm.maxPages < nrPages start count := by
  rw [sgmKernelPages_split positive idle noWrap]
  constructor
  · rintro ⟨left, refused⟩
    by_contra fits
    rw [if_neg fits] at refused
    obtain ⟨sgl, table, mapped⟩ := Run.of_bind_ok refused
    obtain ⟨_, someEntries, _⟩ := Run.of_bind_ok table
    have entries := Run.of_require_ok someEntries
    obtain ⟨⟨found, pages⟩, _, outcome⟩ := Run.of_bind_ok mapped
    cases found with
    | true =>
        obtain ⟨_, _, returned⟩ := Run.of_bind_ok outcome
        have rc : nrPages start count = -einval :=
          congrArg Prod.fst (Except.ok.inj returned)
        rw [einval] at rc
        omega
    | false =>
        have rc : -enomem = -einval :=
          congrArg Prod.fst (Except.ok.inj outcome)
        exact absurd rc (by decide)
  · intro exceeds
    rw [if_pos exceeds]
    exact ⟨sgm, rfl⟩

/-- The pages the lookup finds, by their number. -/
theorem vmallocLookup_step (vmallocToPage : U64 → Option Page) (start : U64)
    (i : Nat) :
    vmallocLookup vmallocToPage start ((pageNumber start).toNat + i) =
      (vmallocToPage (start + BitVec.ofNat 64 (4096 * i))).getD 0 := by
  have position : BitVec.ofNat 64
      (4096 * ((pageNumber start).toNat + i) + start.toNat % 4096) =
        start + BitVec.ofNat 64 (4096 * i) := by
    apply BitVec.eq_of_toNat_eq
    rw [BitVec.toNat_add, BitVec.toNat_ofNat, BitVec.toNat_ofNat,
      pageNumber_toNat]
    omega
  rw [vmallocLookup, position]

/-- A buffer the arrays have room for is mapped as a whole or not at all. -/
theorem sgmKernelPages_fills (positive : 1 ≤ count.toNat)
    (sized : sgm.Sized) (idle : sgm.mappedPages = 0)
    (within : pageSpan start count ≤ sgm.maxPages) :
    ∃ rc left, (sgmKernelPages vmallocToPage sgm start count).result =
        .ok (rc, left) ∧
      (0 ≤ rc → DescribesBuffer left (vmallocLookup vmallocToPage start)
        start count (pageSpan start count)) := by
  by_cases all : AllFound vmallocToPage start count
  · have run := sgmKernelPages_ok positive sized idle within all.noWrap
      all.page
    refine ⟨_, _, congrArg Run.result run, fun _ => ?_⟩
    apply pinnedMapper_describesBuffer positive (sized.fits within).1
    intro i _
    exact (vmallocLookup_step vmallocToPage start i).symm
  · obtain ⟨rc, left, run, failed, _, _⟩ :=
      sgmKernelPages_unmapped sized idle within all
    refine ⟨rc, left, congrArg Run.result run, fun returned => ?_⟩
    exact absurd returned (Int.not_le.mpr (failed positive))

/-- A call on a mapper that is not in use, for a buffer that is not empty
and does not wrap around. -/
structure CheckedCall (sgm : SgMapping) (start count : U64) : Prop where
  positive : 1 ≤ count.toNat
  noWrap : start.toNat + count.toNat < 2 ^ 64
  sized : sgm.Sized
  idle : sgm.mappedPages = 0

theorem CheckedCall.forward (call : CheckedCall sgm start count) :
    ¬start + count < start := by
  have noWrap := call.noWrap
  rw [BitVec.lt_def, BitVec.toNat_add, Nat.mod_eq_of_lt noWrap]
  omega

theorem CheckedCall.card (call : CheckedCall sgm start count) :
    (touchedPages start count).card = pageSpan start count :=
  touchedPages_card call.positive

/-- The two numbers that are compared. -/
theorem CheckedCall.exceeds_iff (call : CheckedCall sgm start count) :
    sgm.maxPages < nrPages start count ↔
      (sgm.pages.length : Int) <
        ((touchedPages start count).card : Int).bmod (2 ^ 32) := by
  rw [nrPages_eq_bmod call.positive call.noWrap, call.card, call.sized.pages]

/-- A sound check has counted the pages well enough. -/
theorem CheckedCall.countKept {maxLen : U64}
    (call : CheckedCall sgm start count)
    (sound : CheckSound vmallocToPage sgm maxLen start count) :
    CountKept sgm maxLen start count := by
  by_cases fits : (touchedPages start count).card ≤ sgm.pages.length
  · exact Or.inl fits
  · have einval := sound.refuses (Nat.lt_of_not_le fits)
    have tooLong : maxLen.toNat < count.toNat := by
      by_contra short
      exact sound.accepts (Nat.le_of_not_lt short) sgm einval
    have exceeds := (sgmKernelPages_refused_iff call.positive call.idle
      call.forward).mp ⟨sgm, einval⟩
    exact Or.inr ⟨tooLong, call.exceeds_iff.mp exceeds⟩

/-- A buffer that fits is never refused, and mapped as a whole if at all. -/
theorem CheckedCall.sound_of_fits {maxLen : U64}
    (call : CheckedCall sgm start count)
    (fits : (touchedPages start count).card ≤ sgm.pages.length) :
    CheckSound vmallocToPage sgm maxLen start count := by
  have length := call.sized.pages
  have bounded := call.sized.bounded
  have within : pageSpan start count ≤ sgm.maxPages := by
    rw [← call.card]
    omega
  have whole : ((touchedPages start count).card : Int).bmod (2 ^ 32) =
      (touchedPages start count).card :=
    Int.bmod_eq_of_le (by omega) (by omega)
  refine ⟨?_, fun _ left einval => ?_, fun _ => ?_⟩
  · intro beyond
    exact absurd fits (Nat.not_le_of_lt beyond)
  · have exceeds := (sgmKernelPages_refused_iff call.positive call.idle
      call.forward).mp ⟨left, einval⟩
    rw [call.exceeds_iff, whole] at exceeds
    omega
  · rw [call.card]
    exact sgmKernelPages_fills call.positive call.sized call.idle within

/-- A buffer that is too long is refused when its truncated count tells. -/
theorem CheckedCall.sound_of_exceeds {maxLen : U64}
    (call : CheckedCall sgm start count)
    (tooLong : maxLen.toNat < count.toNat)
    (exceeds : (sgm.pages.length : Int) <
      ((touchedPages start count).card : Int).bmod (2 ^ 32)) :
    CheckSound vmallocToPage sgm maxLen start count := by
  have einval : (sgmKernelPages vmallocToPage sgm start count).result =
      .ok (-einval, sgm) := by
    rw [sgmKernelPages_split call.positive call.idle call.forward,
      if_pos (call.exceeds_iff.mpr exceeds)]
  refine ⟨fun _ => einval, ?_, ?_⟩
  · intro short
    exact absurd short (Nat.not_le_of_lt tooLong)
  · intro notRefused
    exact absurd einval (notRefused sgm)

end Check

section Created

variable {vmallocToPage : U64 → Option Page} {allocs : MapperAllocs}
  {sgm : SgMapping} {maxLen start count : U64}

/-- The check refuses exactly what does not fit, unless the page count or
the capacity lost bits that mattered. -/
theorem checkSound_iff
    (made : (sgCreateMapper allocs maxLen).result = .ok (some sgm))
    (positive : 1 ≤ count.toNat)
    (noWrap : start.toNat + count.toNat < 2 ^ 64) :
    CheckSound vmallocToPage sgm maxLen start count ↔
      CountKept sgm maxLen start count := by
  have sized := sgCreateMapper_sized made
  have idle : sgm.mappedPages = 0 := by
    obtain ⟨_, _, _, rfl⟩ := sgCreateMapper_fresh made
    rfl
  have call : CheckedCall sgm start count := ⟨positive, noWrap, sized, idle⟩
  constructor
  · exact call.countKept
  · rintro (fits | ⟨tooLong, exceeds⟩)
    · exact call.sound_of_fits fits
    · exact call.sound_of_exceeds tooLong exceeds

end Created

theorem checkSound_iff_onePage :
    CheckSound (fun virt => some (virtualPage virt.toNat))
        (SgMapping.fresh 2) 1 0x1000 1 ↔
      CountKept (SgMapping.fresh 2) 1 0x1000 1 :=
  have made : (sgCreateMapper ⟨true, true, true⟩ 1).result =
      .ok (some (SgMapping.fresh 2)) := rfl
  checkSound_iff made (by decide) (by decide)

/-- A mapper for 16 TiB should have room for `2 ^ 32 + 2` pages.  It has room
for two, and refuses a buffer of three. -/
theorem not_checkSound_truncated :
    ¬∀ (vmallocToPage : U64 → Option Page) (allocs : MapperAllocs)
      (sgm : SgMapping) (maxLen start count : U64),
      (sgCreateMapper allocs maxLen).result = .ok (some sgm) →
      1 ≤ count.toNat → start.toNat + count.toNat < 2 ^ 64 →
      CheckSound vmallocToPage sgm maxLen start count := by
  intro always
  have made : (sgCreateMapper ⟨true, true, true⟩ 0x100000000000).result =
      .ok (some (SgMapping.fresh 2)) := rfl
  have sound := always (fun virt => some (virtualPage virt.toNat)) _ _ _
    0x1000 0x3000 made (by decide) (by decide)
  exact sound.accepts (by decide) (SgMapping.fresh 2) rfl

end Xpcie
