import Xpcie.UserPages
import Xpcie.Write
import Xpcie.Library.WordAlignment

/-!
# Alignment

`xdma_desc_set` asks for lengths that are multiples of 4, and nobody checks
them.  The limit at which `transfer_build` breaks a descriptor is odd.  Yet a
buffer that is aligned is cut at page boundaries only, so whatever alignment
the write has, up to a page, the descriptors have as well.
-/

namespace Xpcie

open EffectLog BoundedArray WordAlignment

/-- The entry begins and ends on a multiple of `unit`. -/
structure Scatterlist.AlignedTo (unit : Nat) (entry : Scatterlist) :
    Prop where
  offset : Aligned unit entry.offset
  length : Aligned unit entry.length

structure DmaSegment.AlignedTo (unit : Nat) (segment : DmaSegment) :
    Prop where
  addr : Aligned unit segment.addr
  len : Aligned unit segment.len

/-- What the device reads in a descriptor are multiples of `unit`. -/
structure XdmaDesc.AlignedTo (host : Endian) (unit : Nat)
    (desc : XdmaDesc) : Prop where
  source : Aligned unit (desc.source host)
  destination : Aligned unit (desc.destination host)
  size : unit ∣ desc.size host

/-- Every entry is mapped by itself: its page to an aligned bus address, and
its offset and length are kept. -/
def MapsPageByPage (table : List Scatterlist) (mapped : List DmaSegment) :
    Prop :=
  List.Forall₂ (fun entry segment =>
    segment.len = entry.length ∧
      ∃ pageBus : U64, pageBus.toNat % 4096 = 0 ∧
        segment.addr = pageBus + entry.offset.setWidth 64) table mapped

section Unit

variable {unit : Nat}

/-! ## The entries of the table -/

theorem dvd_word32 (page : unit ∣ 4096) : unit ∣ 2 ^ 32 :=
  Nat.dvd_trans page (by decide)

theorem dvd_word64 (page : unit ∣ 4096) : unit ∣ 2 ^ 64 :=
  Nat.dvd_trans page (by decide)

theorem aligned_pageSize (page : unit ∣ 4096) : Aligned unit pageSize :=
  page

/-- A table is aligned as long as it is empty. -/
theorem sgInitTable_aligned {sgl table : List Scatterlist} {nents : Int}
    (returned : (sgInitTable sgl nents).result = .ok table) :
    AllBelow (Scatterlist.AlignedTo unit) nents.toNat table := by
  obtain ⟨_, required, demanded⟩ := Run.of_bind_ok returned
  have positive := Run.of_require_ok required
  have updated := Run.of_demand_ok demanded
  have fits := of_modifyRange_eq_some (show 0 < nents.toNat by omega) updated
  rw [modifyRange_eq _ fits] at updated
  obtain rfl := Option.some.inj updated
  intro i inside entry found
  rw [overRange_value_getElem? _ (by omega) inside] at found
  cases found
  exact ⟨aligned_zero 32 unit, aligned_zero 32 unit⟩

/-- The full pages of a buffer take whole pages off the count. -/
theorem populateMiddle_aligned (page : unit ∣ 4096)
    {pages : List (Option Page)} {remaining i nents : Nat} {count rest : U64}
    {sgl table : List Scatterlist} (countAligned : Aligned unit count)
    (aligned : AllBelow (Scatterlist.AlignedTo unit) nents sgl)
    (returned : (populateMiddle pages remaining i count sgl).result =
      .ok (rest, table)) :
    Aligned unit rest ∧
      AllBelow (Scatterlist.AlignedTo unit) nents table := by
  induction remaining generalizing i count sgl with
  | zero =>
      cases returned
      exact ⟨countAligned, aligned⟩
  | succ remaining induction =>
      obtain ⟨_, _, returned⟩ := Run.of_bind_ok returned
      obtain ⟨found, _, returned⟩ := Run.of_bind_ok returned
      obtain ⟨next, updated, returned⟩ := Run.of_bind_ok returned
      have nextAligned :
          AllBelow (Scatterlist.AlignedTo unit) nents next := by
        apply aligned.modifyAt _ (Run.of_demand_ok updated)
        intro entry _
        exact ⟨aligned_zero 32 unit, page⟩
      exact induction (countAligned.sub (dvd_word64 page)
        (aligned_pageSize page)) nextAligned returned

/-- Cutting an aligned buffer at page boundaries leaves aligned pieces. -/
theorem populateSgl_aligned (page : unit ∣ 4096)
    {pages : List (Option Page)} {nents : Nat} {nrPages : Int}
    {start count : U64} {sgl table : List Scatterlist}
    (nonempty : 0 < nents) (startAligned : Aligned unit start)
    (countAligned : Aligned unit count)
    (aligned : AllBelow (Scatterlist.AlignedTo unit) nents sgl)
    (returned : (populateSgl pages sgl start count nrPages).result =
      .ok table) :
    AllBelow (Scatterlist.AlignedTo unit) nents table := by
  obtain ⟨first, _, returned⟩ := Run.of_bind_ok returned
  obtain ⟨begun, updated, returned⟩ := Run.of_bind_ok returned
  have word := dvd_word32 page
  have offset : Aligned unit ((offsetInPage start).setWidth 32) := by
    apply Aligned.setWidth word
    rw [Aligned, offsetInPage_toNat]
    exact (Nat.dvd_mod_iff page).mpr startAligned
  have begunAligned : AllBelow (Scatterlist.AlignedTo unit) nents begun := by
    apply aligned.modifyAt _ (Run.of_demand_ok updated)
    intro entry _
    exact ⟨offset, aligned_zero 32 unit⟩
  by_cases several : nrPages > 1
  · rw [if_pos several] at returned
    obtain ⟨head, found, returned⟩ := Run.of_bind_ok returned
    have headAligned :=
      begunAligned 0 nonempty head (Run.of_demand_ok found)
    have length : Aligned unit
        ((pageSize - head.offset.setWidth 64).setWidth 32 : U32) := by
      apply Aligned.setWidth word
      apply (aligned_pageSize page).sub (dvd_word64 page)
      exact headAligned.offset.setWidth (dvd_word64 page)
    obtain ⟨opened, updated, returned⟩ := Run.of_bind_ok returned
    have openedAligned :
        AllBelow (Scatterlist.AlignedTo unit) nents opened := by
      apply begunAligned.modifyAt _ (Run.of_demand_ok updated)
      intro entry entryAligned
      exact ⟨entryAligned.offset, length⟩
    obtain ⟨⟨rest, filled⟩, middle, returned⟩ := Run.of_bind_ok returned
    have opening := countAligned.sub (dvd_word64 page)
      (length.setWidth (dvd_word64 page))
    obtain ⟨restAligned, filledAligned⟩ :=
      populateMiddle_aligned page opening openedAligned middle
    obtain ⟨_, _, returned⟩ := Run.of_bind_ok returned
    obtain ⟨final, _, returned⟩ := Run.of_bind_ok returned
    apply filledAligned.modifyAt _ (Run.of_demand_ok returned)
    intro entry _
    exact ⟨aligned_zero 32 unit, restAligned.setWidth word⟩
  · rw [if_neg several] at returned
    apply begunAligned.modifyAt _ (Run.of_demand_ok returned)
    intro entry entryAligned
    exact ⟨entryAligned.offset, countAligned.setWidth word⟩

/-- Pinning a buffer leaves entries as aligned as the buffer is. -/
theorem sgmGetUserPages_aligned (page : unit ∣ 4096) {user : UserPages}
    {sgm mapped : SgMapping} {start count : U64} {rc : Int}
    (startAligned : Aligned unit start) (countAligned : Aligned unit count)
    (returned : (sgmGetUserPages user sgm start count).result =
      .ok (rc, mapped)) :
    AllBelow (Scatterlist.AlignedTo unit) mapped.mappedPages.toNat
      mapped.sgl := by
  obtain ⟨table, cleared, returned⟩ := Run.of_bind_ok returned
  obtain ⟨_, required, _⟩ := Run.of_bind_ok cleared
  have positive := Run.of_require_ok required
  have tableAligned := @sgInitTable_aligned unit _ _ _ cleared
  obtain ⟨_, _, returned⟩ := Run.of_bind_ok returned
  obtain ⟨pages, _, returned⟩ := Run.of_bind_ok returned
  obtain ⟨_, _, returned⟩ := Run.of_bind_ok returned
  split at returned
  case isTrue short =>
    obtain ⟨_, _, returned⟩ := Run.of_bind_ok returned
    cases returned
    exact AllBelow.zero _ _
  case isFalse enough =>
    obtain ⟨_, all, returned⟩ := Run.of_bind_ok returned
    have complete := Decidable.not_not.mp (Run.of_require_ok all)
    obtain ⟨filled, populated, returned⟩ := Run.of_bind_ok returned
    cases returned
    have nonempty : 0 < user.rc.toNat := by omega
    rw [complete] at nonempty ⊢
    exact populateSgl_aligned page nonempty startAligned countAligned
      tableAligned populated

/-! ## The mapped segments -/

/-- Entry by entry, the bus sees the alignment of the table. -/
theorem MapsPageByPage.aligned (page : unit ∣ 4096) {table : List Scatterlist}
    {mapped : List DmaSegment} (maps : MapsPageByPage table mapped)
    (aligned : ∀ entry ∈ table, entry.AlignedTo unit) :
    ∀ segment ∈ mapped, segment.AlignedTo unit := by
  induction maps with
  | nil =>
      intro segment member
      cases member
  | cons here _ induction =>
      obtain ⟨entryAligned, tableAligned⟩ := List.forall_mem_cons.mp aligned
      obtain ⟨len, pageBus, pageAligned, addr⟩ := here
      apply List.forall_mem_cons.mpr ⟨?_, induction tableAligned⟩
      have bus : Aligned unit pageBus :=
        Nat.dvd_trans page (Nat.dvd_of_mod_eq_zero pageAligned)
      have offset := entryAligned.offset.setWidth (dvd_word64 page)
      constructor
      · rw [addr]
        exact bus.add (dvd_word64 page) offset
      · rw [len]
        exact entryAligned.length

/-! ## The descriptors -/

theorem xdmaDescSet_aligned (host : Endian) {rcBusAddr epAddr : U64}
    {len : U32} (busAligned : Aligned unit rcBusAddr)
    (epAligned : Aligned unit epAddr) (lenAligned : Aligned unit len)
    (dirToDev : Int) (desc : XdmaDesc) :
    (xdmaDescSet host rcBusAddr epAddr len dirToDev desc).AlignedTo host
      unit := by
  unfold xdmaDescSet
  split
  · constructor
    · simpa [XdmaDesc.source] using busAligned
    · simpa [XdmaDesc.destination] using epAligned
    · simpa [XdmaDesc.size, Aligned] using lenAligned
  · constructor
    · simpa [XdmaDesc.source] using epAligned
    · simpa [XdmaDesc.destination] using busAligned
    · simpa [XdmaDesc.size, Aligned] using lenAligned

/-- The variables of the loop stay aligned. -/
structure BuildState.AlignedTo (host : Endian) (unit : Nat)
    (state : BuildState) : Prop where
  contAddr : Aligned unit state.contAddr
  contLen : Aligned unit state.contLen
  epAddr : Aligned unit state.epAddr
  filled : AllBelow (XdmaDesc.AlignedTo host unit) state.j state.descVirt

theorem nextEpAddr_aligned (page : unit ∣ 4096) (flags : BuildFlags)
    {epAddr : U64} {contLen : U32} (epAligned : Aligned unit epAddr)
    (lenAligned : Aligned unit contLen) :
    Aligned unit (nextEpAddr flags epAddr contLen) := by
  have moved := epAligned.add (dvd_word64 page)
    (lenAligned.setWidth (dvd_word64 page))
  unfold nextEpAddr
  split
  · split
    · exact moved
    · exact epAligned
  · exact moved

/-- Wherever the loop breaks a descriptor, it breaks between two entries. -/
theorem transferBuildLoop_aligned (page : unit ∣ 4096) {host : Endian}
    {flags : BuildFlags} {sglNents : Nat} {entry : DmaSegment}
    {rest : List DmaSegment} {state : BuildState} {built : List XdmaDesc}
    {last : Nat} (begun : state.AlignedTo host unit)
    (segments : ∀ segment ∈ entry :: rest, segment.AlignedTo unit)
    (returned : (transferBuildLoop host flags sglNents entry rest
      state).result = .ok (built, last)) :
    AllBelow (XdmaDesc.AlignedTo host unit) (last + 1) built := by
  induction rest generalizing entry state with
  | nil =>
      have entryAligned := segments entry List.mem_cons_self
      have contLen := begun.contLen.add (dvd_word32 page) entryAligned.len
      obtain ⟨_, _, returned⟩ := Run.of_bind_ok returned
      obtain ⟨final, updated, returned⟩ := Run.of_bind_ok returned
      cases returned
      apply begun.filled.extend _ (Run.of_demand_ok updated)
      exact xdmaDescSet_aligned host begun.contAddr begun.epAddr contLen
        flags.dirToDev
  | cons next rest induction =>
      obtain ⟨entryAligned, later⟩ := List.forall_mem_cons.mp segments
      have nextAligned := later next List.mem_cons_self
      have contLen := begun.contLen.add (dvd_word32 page) entryAligned.len
      rw [transferBuildLoop] at returned
      split at returned
      case isTrue breaks =>
        obtain ⟨stored, updated, returned⟩ := Run.of_bind_ok returned
        apply induction _ later returned
        constructor
        · exact nextAligned.addr
        · exact aligned_zero 32 unit
        · exact nextEpAddr_aligned page flags begun.epAddr contLen
        · apply begun.filled.extend _ (Run.of_demand_ok updated)
          exact xdmaDescSet_aligned host begun.contAddr begun.epAddr contLen
            flags.dirToDev
      case isFalse goesOn =>
        apply induction _ later returned
        exact ⟨begun.contAddr, contLen, begun.epAddr, begun.filled⟩

theorem transferBuild_filled (page : unit ∣ 4096) {host : Endian}
    {descVirt built : List XdmaDesc} {sgl : List DmaSegment} {epAddr : U64}
    {flags : BuildFlags} {last : Nat} (epAligned : Aligned unit epAddr)
    (segments : ∀ segment ∈ sgl, segment.AlignedTo unit)
    (returned : (transferBuild host descVirt sgl epAddr flags).result =
      .ok (built, last)) :
    AllBelow (XdmaDesc.AlignedTo host unit) (last + 1) built := by
  cases sgl with
  | nil => cases returned
  | cons first rest =>
      apply transferBuildLoop_aligned page _ segments returned
      constructor
      · exact (segments first List.mem_cons_self).addr
      · exact aligned_zero 32 unit
      · exact epAligned
      · exact AllBelow.zero _ _

end Unit

/-- Whatever power of two up to the size of a page divides a buffer, its
length and the device address, divides all of every descriptor. -/
theorem transferBuild_aligned (host : Endian) {k : Nat} (withinPage : k ≤ 12)
    {user : UserPages} {sgm mapped : SgMapping} {buf count epAddr : U64}
    {rc : Int} {sgl : List DmaSegment} {flags : BuildFlags}
    {descVirt built : List XdmaDesc} {last : Nat}
    (bufAligned : 2 ^ k ∣ buf.toNat) (countAligned : 2 ^ k ∣ count.toNat)
    (epAligned : 2 ^ k ∣ epAddr.toNat)
    (pinned : (sgmGetUserPages user sgm buf count).result = .ok (rc, mapped))
    (maps : MapsPageByPage (mapped.sgl.take mapped.mappedPages.toNat) sgl)
    (returned : (transferBuild host descVirt sgl epAddr flags).result =
      .ok (built, last)) :
    ∀ i ≤ last, ∀ desc, built[i]? = some desc →
      desc.AlignedTo host (2 ^ k) := by
  have page : 2 ^ k ∣ 4096 := Nat.pow_dvd_pow 2 withinPage
  have table := sgmGetUserPages_aligned page bufAligned countAligned pinned
  have filled := transferBuild_filled page epAligned
    (maps.aligned page table.take) returned
  intro i inside
  exact filled i (Nat.lt_succ_of_le inside)

theorem transferBuild_aligned_straddling :
    ∃ rc mapped built last,
      (sgmGetUserPages (identityPages 2 1) (SgMapping.fresh 2) 0x1ff0
        0x20).result = .ok (rc, mapped) ∧
      (transferBuild .big (List.replicate 2 ⟨0, 0, 0, 0, 0, 0, 0, 0⟩)
        [⟨0x10ff0, 0x10⟩, ⟨0x30000, 0x10⟩] 0x100 h2cFlags).result =
          .ok (built, last) ∧
      ∀ i ≤ last, ∀ desc, built[i]? = some desc →
        desc.AlignedTo .big (2 ^ 4) := by
  refine ⟨_, _, _, _, rfl, rfl, ?_⟩
  have maps : MapsPageByPage
      [⟨some 1, 0xff0, 0x10⟩, ⟨some 2, 0, 0x10⟩]
      [⟨0x10ff0, 0x10⟩, ⟨0x30000, 0x10⟩] :=
    .cons ⟨rfl, 0x10000, by decide, by decide⟩
      (.cons ⟨rfl, 0x30000, by decide, by decide⟩ .nil)
  have pinned : (sgmGetUserPages (identityPages 2 1) (SgMapping.fresh 2)
      0x1ff0 0x20).result = .ok (_, _) := rfl
  have returned : (transferBuild .big
      (List.replicate 2 ⟨0, 0, 0, 0, 0, 0, 0, 0⟩)
      [⟨0x10ff0, 0x10⟩, ⟨0x30000, 0x10⟩] 0x100 h2cFlags).result =
        .ok (_, _) := rfl
  exact transferBuild_aligned .big (by decide) (by decide) (by decide)
    (by decide) pinned maps returned

end Xpcie
