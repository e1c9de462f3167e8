import Xpcie.Mapper
import Mathlib.Data.Finset.Image
import Mathlib.Order.Interval.Finset.Nat

/-!
# Pinning a user buffer

A call of `sgm_get_user_pages` that pins every page leaves entries that read
back to exactly the bytes of the buffer.  One that does not leaves the pages
as it found them, and nothing in the mapper a later call could see.
-/

namespace Xpcie

open EffectLog BoundedArray

/-! ## The pages of a buffer -/

/-- Number of the page a byte of memory lies in. -/
def virtualPage (byte : Nat) : Nat :=
  byte / 4096

/-- The pages that hold a byte of the buffer. -/
def touchedPages (start count : U64) : Finset Nat :=
  (Finset.range count.toNat).image fun k => virtualPage (start.toNat + k)

theorem touchedPages_eq_Ico {start count : U64}
    (positive : 1 ≤ count.toNat) :
    touchedPages start count =
      Finset.Ico (start.toNat / 4096)
        (start.toNat / 4096 + pageSpan start count) := by
  ext page
  simp only [touchedPages, virtualPage, Finset.mem_image, Finset.mem_range,
    Finset.mem_Ico, pageSpan]
  constructor
  · rintro ⟨k, inside, rfl⟩
    omega
  · rintro ⟨lower, upper⟩
    -- The first byte of the page, or of the buffer.
    refine ⟨max (4096 * page) start.toNat - start.toNat, ?_, ?_⟩
    · omega
    · omega

theorem touchedPages_card {start count : U64} (positive : 1 ≤ count.toNat) :
    (touchedPages start count).card = pageSpan start count := by
  rw [touchedPages_eq_Ico positive, Nat.card_Ico]
  omega

/-! ## Reading the entries back -/

/-- The virtual addresses an entry stands for, when its page is `page`. -/
def Scatterlist.virtualBytes (entry : Scatterlist) (page : Nat) : List Nat :=
  (List.range entry.length.toNat).map fun k =>
    4096 * page + entry.offset.toNat + k

/-- The mapper describes the buffer, entry `i` with the page of virtual page
`first + i`. -/
structure DescribesBuffer (sgm : SgMapping) (lookup : Nat → Page)
    (start count : U64) (nents : Nat) : Prop where
  entries : ∀ i < nents, ∃ entry, sgm.sgl[i]? = some entry ∧
    sgm.pages[i]? = some entry.page ∧
    entry.page = some (lookup ((pageNumber start).toNat + i)) ∧
    entry.offset.toNat + entry.length.toNat ≤ 4096 ∧
    1 ≤ entry.length.toNat
  bytes : ((sgm.sgl.take nents).mapIdx fun i entry =>
      entry.virtualBytes ((pageNumber start).toNat + i)).flatten =
    List.range' start.toNat count.toNat
  total : ((sgm.sgl.take nents).map fun entry => entry.length.toNat).sum =
    count.toNat
  mapped : sgm.mappedPages = nents

section Pinned

variable {user : UserPages} {sgm : SgMapping} {start count : U64}
  {lookup : Nat → Page}

/-- Put back at their virtual addresses, the entries are the buffer. -/
theorem userSegments_virtualBytes (page : Nat → Page) (start count : U64) :
    ((userSegments page start count).mapIdx fun i entry =>
        entry.virtualBytes ((pageNumber start).toNat + i)).flatten =
      List.range' start.toNat count.toNat := by
  have leadSmall : start.toNat % 4096 < 4096 := by omega
  have begins : start.toNat =
      4096 * (start.toNat / 4096) + start.toNat % 4096 := by omega
  have spanEq : pageSpan start count =
      (start.toNat % 4096 + count.toNat + 4095) / 4096 := rfl
  rw [List.range'_eq_map_range, pageNumber_toNat, userSegments]
  generalize start.toNat / 4096 = first at *
  generalize start.toNat % 4096 = lead at *
  have indexed : ((List.range (pageSpan start count)).map
      (userSegment page lead count.toNat)).mapIdx (fun i entry =>
        entry.virtualBytes (first + i)) =
      (List.range (pageSpan start count)).map fun i =>
        (userSegment page lead count.toNat i).virtualBytes (first + i) := by
    apply List.ext_getElem?
    intro i
    by_cases inside : i < pageSpan start count
    · simp [inside]
    · simp [inside]
  have entry : ∀ i ∈ List.range (pageSpan start count),
      (userSegment page lead count.toNat i).virtualBytes (first + i) =
        (List.range (min (lead + count.toNat) (4096 * (i + 1)) -
          max lead (4096 * i))).map fun k =>
            4096 * first + (max lead (4096 * i) + k) := by
    intro i _
    obtain ⟨offset, length⟩ :=
      userSegment_fields page leadSmall count.toNat i
    rw [Scatterlist.virtualBytes, offset, length]
    apply List.map_congr_left
    intro k _
    omega
  have size : min (lead + count.toNat) (4096 * pageSpan start count) - lead =
      count.toNat := by omega
  rw [indexed, ← List.flatMap_def, List.flatMap_congr entry,
    AddressSpan.flatMap_blocks (fun position => 4096 * first + position),
    size]
  apply List.map_congr_left
  intro k _
  omega

theorem pinnedMapper_describesBuffer (positive : 1 ≤ count.toNat)
    (fits : sgm.Fits start count)
    (pages : ∀ i < pageSpan start count,
      user.page i = lookup ((pageNumber start).toNat + i)) :
    DescribesBuffer (pinnedMapper user sgm start count) lookup start count
      (pageSpan start count) := by
  have leadSmall : start.toNat % 4096 < 4096 := by omega
  have table : (pinnedMapper user sgm start count).sgl.take _ = _ :=
    pinnedMapper_sgl_take fits
  constructor
  · intro i inside
    have entry : (pinnedMapper user sgm start count).sgl[i]? = _ :=
      pinnedMapper_sgl_getElem? fits inside
    obtain ⟨offset, length⟩ :=
      userSegment_fields user.page leadSmall count.toNat i
    have spanEq : pageSpan start count =
        (start.toNat % 4096 + count.toNat + 4095) / 4096 := rfl
    refine ⟨_, entry, pinnedMapper_pages_getElem? fits inside, ?_, ?_, ?_⟩
    · rw [← pages i inside]
      rfl
    · rw [offset, length]
      omega
    · rw [length]
      omega
  · rw [table]
    exact userSegments_virtualBytes user.page start count
  · rw [table]
    exact sum_userSegments user.page start count
  · rfl

/-- When every page of the buffer is pinned, the entries are exactly the
buffer, one for each page it touches. -/
theorem sgmGetUserPages_buildsBuffer (positive : 1 ≤ count.toNat)
    (admitted : count.toNat ≤ maxRwCount) (sized : sgm.Sized)
    (within : nrPages start count ≤ sgm.maxPages)
    (pinned : user.rc = nrPages start count)
    (pages : ∀ i < user.rc.toNat,
      user.page i = lookup ((pageNumber start).toNat + i)) :
    ∃ mapped,
      (sgmGetUserPages user sgm start count).result =
        .ok (nrPages start count, mapped) ∧
      nrPages start count = (touchedPages start count).card ∧
      DescribesBuffer mapped lookup start count
        (touchedPages start count).card := by
  have touched := pageSpan_pos start positive
  have small := pageSpan_lt_of_admitted start admitted
  have number := nrPages_eq touched small
  rw [number] at within pinned ⊢
  have fits := (sized.fits within).1
  have run := sgmGetUserPages_ok touched small fits pinned
  rw [touchedPages_card positive]
  refine ⟨_, congrArg Run.result run, rfl, ?_⟩
  apply pinnedMapper_describesBuffer positive fits
  intro i inside
  exact pages i (by omega)

end Pinned

/-- A kernel whose page frames have the numbers of their virtual pages, and
which pins `rc` pages from page `first` on. -/
def identityPages (rc : Int) (first : Nat) : UserPages :=
  { rc, page := fun i => first + i }

theorem sgmGetUserPages_buildsBuffer_straddling :
    ∃ mapped,
      (sgmGetUserPages (identityPages 2 1) (SgMapping.fresh 2) 0x1fff
        2).result = .ok (nrPages 0x1fff 2, mapped) ∧
      nrPages 0x1fff 2 = (touchedPages 0x1fff 2).card ∧
      DescribesBuffer mapped id 0x1fff 2 (touchedPages 0x1fff 2).card :=
  sgmGetUserPages_buildsBuffer (by decide) (by decide)
    (fresh_sized (by decide)) (by decide) (by decide) fun _ _ => rfl

/-! ## A short pin -/

section Short

variable {user : UserPages} {sgm : SgMapping} {start count : U64}

/-- Two mappers a buffer fits are the same to a caller after the same pages
were pinned through them. -/
structure SameMapping (first second : SgMapping) (nents : Nat) : Prop where
  mapped : first.mappedPages = second.mappedPages
  pages : first.pages.take nents = second.pages.take nents
  sgl : first.sgl.take nents = second.sgl.take nents

theorem pinnedMapper_same {other : SgMapping} (fits : sgm.Fits start count)
    (otherFits : other.Fits start count) :
    SameMapping (pinnedMapper user sgm start count)
      (pinnedMapper user other start count) (pageSpan start count) := by
  constructor
  · rfl
  · apply List.ext_getElem?
    intro i
    rw [List.getElem?_take, List.getElem?_take]
    by_cases inside : i < pageSpan start count
    · rw [if_pos inside, if_pos inside,
        pinnedMapper_pages_getElem? fits inside,
        pinnedMapper_pages_getElem? otherFits inside]
    · rw [if_neg inside, if_neg inside]
  · rw [pinnedMapper_sgl_take fits, pinnedMapper_sgl_take otherFits]

theorem unpinnedMapper_sized (sized : sgm.Sized) :
    (unpinnedMapper user sgm start count).Sized := by
  obtain ⟨pages, sgl, bounded⟩ := sized
  refine ⟨?_, ?_, bounded⟩
  · simpa [unpinnedMapper] using pages
  · simpa [unpinnedMapper] using sgl

/-- The mapper is as good as a new one for any buffer it has room for. -/
def GoodAsFresh (sgm : SgMapping) : Prop :=
  ∀ (user : UserPages) (start count : U64), 1 ≤ count.toNat →
    pageSpan start count ≤ sgm.maxPages → user.rc = nrPages start count →
    ∃ mapped fresh,
      (sgmGetUserPages user sgm start count).result =
        .ok (nrPages start count, mapped) ∧
      (sgmGetUserPages user (SgMapping.fresh sgm.maxPages.toNat) start
        count).result = .ok (nrPages start count, fresh) ∧
      SameMapping mapped fresh (pageSpan start count)

theorem SgMapping.Sized.goodAsFresh (sized : sgm.Sized) : GoodAsFresh sgm := by
  intro user start count positive within pinned
  have bounded := sized.bounded
  obtain ⟨fits, small⟩ := sized.fits within
  have capacity : sgm.maxPages.toNat < 2 ^ 31 := by omega
  have freshSized := fresh_sized capacity
  have roomy : (pageSpan start count : Int) ≤ sgm.maxPages.toNat := by omega
  have freshFits := (freshSized.fits roomy).1
  have touched := pageSpan_pos start positive
  rw [nrPages_eq touched small] at pinned ⊢
  have run := sgmGetUserPages_ok touched small fits pinned
  have freshRun := sgmGetUserPages_ok touched small freshFits pinned
  exact ⟨_, _, congrArg Run.result run, congrArg Run.result freshRun,
    pinnedMapper_same fits freshFits⟩

/-- Pinning is all or nothing: a call that gets too few pages gives back the
ones it got, once each, and leaves a mapper that may be destroyed or used
again. -/
theorem sgmGetUserPages_allOrNothing (sized : sgm.Sized)
    (idle : sgm.mappedPages = 0) (positive : 1 ≤ count.toNat)
    (within : pageSpan start count ≤ sgm.maxPages)
    (short : user.rc < nrPages start count) :
    ∃ left,
      sgmGetUserPages user sgm start count =
        ⟨.ok (-enomem, left),
          (user.pins.map fun page => .acquire (.pageRef page)) ++
            user.pins.map fun page => .release (.pageRef page)⟩ ∧
      left.mappedPages = 0 ∧ left.maxPages = sgm.maxPages ∧
      (∀ page, outstanding (sgmGetUserPages user sgm start count).log
        (.pageRef page) = 0) ∧
      (sgDestroyMapper left).result = .ok () ∧
      GoodAsFresh left := by
  obtain ⟨fits, small⟩ := sized.fits within
  have touched := pageSpan_pos start positive
  rw [nrPages_eq touched small] at short
  have run := sgmGetUserPages_short touched small fits idle short
  have unmapped : (unpinnedMapper user sgm start count).mappedPages ≤ 0 :=
    Int.le_refl 0
  refine ⟨_, run, rfl, rfl, ?_, ?_, (unpinnedMapper_sized sized).goodAsFresh⟩
  · intro page
    rw [run, outstanding_append]
    exact balance_map_cancel Event.change _ _
      (fun page resource => Event.change_cancels (.pageRef page) resource)
      user.pins (.pageRef page)
  · rw [sgDestroyMapper_eq unmapped]

theorem sgmGetUserPages_allOrNothing_straddling :
    ∃ left,
      sgmGetUserPages (identityPages 1 1) (SgMapping.fresh 2) 0x1fff 2 =
        ⟨.ok (-enomem, left),
          ((identityPages 1 1).pins.map fun page =>
              .acquire (.pageRef page)) ++
            (identityPages 1 1).pins.map fun page =>
              .release (.pageRef page)⟩ ∧
      left.mappedPages = 0 ∧
      left.maxPages = (SgMapping.fresh 2).maxPages ∧
      (∀ page, outstanding (sgmGetUserPages (identityPages 1 1)
        (SgMapping.fresh 2) 0x1fff 2).log (.pageRef page) = 0) ∧
      (sgDestroyMapper left).result = .ok () ∧
      GoodAsFresh left :=
  sgmGetUserPages_allOrNothing (fresh_sized (by decide)) rfl (by decide)
    (by decide) (by decide)

end Short

end Xpcie
