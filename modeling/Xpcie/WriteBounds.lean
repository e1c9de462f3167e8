import Xpcie.DescriptorSetup
import Xpcie.Mapper

/-!
# Array bounds of a write

Nothing in the driver compares a page count with the capacity of the mapper
at run time.  In the model an access outside its array is a fault, so a call
that returns has kept to its arrays.
-/

namespace Xpcie

open EffectLog

/-- The page count of a buffer is exact, and a mapper has room for it. -/
structure MapperBounds (sgm : SgMapping) (buf count : U64) : Prop where
  positive : 0 < nrPages buf count
  exact : nrPages buf count =
    (pageNumber (buf + count - 1)).toNat - (pageNumber buf).toNat + 1
  capacity : nrPages buf count ≤ sgm.maxPages
  pages : sgm.pages.length = sgm.maxPages
  sgl : sgm.sgl.length = sgm.maxPages
  /-- Whatever part of the buffer is pinned, the call returns. -/
  returns : ∀ user : UserPages, user.rc ≤ nrPages buf count →
    ∃ outcome, (sgmGetUserPages user sgm buf count).result = .ok outcome
  /-- So do its debug prints, one of which looks behind a buffer of one
  page. -/
  prints : ∀ user : UserPages, user.rc ≤ nrPages buf count →
    (sgmGetUserPagesReads user sgm buf count).result = .ok ()

/-- Not every mapper with room for the buffer has the entry behind it. -/
example : (sgmGetUserPagesReads { rc := 1, page := id } (SgMapping.fresh 1)
    0x1000 8).result = .error .outOfBounds := rfl

/-- Setting up the descriptors for `sgl` returns, and has not touched a
descriptor beyond the `sgl_nents` it allocated. -/
structure DescriptorBounds (host : Endian) (grant : Coherent)
    (sgl : List DmaSegment) (epAddr : U64) (flags : BuildFlags)
    (allocated built descVirt : List XdmaDesc) (last : Nat) : Prop where
  alloc : (xdmaDescAlloc host (some grant) sgl.length).result =
    .ok (some (allocated, grant.bus))
  build : (transferBuild host allocated sgl epAddr flags).result =
    .ok (built, last)
  setUp : (h2cDescriptors host (some grant) sgl epAddr flags).result =
    .ok (descVirt, grant.bus, last + 1)
  lengths : allocated.length = sgl.length ∧ built.length = sgl.length ∧
    descVirt.length = sgl.length
  inside : last ≤ sgl.length - 1

theorem descriptorBounds (host : Endian) (grant : Coherent)
    {sgl : List DmaSegment} (epAddr : U64) (flags : BuildFlags)
    (nonempty : 1 ≤ sgl.length) :
    ∃ allocated built descVirt last,
      DescriptorBounds host grant sgl epAddr flags allocated built descVirt
        last := by
  have entries : sgl ≠ [] := List.ne_nil_of_length_pos nonempty
  have blocks := transferBlocks_length_pos flags epAddr entries
  have bounded := transferBlocks_length_le flags epAddr sgl
  have count : (transferBlocks flags epAddr sgl).length - 1 + 1 =
      (transferBlocks flags epAddr sgl).length := by omega
  have alloc := xdmaDescAlloc_ok host grant nonempty
  have build := transferBuild_eq host epAddr flags entries
    (allocatedList_length host grant sgl.length).ge
  have setUp := h2cDescriptors_eq host grant sgl epAddr flags entries
  rw [← count] at setUp
  refine ⟨_, _, _, _, congrArg Run.result alloc, congrArg Run.result build,
    congrArg Run.result setUp, ?_, by omega⟩
  rw [storeBlocks_length, allocatedList_length, setUpList_length]
  exact ⟨rfl, rfl, rfl⟩

section Write

variable {buf count : U64}

theorem nrPages_exact (positive : 1 ≤ count.toNat)
    (admitted : count.toNat ≤ maxRwCount)
    (noWrap : buf.toNat + count.toNat ≤ 2 ^ 64) :
    nrPages buf count =
      (pageNumber (buf + count - 1)).toNat - (pageNumber buf).toNat + 1 := by
  have lastByte : (buf + count - 1).toNat = buf.toNat + count.toNat - 1 := by
    have one : (1 : U64).toNat = 1 := rfl
    rw [BitVec.toNat_sub, BitVec.toNat_add, one]
    omega
  rw [nrPages_eq (pageSpan_pos buf positive)
      (pageSpan_lt_of_admitted buf admitted),
    pageNumber_toNat, pageNumber_toNat, lastByte]
  unfold pageSpan
  omega

/-- A print of a buffer of one page reads the second entry, so the mapper has
to have two. -/
theorem sgmGetUserPagesReads_eq {sgm : SgMapping} (user : UserPages)
    (touched : 0 < pageSpan buf count) (small : pageSpan buf count < 2 ^ 31)
    (fits : sgm.Fits buf count) (several : 1 < sgm.sgl.length) :
    sgmGetUserPagesReads user sgm buf count = ⟨.ok (), []⟩ := by
  have pagesFit := fits.pages
  have sglFit := fits.sgl
  have printed : readElements sgm.pages 0
      ((pageSpan buf count : Int) - 1).toNat = ⟨.ok (), []⟩ :=
    readElements_eq (by omega)
  have flushed : readElements sgm.pages 0 (pageSpan buf count : Int).toNat =
      ⟨.ok (), []⟩ := readElements_eq (by omega)
  have firstPage : readElements sgm.pages 0 1 = ⟨.ok (), []⟩ :=
    readElements_eq (by omega)
  have firstEntry : readElements sgm.sgl 0 1 = ⟨.ok (), []⟩ :=
    readElements_eq (by omega)
  rw [sgmGetUserPagesReads, nrPages_eq touched small]
  simp only [printed, flushed, firstPage, firstEntry, Run.ok_bind,
    Run.after_nil, Run.pure_eq]
  split
  · rfl
  · split
    · exact readElements_eq (by omega)
    · exact readElements_eq (by omega)

theorem mapperBounds {allocs : MapperAllocs} {sgm : SgMapping}
    (positive : 1 ≤ count.toNat) (admitted : count.toNat ≤ maxRwCount)
    (noWrap : buf.toNat + count.toNat ≤ 2 ^ 64)
    (made : (sgCreateMapper allocs count).result = .ok (some sgm)) :
    MapperBounds sgm buf count := by
  have small := pageSpan_lt_of_admitted buf admitted
  have spanPositive := pageSpan_pos buf positive
  have pages := nrPages_eq spanPositive small
  have within := pageSpan_le_capacity buf count
  have sized := sgCreateMapper_sized made
  obtain ⟨entries, capacity, _, rfl⟩ := sgCreateMapper_fresh made
  rw [maxPages_eq admitted, mapperCapacity] at capacity
  have roomy : (pageSpan buf count : Int) ≤ entries := by omega
  have fits := (sized.fits roomy).1
  have several : 1 < (SgMapping.fresh entries).sgl.length := by
    rw [SgMapping.fresh, List.length_replicate]
    omega
  refine ⟨?_, nrPages_exact positive admitted noWrap, ?_, sized.pages,
    sized.sgl, ?_, ?_⟩
  · omega
  · change nrPages buf count ≤ (entries : Int)
    omega
  · intro user pinned
    rw [pages] at pinned
    by_cases all : user.rc = pageSpan buf count
    · exact ⟨_, congrArg Run.result
        (sgmGetUserPages_ok spanPositive small fits all)⟩
    · exact ⟨_, congrArg Run.result
        (sgmGetUserPages_short spanPositive small fits rfl (by omega))⟩
  · intro user _
    rw [sgmGetUserPagesReads_eq user spanPositive small fits several]

/-- From the buffer to the descriptors, a write stays inside its arrays. -/
theorem write_inBounds (host : Endian) {allocs : MapperAllocs}
    {sgm : SgMapping} (positive : 1 ≤ count.toNat)
    (admitted : count.toNat ≤ maxRwCount)
    (noWrap : buf.toNat + count.toNat ≤ 2 ^ 64)
    (made : (sgCreateMapper allocs count).result = .ok (some sgm)) :
    MapperBounds sgm buf count ∧
      ∀ (sgl : List DmaSegment), 1 ≤ sgl.length →
        sgl.length ≤ nrPages buf count →
        ∀ (grant : Coherent) (epAddr : U64) (flags : BuildFlags),
          ∃ allocated built descVirt last,
            DescriptorBounds host grant sgl epAddr flags allocated built
              descVirt last :=
  ⟨mapperBounds positive admitted noWrap made,
    fun _ nonempty _ grant epAddr flags =>
      descriptorBounds host grant epAddr flags nonempty⟩

end Write

theorem write_inBounds_straddling :
    MapperBounds (SgMapping.fresh 2) 0x1fff 2 ∧
      ∀ (sgl : List DmaSegment), 1 ≤ sgl.length →
        sgl.length ≤ nrPages 0x1fff 2 →
        ∀ (grant : Coherent) (epAddr : U64) (flags : BuildFlags),
          ∃ allocated built descVirt last,
            DescriptorBounds .little grant sgl epAddr flags allocated built
              descVirt last :=
  have granted : (⟨true, true, true⟩ : MapperAllocs).granted :=
    ⟨rfl, rfl, rfl⟩
  write_inBounds .little (by decide) (by decide) (by decide)
    (congrArg Run.result (sgCreateMapper_ok granted
      (show 0 < (2 : U64).toNat by decide) (by decide)))

end Xpcie
