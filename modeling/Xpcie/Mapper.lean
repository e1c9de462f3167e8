import Xpcie.Kernel
import Xpcie.Library.BoundedArray
import Xpcie.Library.AddressSpan

/-!
# The scatter-gather mapper

`struct sg_mapping_t` collects the pages of a user buffer in a page pointer
array and describes them in a scatterlist.  Both arrays are made once, with
room for every alignment of the longest buffer, and are never resized.
-/

namespace Xpcie

open EffectLog BoundedArray

/-- The CPU half of a `struct scatterlist`. -/
structure Scatterlist where
  page : Option Page
  offset : U32
  length : U32
  deriving DecidableEq, Repr

def Scatterlist.zero : Scatterlist :=
  { page := none, offset := 0, length := 0 }

/-- `struct sg_mapping_t` -/
structure SgMapping where
  sgl : List Scatterlist
  pages : List (Option Page)
  maxPages : Int
  mappedPages : Int
  deriving DecidableEq, Repr

/-- Which allocations of `sg_create_mapper` the kernel grants. -/
structure MapperAllocs where
  mapper : Bool
  pages : Bool
  sgl : Bool
  deriving DecidableEq, Repr

/-- What `get_user_pages_fast` does: it returns `rc` and, for every index
below `rc`, pins `page index` and stores it. -/
structure UserPages where
  rc : Int
  page : Nat → Page

/-- A zeroed array of `entries` elements, or NULL.  A negative count becomes
a huge `size_t`, which no allocation satisfies. -/
def kcalloc {α : Type} (granted : Bool) (entries : Int) (zeroed : α) :
    Option (List α) :=
  if granted ∧ 0 ≤ entries then some (List.replicate entries.toNat zeroed)
  else none

/-- The kernel's `sg_init_table`: zero the entries and mark the last one. -/
def sgInitTable (sgl : List Scatterlist) (nents : Int) :
    Exec (List Scatterlist) := do
  Run.require (0 < nents) .outOfBounds
  Run.demand (modifyRange (fun _ _ => Scatterlist.zero) 0 nents.toNat sgl)
    .outOfBounds

def sgCreateMapper (allocs : MapperAllocs) (maxLen : U64) :
    Exec (Option SgMapping) :=
  if maxLen = 0 then pure none
  else if ¬allocs.mapper then pure none
  else do
    acquire .mapper
    let maxPages := intOfULong (maxLen / pageSize + 2)
    match kcalloc allocs.pages maxPages none with
    | none => do
        release .mapper
        pure none
    | some pages => do
        acquire (.pageArray pages.length)
        match kcalloc allocs.sgl maxPages Scatterlist.zero with
        | none => do
            release (.pageArray pages.length)
            release .mapper
            pure none
        | some sgl => do
            acquire (.sgArray sgl.length)
            let sgl ← sgInitTable sgl maxPages
            pure (some { sgl, pages, maxPages, mappedPages := 0 })

def sgDestroyMapper (sgm : SgMapping) : Exec Unit := do
  -- user failed to call sgm_unmap_user_pages()
  bugOn (sgm.mappedPages > 0)
  release (.sgArray sgm.sgl.length)
  release (.pageArray sgm.pages.length)
  release .mapper

/-! ## Scatterlist entries -/

/-- The kernel's `sg_set_page`. -/
def sgSetPage (page : Option Page) (len offset : U32)
    (_entry : Scatterlist) : Scatterlist :=
  { page, offset, length := len }

/-- The loop over the pages that are neither first nor last. -/
def populateMiddle (pages : List (Option Page)) :
    Nat → Nat → U64 → List Scatterlist → Exec (U64 × List Scatterlist)
  | 0, _, count, sgl => pure (count, sgl)
  | remaining + 1, i, count, sgl => do
      bugOn (count < pageSize)
      let page ← Run.demand pages[i]? .outOfBounds
      let sgl ← Run.demand
        (modifyAt sgl i (sgSetPage page (pageSize.setWidth 32) 0)) .outOfBounds
      populateMiddle pages remaining (i + 1) (count - pageSize) sgl

/-- Populate the scatter/gather list. -/
def populateSgl (pages : List (Option Page)) (sgl : List Scatterlist)
    (start count : U64) (nrPages : Int) : Exec (List Scatterlist) := do
  let page ← Run.demand pages[0]? .outOfBounds
  let sgl ← Run.demand
    (modifyAt sgl 0 (sgSetPage page 0 ((offsetInPage start).setWidth 32)))
    .outOfBounds
  if nrPages > 1 then do
    let head ← Run.demand sgl[0]? .outOfBounds
    let length : U32 := (pageSize - head.offset.setWidth 64).setWidth 32
    let sgl ← Run.demand
      (modifyAt sgl 0 fun entry => { entry with length }) .outOfBounds
    -- iterate over further pages, except the last page
    let (count, sgl) ← populateMiddle pages (nrPages - 2).toNat 1
      (count - length.setWidth 64) sgl
    bugOn (count > pageSize)
    let i := (nrPages - 1).toNat
    let page ← Run.demand pages[i]? .outOfBounds
    Run.demand (modifyAt sgl i (sgSetPage page (count.setWidth 32) 0))
      .outOfBounds
  else
    -- what a print reads here for user pages is in `sgmGetUserPagesReads`
    Run.demand
      (modifyAt sgl 0 fun entry => { entry with length := count.setWidth 32 })
      .outOfBounds

/-! ## Pinning and releasing user pages -/

/-- `put_page` on the `remaining` pages from index `i` on. -/
def putPages (pages : List (Option Page)) : Nat → Nat → Exec Unit
  | _, 0 => pure ()
  | i, remaining + 1 => do
      let slot ← Run.demand pages[i]? .outOfBounds
      let page ← Run.demand slot .nullDereference
      release (.pageRef page)
      putPages pages (i + 1) remaining

def setPagesDirty (pages : List (Option Page)) : Nat → Nat → Exec Unit
  | _, 0 => pure ()
  | i, remaining + 1 => do
      let slot ← Run.demand pages[i]? .outOfBounds
      let page ← Run.demand slot .nullDereference
      Run.emit (.setPageDirty page)
      setPagesDirty pages (i + 1) remaining

/-- The pages pinned by a call that returned `rc`, in order. -/
def UserPages.pins (user : UserPages) : List Page :=
  (List.range user.rc.toNat).map user.page

/-- What its debug prints read besides is in `sgmGetUserPagesReads`. -/
def sgmGetUserPages (user : UserPages) (sgm : SgMapping)
    (start count : U64) : Exec (Int × SgMapping) := do
  let first := pageNumber start
  let last := pageNumber (start + count - 1)
  let nrPages := intOfULong (last - first + 1)
  let sgl ← sgInitTable sgm.sgl nrPages
  let pages ← Run.demand
    (modifyRange (fun _ _ => none) 0 (nrPages - 1).toNat sgm.pages)
    .outOfBounds
  -- try to fault in all of the necessary pages
  let pages ← Run.demand
    (modifyRange (fun i _ => some (user.page i)) 0 user.rc.toNat pages)
    .outOfBounds
  Run.emitAll (user.pins.map fun page => .acquire (.pageRef page))
  if user.rc < nrPages then do
    let mappedPages := if user.rc > 0 then user.rc else sgm.mappedPages
    -- out_unmap
    putPages pages 0 mappedPages.toNat
    pure (-enomem, { sgm with sgl, pages, mappedPages := 0 })
  else do
    bugOn (user.rc ≠ nrPages)
    let sgl ← populateSgl pages sgl start count nrPages
    pure (nrPages, { sgm with sgl, pages, mappedPages := user.rc })

def sgmDirtyPages (sgm : SgMapping) : Exec Unit :=
  setPagesDirty sgm.pages 0 sgm.mappedPages.toNat

def sgmPutUserPages (sgm : SgMapping) (dirToDev : Int) :
    Exec (Int × SgMapping) := do
  if dirToDev = 0 then sgmDirtyPages sgm
  putPages sgm.pages 0 sgm.mappedPages.toNat
  pure (0, { sgm with mappedPages := 0 })

/-! ## What the mapper computes -/

/-- `nr_pages` as `sgm_get_user_pages` computes it. -/
def nrPages (start count : U64) : Int :=
  intOfULong (pageNumber (start + count - 1) - pageNumber start + 1)

/-- Read `remaining` elements from index `i` on. -/
def readElements {α : Type} (items : List α) : Nat → Nat → Exec Unit
  | _, 0 => pure ()
  | i, remaining + 1 => do
      let _item ← Run.demand items[i]? .outOfBounds
      readElements items (i + 1) remaining

/-- The array elements that `sgm_get_user_pages` flushes, and those it prints:
the driver is built with `DEBUG`, which evaluates the arguments of a print.
The arrays keep their lengths throughout the call. -/
def sgmGetUserPagesReads (user : UserPages) (sgm : SgMapping)
    (start count : U64) : Exec Unit := do
  readElements sgm.pages 0 (nrPages start count - 1).toNat
  if user.rc < nrPages start count then pure ()
  else do
    -- flush_dcache_page
    readElements sgm.pages 0 (nrPages start count).toNat
    readElements sgm.pages 0 1
    readElements sgm.sgl 0 1
    if nrPages start count > 1 then
      readElements sgm.sgl 0 (nrPages start count).toNat
    else do
      readElements sgm.sgl 0 1
      -- `sg_page(&sgl[i])`, with `i` as the loop that flushed has left it
      readElements sgm.sgl (nrPages start count).toNat 1

/-- The number of pages that hold a byte of the buffer. -/
def pageSpan (start count : U64) : Nat :=
  (start.toNat % 4096 + count.toNat + 4095) / 4096

/-- The longest transfer the VFS admits. -/
def maxRwCount : Nat := 2 ^ 31 - 4096

/-- Such a count keeps its value as a signed number. -/
theorem toInt_of_admitted {count : U64}
    (admitted : count.toNat ≤ maxRwCount) : count.toInt = count.toNat := by
  have small : 2 * count.toNat < 2 ^ 64 := by
    unfold maxRwCount at admitted
    omega
  rw [BitVec.toInt_eq_toNat_cond, if_pos small]

theorem pageSpan_pos (start : U64) {count : U64}
    (positive : 0 < count.toNat) :
    0 < pageSpan start count := by
  unfold pageSpan
  omega

theorem pageSpan_le_capacity (start count : U64) :
    pageSpan start count ≤ count.toNat / 4096 + 2 := by
  unfold pageSpan
  omega

/-- The page count of an admitted buffer is an `int`. -/
theorem pageSpan_lt_of_admitted (start : U64) {count : U64}
    (admitted : count.toNat ≤ maxRwCount) :
    pageSpan start count < 2 ^ 31 := by
  unfold maxRwCount at admitted
  unfold pageSpan
  omega

/-- Page numbers may wrap at the end of the address space; their difference
is right modulo `2 ^ 32` all the same. -/
private theorem pageDifference {first last start count : Nat}
    (startBound : start < 2 ^ 64)
    (touched : 0 < (start % 4096 + count + 4095) / 4096)
    (small : (start % 4096 + count + 4095) / 4096 < 2 ^ 31)
    (firstPage : first = start / 4096)
    (lastPage : last = (start + count - 1) / 4096 ∨
      last + 2 ^ 52 = (start + count - 1) / 4096) :
    (2 ^ 64 - first + last + 1) % 2 ^ 64 % 2 ^ 32 =
      (start % 4096 + count + 4095) / 4096 := by
  have span : (start + count - 1) / 4096 + 1 =
      first + (start % 4096 + count + 4095) / 4096 := by omega
  generalize (start % 4096 + count + 4095) / 4096 = pages at *
  generalize (start + count - 1) / 4096 = finish at *
  have firstBound : first < 2 ^ 52 := by omega
  rcases lastPage with same | wrapped
  · omega
  · omega

private theorem lastPage_toNat {start count : U64}
    (nonzero : 0 < start.toNat + count.toNat) :
    (pageNumber (start + count - 1)).toNat =
        (start.toNat + count.toNat - 1) / 4096 ∨
      (pageNumber (start + count - 1)).toNat + 2 ^ 52 =
        (start.toNat + count.toNat - 1) / 4096 := by
  have startBound := start.isLt
  have countBound := count.isLt
  have lastByte : (start + count - 1).toNat =
      (start.toNat + count.toNat - 1) % 2 ^ 64 := by
    rw [BitVec.toNat_sub, BitVec.toNat_add]
    have one : (1 : U64).toNat = 1 := rfl
    rw [one]
    omega
  rw [pageNumber_toNat, lastByte]
  by_cases fits : start.toNat + count.toNat - 1 < 2 ^ 64
  · left
    rw [Nat.mod_eq_of_lt fits]
  · right
    have reduced : (start.toNat + count.toNat - 1) % 2 ^ 64 =
        start.toNat + count.toNat - 1 - 2 ^ 64 := by omega
    rw [reduced]
    omega

theorem nrPages_eq {start count : U64} (touched : 0 < pageSpan start count)
    (small : pageSpan start count < 2 ^ 31) :
    nrPages start count = pageSpan start count := by
  have nonzero : 0 < start.toNat + count.toNat := by
    unfold pageSpan at touched
    omega
  apply intOfULong_of_mod
  · rw [BitVec.toNat_add, BitVec.toNat_sub, Nat.mod_add_mod]
    exact pageDifference start.isLt touched small
      (pageNumber_toNat start) (lastPage_toNat nonzero)
  · exact small

theorem populateMiddle_eq (pages : List (Option Page)) (page : Nat → Page)
    {remaining i : Nat} {count : U64} {sgl : List Scatterlist}
    (filled : ∀ index, i ≤ index → index < i + remaining →
      pages[index]? = some (some (page index)))
    (enough : 4096 * remaining ≤ count.toNat) :
    populateMiddle pages remaining i count sgl =
      (do
        let sgl ← Run.demand (modifyRange
          (fun index => sgSetPage (some (page index)) (pageSize.setWidth 32) 0)
          i remaining sgl) .outOfBounds
        pure (count - BitVec.ofNat 64 (4096 * remaining), sgl)) := by
  induction remaining generalizing i count sgl with
  | zero => simp [populateMiddle, modifyRange]
  | succ remaining induction =>
      have roomy : ¬count < pageSize := by
        rw [BitVec.lt_def, pageSize_toNat]
        omega
      have here := filled i (Nat.le_refl i) (by omega)
      have later : ∀ index, i + 1 ≤ index → index < i + 1 + remaining →
          pages[index]? = some (some (page index)) := fun index lower upper =>
        filled index (by omega) (by omega)
      have left : (count - pageSize).toNat = count.toNat - 4096 := by
        rw [BitVec.toNat_sub_of_le
          (by rw [BitVec.le_def, pageSize_toNat]; omega), pageSize_toNat]
      have rest : count - pageSize - BitVec.ofNat 64 (4096 * remaining) =
          count - BitVec.ofNat 64 (4096 * (remaining + 1)) := by
        rw [Nat.mul_succ, BitVec.ofNat_add, BitVec.add_comm, BitVec.sub_sub]
        rfl
      simp only [populateMiddle, bugOn_of_not roomy, here, modifyRange]
      cases updated : modifyAt sgl i
          (sgSetPage (some (page i)) (pageSize.setWidth 32) 0) with
      | none =>
          simp only [Run.demand_some, Run.demand_none, Run.ok_bind,
            Run.error_bind, Run.after_nil, updated, Option.bind_eq_bind,
            Option.bind_none]
      | some next =>
          have step := @induction (i + 1) (count - pageSize) next later
            (by omega)
          simp only [Run.demand_some, Run.ok_bind, Run.after_nil, updated,
            Option.bind_eq_bind, Option.bind_some, step, rest]

/-- Entry `i` of the scatterlist of a buffer that starts `lead` bytes into
its first page. -/
def userSegment (page : Nat → Page) (lead count i : Nat) : Scatterlist :=
  { page := some (page i)
    offset := BitVec.ofNat 32 (max lead (4096 * i) - 4096 * i)
    length := BitVec.ofNat 32
      (min (lead + count) (4096 * (i + 1)) - max lead (4096 * i)) }

private theorem setWidth_eq_ofNat {value : U64} {low : Nat}
    (same : value.toNat = low) : value.setWidth 32 = BitVec.ofNat 32 low := by
  rw [← same, BitVec.ofNat_toNat]

/-- A buffer within one page. -/
theorem populateSgl_single {pages : List (Option Page)} {page : Nat → Page}
    {sgl : List Scatterlist} {start count : U64}
    (filled : pages[0]? = some (some (page 0))) (fits : 0 < sgl.length)
    (onePage : start.toNat % 4096 + count.toNat ≤ 4096) :
    populateSgl pages sgl start count 1 =
      ⟨.ok (overRange (fun i _ =>
        userSegment page (start.toNat % 4096) count.toNat i) 0 1 sgl), []⟩ := by
  have offset : (offsetInPage start).setWidth 32 =
      BitVec.ofNat 32 (start.toNat % 4096) :=
    setWidth_eq_ofNat (offsetInPage_toNat start)
  have length : count.setWidth 32 = BitVec.ofNat 32 count.toNat :=
    setWidth_eq_ofNat rfl
  have whole : min (start.toNat % 4096 + count.toNat) 4096 -
      start.toNat % 4096 = count.toNat := by omega
  simp only [populateSgl, filled, Run.demand_some, Run.ok_bind, Run.after_nil,
    modifyAt_of_lt fits, offset, length, gt_iff_lt, Int.lt_irrefl, if_false]
  rw [modifyAt_of_lt (by simpa using fits), Run.demand_some]
  congr 2
  apply List.ext_getElem?
  intro index
  simp only [List.getElem?_modify, overRange_getElem?]
  cases index with
  | zero => simp [sgSetPage, userSegment, whole, Function.comp_def]
  | succ index => simp

/-- The first page, the full pages and the last page of a buffer of
`middle + 2` pages make up its segments. -/
private theorem assembled_userSegments {page : Nat → Page}
    {lead count middle : Nat} (leadSmall : lead < 4096)
    (longer : 4096 * (middle + 1) < lead + count)
    (shorter : lead + count ≤ 4096 * (middle + 2))
    (entry : Scatterlist) (entries : List Scatterlist) :
    (overRange (fun index =>
        sgSetPage (some (page index)) (pageSize.setWidth 32) 0) 1 middle
        ({ page := some (page 0)
           offset := BitVec.ofNat 32 lead
           length := BitVec.ofNat 32 (4096 - lead) } :: entries)).modify
          (middle + 1)
        (sgSetPage (some (page (middle + 1)))
          (BitVec.ofNat 32 (lead + count - 4096 * (middle + 1))) 0) =
      overRange (fun i _ => userSegment page lead count i) 0 (middle + 2)
        (entry :: entries) := by
  apply List.ext_getElem?
  intro index
  simp only [List.getElem?_modify, overRange_getElem?]
  have setPageConst (target : Option Page) (len offset : U32) :
      sgSetPage target len offset =
        fun _ => { page := target, offset, length := len } := rfl
  -- The first page, the full pages, the last page, and the untouched rest.
  have position : index = 0 ∨ (1 ≤ index ∧ index < 1 + middle) ∨
      index = middle + 1 ∨ middle + 2 ≤ index := by omega
  rcases position with rfl | inside | rfl | outside
  · have size : min (lead + count) 4096 - lead = 4096 - lead := by omega
    simp [userSegment, size]
  · obtain ⟨below, rfl⟩ : ∃ below, index = below + 1 := ⟨index - 1, by omega⟩
    have notLast : middle ≠ below := by omega
    have covered : below + 1 < middle + 2 := by omega
    have whole : max lead (4096 * (below + 1)) = 4096 * (below + 1) := by
      omega
    have size : min (lead + count) (4096 * (below + 1 + 1)) -
        4096 * (below + 1) = 4096 := by omega
    simp [inside, notLast, covered, userSegment, whole, size, setPageConst,
      pageSize, pageShift]
  · have notInside : ¬middle + 1 < 1 + middle := by omega
    have whole : max lead (4096 * (middle + 1)) = 4096 * (middle + 1) := by
      omega
    have size : min (lead + count) (4096 * (middle + 1 + 1)) =
        lead + count := by omega
    simp [notInside, userSegment, whole, size, setPageConst]
  · obtain ⟨below, rfl⟩ : ∃ below, index = below + 1 := ⟨index - 1, by omega⟩
    have notInside : ¬below + 1 < 1 + middle := by omega
    have notLast : middle ≠ below := by omega
    have uncovered : ¬below + 1 < middle + 2 := by omega
    simp [notInside, notLast, uncovered]

/-- What is left of the count after the first page. -/
private theorem count_sub_first {count : U64} {lead : Nat}
    (leadSmall : lead < 4096) (longer : 4096 < lead + count.toNat) :
    (count - (BitVec.ofNat 32 (4096 - lead)).setWidth 64).toNat =
      count.toNat - (4096 - lead) := by
  have first : ((BitVec.ofNat 32 (4096 - lead)).setWidth 64).toNat =
      4096 - lead := by
    rw [BitVec.toNat_setWidth, BitVec.toNat_ofNat]
    omega
  have enough : (BitVec.ofNat 32 (4096 - lead)).setWidth 64 ≤ count := by
    rw [BitVec.le_def, first]
    omega
  rw [BitVec.toNat_sub_of_le enough, first]

/-- What is left of it after the full pages. -/
private theorem rest_sub_middle {rest : U64} {middle : Nat}
    (longer : 4096 * middle ≤ rest.toNat) :
    (rest - BitVec.ofNat 64 (4096 * middle)).toNat =
      rest.toNat - 4096 * middle := by
  have restBound := rest.isLt
  have pages : (BitVec.ofNat 64 (4096 * middle)).toNat = 4096 * middle := by
    rw [BitVec.toNat_ofNat]
    omega
  have enough : BitVec.ofNat 64 (4096 * middle) ≤ rest := by
    rw [BitVec.le_def, pages]
    exact longer
  rw [BitVec.toNat_sub_of_le enough, pages]

/-- A buffer of `middle + 2` pages. -/
theorem populateSgl_multi {pages : List (Option Page)} {page : Nat → Page}
    {sgl : List Scatterlist} {start count : U64} {middle : Nat}
    (filled : ∀ index < middle + 2, pages[index]? = some (some (page index)))
    (fits : middle + 2 ≤ sgl.length)
    (longer : 4096 * (middle + 1) < start.toNat % 4096 + count.toNat)
    (shorter : start.toNat % 4096 + count.toNat ≤ 4096 * (middle + 2)) :
    populateSgl pages sgl start count (middle + 2 : Nat) =
      ⟨.ok (overRange (fun i _ =>
        userSegment page (start.toNat % 4096) count.toNat i)
        0 (middle + 2) sgl), []⟩ := by
  generalize leadEq : start.toNat % 4096 = lead at *
  have leadSmall : lead < 4096 := by omega
  have offset : (offsetInPage start).setWidth 32 = BitVec.ofNat 32 lead :=
    setWidth_eq_ofNat (by rw [offsetInPage_toNat, leadEq])
  have firstLength :
      (pageSize - (BitVec.ofNat 32 lead).setWidth 64).setWidth 32 =
        BitVec.ofNat 32 (4096 - lead) := by
    apply setWidth_eq_ofNat
    rw [BitVec.toNat_sub, pageSize_toNat, BitVec.toNat_setWidth,
      BitVec.toNat_ofNat]
    omega
  have remaining := count_sub_first leadSmall
    (show 4096 < lead + count.toNat by omega)
  generalize firstRest :
    count - (BitVec.ofNat 32 (4096 - lead)).setWidth 64 = rest at *
  have lastCount : (rest - BitVec.ofNat 64 (4096 * middle)).toNat =
      lead + count.toNat - 4096 * (middle + 1) := by
    rw [rest_sub_middle (by omega), remaining]
    omega
  have lastLength :
      (rest - BitVec.ofNat 64 (4096 * middle)).setWidth 32 =
        BitVec.ofNat 32 (lead + count.toNat - 4096 * (middle + 1)) :=
    setWidth_eq_ofNat lastCount
  have lastFits : ¬rest - BitVec.ofNat 64 (4096 * middle) > pageSize := by
    rw [gt_iff_lt, BitVec.lt_def, lastCount, pageSize_toNat]
    omega
  have several : ((middle + 2 : Nat) : Int) > 1 := by omega
  have middleCount : (((middle + 2 : Nat) : Int) - 2).toNat = middle := by
    omega
  have lastIndex : (((middle + 2 : Nat) : Int) - 1).toNat = middle + 1 := by
    omega
  obtain ⟨entry, entries, rfl⟩ := List.exists_cons_of_length_pos
    (by omega : 0 < sgl.length)
  have entriesFit : middle + 1 ≤ entries.length := by
    rw [List.length_cons] at fits
    omega
  have first := filled 0 (by omega)
  have last := filled (middle + 1) (by omega)
  have modifyHead (update : Scatterlist → Scatterlist)
      (head : Scatterlist) :
      modifyAt (head :: entries) 0 update =
        some (update head :: entries) := rfl
  simp only [populateSgl, first, modifyHead, Run.demand_some, Run.ok_bind,
    Run.after_nil, if_pos several, middleCount, lastIndex,
    List.getElem?_cons_zero, sgSetPage, offset, firstLength, firstRest, last]
  rw [populateMiddle_eq pages page
    (fun index lower upper => filled index (by omega)) (by omega),
    modifyRange_eq _ (by rw [List.length_cons]; omega)]
  simp only [Run.demand_some, Run.ok_bind, Run.after_nil, Run.pure_eq,
    bugOn_of_not lastFits, lastLength]
  rw [modifyAt_of_lt (by rw [overRange_length, List.length_cons]; omega),
    Run.demand_some]
  congr 2
  exact assembled_userSegments leadSmall longer shorter entry entries

theorem populateSgl_eq {pages : List (Option Page)} {page : Nat → Page}
    {sgl : List Scatterlist} {start count : U64}
    (touched : 0 < pageSpan start count)
    (filled : ∀ index < pageSpan start count,
      pages[index]? = some (some (page index)))
    (fits : pageSpan start count ≤ sgl.length) :
    populateSgl pages sgl start count (pageSpan start count) =
      ⟨.ok (overRange (fun i _ =>
        userSegment page (start.toNat % 4096) count.toNat i)
        0 (pageSpan start count) sgl), []⟩ := by
  have spanEq : pageSpan start count =
      (start.toNat % 4096 + count.toNat + 4095) / 4096 := rfl
  by_cases single : pageSpan start count = 1
  · rw [single] at filled fits ⊢
    exact populateSgl_single (filled 0 (by omega)) fits (by omega)
  · obtain ⟨middle, multi⟩ : ∃ middle, pageSpan start count = middle + 2 :=
      ⟨pageSpan start count - 2, by omega⟩
    rw [multi] at filled fits ⊢
    exact populateSgl_multi filled fits (by omega) (by omega)

theorem putPages_eq {pages : List (Option Page)} {page : Nat → Page}
    {i remaining : Nat}
    (filled : ∀ index < remaining,
      pages[i + index]? = some (some (page (i + index)))) :
    putPages pages i remaining =
      ⟨.ok (), (List.range remaining).map fun index =>
        .release (.pageRef (page (i + index)))⟩ := by
  induction remaining generalizing i with
  | zero => rfl
  | succ remaining induction =>
      have here : pages[i]? = some (some (page i)) := filled 0 (by omega)
      have later : ∀ index < remaining,
          pages[i + 1 + index]? = some (some (page (i + 1 + index))) := by
        intro index inside
        have shifted : i + 1 + index = i + (index + 1) := by omega
        rw [shifted]
        exact filled (index + 1) (by omega)
      have shift : ∀ index, i + 1 + index = i + (index + 1) := by omega
      simp [putPages, here, induction later, List.range_succ_eq_map, shift,
        Function.comp_def]

theorem readElements_eq {α : Type} {items : List α} {i remaining : Nat}
    (fits : i + remaining ≤ items.length) :
    readElements items i remaining = ⟨.ok (), []⟩ := by
  induction remaining generalizing i with
  | zero => rfl
  | succ remaining induction =>
      have inside : i < items.length := by omega
      rw [readElements, List.getElem?_eq_getElem inside, Run.demand_some,
        Run.ok_bind, Run.after_nil, induction (by omega)]

/-- A mapper as `sg_create_mapper` makes it. -/
def SgMapping.fresh (entries : Nat) : SgMapping :=
  { sgl := List.replicate entries Scatterlist.zero
    pages := List.replicate entries none
    maxPages := entries
    mappedPages := 0 }

/-- The capacity computed from the longest buffer. -/
def mapperCapacity (maxLen : U64) : Nat :=
  maxLen.toNat / 4096 + 2

theorem maxPages_eq {maxLen : U64} (admitted : maxLen.toNat ≤ maxRwCount) :
    intOfULong (maxLen / pageSize + 2) = mapperCapacity maxLen := by
  unfold maxRwCount at admitted
  apply intOfULong_of_mod
  · have two : (2 : U64).toNat = 2 := rfl
    rw [BitVec.toNat_add, BitVec.toNat_udiv, pageSize_toNat, two,
      mapperCapacity]
    omega
  · unfold mapperCapacity
    omega

theorem sgInitTable_eq {sgl : List Scatterlist} {nents : Nat}
    (positive : 0 < nents) (fits : nents ≤ sgl.length) :
    sgInitTable sgl nents =
      ⟨.ok (overRange (fun _ _ => Scatterlist.zero) 0 nents sgl), []⟩ := by
  have positiveInt : (0 : Int) < nents := by omega
  rw [sgInitTable, Run.require_of positiveInt, Run.ok_bind, Run.after_nil,
    Int.toNat_natCast, modifyRange_eq _ (by omega), Run.demand_some]

def MapperAllocs.granted (allocs : MapperAllocs) : Prop :=
  allocs.mapper ∧ allocs.pages ∧ allocs.sgl

/-- With the three allocations, the capacity is what the division gives. -/
theorem sgCreateMapper_granted {allocs : MapperAllocs} {maxLen : U64}
    {entries : Nat} (granted : allocs.granted) (positive : 0 < maxLen.toNat)
    (someEntries : 0 < entries)
    (capacity : (entries : Int) = intOfULong (maxLen / pageSize + 2)) :
    sgCreateMapper allocs maxLen =
      ⟨.ok (some (SgMapping.fresh entries)),
        [.acquire .mapper, .acquire (.pageArray entries),
          .acquire (.sgArray entries)]⟩ := by
  have nonzero : maxLen ≠ 0 := by
    rintro rfl
    exact absurd positive (by decide)
  obtain ⟨mapper, pages, sgl⟩ := granted
  have cleared := sgInitTable_eq someEntries
    (show entries ≤ (List.replicate entries Scatterlist.zero).length by simp)
  rw [overRange_replicate] at cleared
  rw [sgCreateMapper, if_neg nonzero, ← capacity]
  simp [mapper, pages, sgl, kcalloc, SgMapping.fresh, cleared]

theorem sgCreateMapper_ok {allocs : MapperAllocs} {maxLen : U64}
    (granted : allocs.granted) (positive : 0 < maxLen.toNat)
    (admitted : maxLen.toNat ≤ maxRwCount) :
    sgCreateMapper allocs maxLen =
      ⟨.ok (some (SgMapping.fresh (mapperCapacity maxLen))),
        [.acquire .mapper, .acquire (.pageArray (mapperCapacity maxLen)),
          .acquire (.sgArray (mapperCapacity maxLen))]⟩ :=
  sgCreateMapper_granted granted positive (Nat.succ_pos _)
    (maxPages_eq admitted).symm

/-- A mapper is refused for an empty buffer or for want of memory. -/
theorem sgCreateMapper_none {allocs : MapperAllocs} {maxLen : U64}
    (refused : ¬(allocs.granted ∧ 0 < maxLen.toNat)) :
    (sgCreateMapper allocs maxLen).result = .ok none ∧
      ∀ event ∈ (sgCreateMapper allocs maxLen).log,
        event.isBookkeeping := by
  by_cases empty : maxLen = 0
  · simp [sgCreateMapper, empty]
  have positive : 0 < maxLen.toNat := by
    rw [Nat.pos_iff_ne_zero]
    intro zero
    exact empty (BitVec.eq_of_toNat_eq zero)
  rw [sgCreateMapper, if_neg empty]
  generalize intOfULong (maxLen / pageSize + 2) = maxPages
  cases mapper : allocs.mapper with
  | false => simp
  | true =>
      cases pages : kcalloc allocs.pages maxPages (none : Option Page) with
      | none => simp [pages, Event.isBookkeeping]
      | some array =>
          cases sgl : kcalloc allocs.sgl maxPages Scatterlist.zero with
          | none => simp [pages, sgl, Event.isBookkeeping]
          | some table =>
              have grantedPages : allocs.pages = true := by
                by_contra notGranted
                simp [kcalloc, notGranted] at pages
              have grantedSgl : allocs.sgl = true := by
                by_contra notGranted
                simp [kcalloc, notGranted] at sgl
              exact absurd
                ⟨⟨mapper, grantedPages, grantedSgl⟩, positive⟩ refused

/-- Whatever length it was made for, a mapper is fresh, and its capacity is
an `int`. -/
theorem sgCreateMapper_fresh {allocs : MapperAllocs} {maxLen : U64}
    {sgm : SgMapping}
    (made : (sgCreateMapper allocs maxLen).result = .ok (some sgm)) :
    ∃ entries : Nat, (entries : Int) = intOfULong (maxLen / pageSize + 2) ∧
      sgCreateMapper allocs maxLen =
        ⟨.ok (some (SgMapping.fresh entries)),
          [.acquire .mapper, .acquire (.pageArray entries),
            .acquire (.sgArray entries)]⟩ ∧
      sgm = SgMapping.fresh entries := by
  have reached : 0 < maxLen.toNat ∧ allocs.granted := by
    by_contra refused
    have none := (sgCreateMapper_none (mt And.symm refused)).1
    rw [made] at none
    cases none
  obtain ⟨positive, granted⟩ := reached
  have nonzero : maxLen ≠ 0 := by
    rintro rfl
    exact absurd positive (by decide)
  by_cases nonnegative : 0 ≤ intOfULong (maxLen / pageSize + 2)
  · obtain ⟨entries, capacity⟩ := Int.eq_ofNat_of_zero_le nonnegative
    rcases Nat.eq_zero_or_pos entries with rfl | someEntries
    · -- An empty table has no last entry that could be marked.
      obtain ⟨mapper, pages, sgl⟩ := granted
      rw [sgCreateMapper, if_neg nonzero, capacity] at made
      simp [mapper, pages, sgl, kcalloc, sgInitTable, Run.require] at made
    · have created := sgCreateMapper_granted granted positive someEntries
        capacity.symm
      rw [created] at made
      cases made
      exact ⟨entries, capacity.symm, created, rfl⟩
  · -- No array has a negative number of entries.
    rw [sgCreateMapper, if_neg nonzero] at made
    generalize intOfULong (maxLen / pageSize + 2) = maxPages at *
    simp [granted.1, kcalloc, nonnegative] at made

/-- The arrays of a mapper have the size it remembers. -/
structure SgMapping.Sized (sgm : SgMapping) : Prop where
  pages : sgm.pages.length = sgm.maxPages
  sgl : sgm.sgl.length = sgm.maxPages
  bounded : sgm.maxPages < 2 ^ 31

theorem fresh_sized {entries : Nat} (bounded : entries < 2 ^ 31) :
    (SgMapping.fresh entries).Sized := by
  refine ⟨?_, ?_, ?_⟩
  · simp [SgMapping.fresh]
  · simp [SgMapping.fresh]
  · simp only [SgMapping.fresh]
    omega

theorem sgCreateMapper_sized {allocs : MapperAllocs} {maxLen : U64}
    {sgm : SgMapping}
    (made : (sgCreateMapper allocs maxLen).result = .ok (some sgm)) :
    sgm.Sized := by
  obtain ⟨entries, capacity, _, rfl⟩ := sgCreateMapper_fresh made
  have below : ((maxLen / pageSize + 2).setWidth 32).toInt < 2 ^ 31 :=
    BitVec.toInt_lt
  rw [intOfULong] at capacity
  exact fresh_sized (by omega)

/-! ### Pinning -/

/-- The mapper after all pages of the buffer were pinned. -/
def pinnedMapper (user : UserPages) (sgm : SgMapping)
    (start count : U64) : SgMapping :=
  { sgm with
    sgl := overRange (fun i _ =>
      userSegment user.page (start.toNat % 4096) count.toNat i)
      0 (pageSpan start count) sgm.sgl
    pages := overRange (fun i _ => some (user.page i))
      0 (pageSpan start count) sgm.pages
    mappedPages := pageSpan start count }

/-- The buffer fits the arrays of the mapper. -/
structure SgMapping.Fits (sgm : SgMapping) (start count : U64) : Prop where
  pages : pageSpan start count ≤ sgm.pages.length
  sgl : pageSpan start count ≤ sgm.sgl.length

theorem SgMapping.Sized.fits {sgm : SgMapping} {start count : U64}
    (sized : sgm.Sized) (within : pageSpan start count ≤ sgm.maxPages) :
    sgm.Fits start count ∧ pageSpan start count < 2 ^ 31 := by
  obtain ⟨pages, sgl, bounded⟩ := sized
  refine ⟨⟨?_, ?_⟩, ?_⟩
  · omega
  · omega
  · omega

theorem sgmGetUserPages_ok {user : UserPages} {sgm : SgMapping}
    {start count : U64} (touched : 0 < pageSpan start count)
    (small : pageSpan start count < 2 ^ 31) (fits : sgm.Fits start count)
    (pinned : user.rc = pageSpan start count) :
    sgmGetUserPages user sgm start count =
      ⟨.ok (pageSpan start count, pinnedMapper user sgm start count),
        user.pins.map fun page => .acquire (.pageRef page)⟩ := by
  have pages := nrPages_eq touched small
  have pagesFit := fits.pages
  have notShort : ¬user.rc < pageSpan start count := by omega
  have rcNat : user.rc.toNat = pageSpan start count := by omega
  have cleared : ((pageSpan start count : Int) - 1).toNat ≤
      pageSpan start count := by omega
  rw [nrPages] at pages
  rw [sgmGetUserPages]
  simp only [pages,
    sgInitTable_eq touched fits.sgl, Run.ok_bind, Run.after_nil]
  rw [modifyRange_eq _ (by omega), Run.demand_some, Run.ok_bind,
    modifyRange_eq _ (by rw [overRange_length]; omega), Run.demand_some,
    Run.ok_bind, overRange_absorb _ _ _ (Nat.le_refl 0) (by omega)]
  have filled : ∀ index < pageSpan start count,
      (overRange (fun i _ => some (user.page i)) 0 user.rc.toNat
        sgm.pages)[index]? = some (some (user.page index)) := by
    intro index inside
    exact overRange_value_getElem? _ (by omega) (by omega)
  rw [if_neg notShort, populateSgl_eq touched filled
    (by rw [overRange_length]; exact fits.sgl),
    overRange_absorb _ _ _ (Nat.le_refl 0) (Nat.le_refl _)]
  simp [pinned, pinnedMapper]

/-- The mapper after a call that could not pin every page: the pages it did
pin are still in the array, but no longer counted. -/
def unpinnedMapper (user : UserPages) (sgm : SgMapping)
    (start count : U64) : SgMapping :=
  { sgm with
    sgl := overRange (fun _ _ => Scatterlist.zero)
      0 (pageSpan start count) sgm.sgl
    pages := overRange (fun i _ => some (user.page i)) 0 user.rc.toNat
      (overRange (fun _ _ => none) 0 (pageSpan start count - 1) sgm.pages)
    mappedPages := 0 }

/-- A short pin gives back exactly the pages it pinned. -/
theorem sgmGetUserPages_short {user : UserPages} {sgm : SgMapping}
    {start count : U64} (touched : 0 < pageSpan start count)
    (small : pageSpan start count < 2 ^ 31) (fits : sgm.Fits start count)
    (idle : sgm.mappedPages = 0)
    (short : user.rc < pageSpan start count) :
    sgmGetUserPages user sgm start count =
      ⟨.ok (-enomem, unpinnedMapper user sgm start count),
        (user.pins.map fun page => .acquire (.pageRef page)) ++
          user.pins.map fun page => .release (.pageRef page)⟩ := by
  have pages := nrPages_eq touched small
  have pagesFit := fits.pages
  have cleared : ((pageSpan start count : Int) - 1).toNat =
      pageSpan start count - 1 := by omega
  have counted : (if user.rc > 0 then user.rc else sgm.mappedPages).toNat =
      user.rc.toNat := by
    split
    · rfl
    · omega
  rw [nrPages] at pages
  rw [sgmGetUserPages]
  simp only [pages,
    sgInitTable_eq touched fits.sgl, Run.ok_bind, Run.after_nil, cleared]
  rw [modifyRange_eq _ (by omega), Run.demand_some, Run.ok_bind,
    modifyRange_eq _ (by rw [overRange_length]; omega), Run.demand_some,
    Run.ok_bind, if_pos short, counted]
  have filled : ∀ index < user.rc.toNat,
      (overRange (fun i _ => some (user.page i)) 0 user.rc.toNat
        (overRange (fun _ _ => none) 0 (pageSpan start count - 1)
          sgm.pages))[0 + index]? = some (some (user.page (0 + index))) := by
    intro index inside
    rw [Nat.zero_add]
    exact overRange_value_getElem? _ (by rw [overRange_length]; omega) inside
  rw [putPages_eq filled]
  simp [unpinnedMapper, UserPages.pins, Function.comp_def]

theorem pinnedMapper_pages_getElem? {user : UserPages} {sgm : SgMapping}
    {start count : U64} (fits : sgm.Fits start count) {i : Nat}
    (inside : i < pageSpan start count) :
    (pinnedMapper user sgm start count).pages[i]? =
      some (some (user.page i)) :=
  overRange_value_getElem? _ fits.pages inside

theorem pinnedMapper_sgl_getElem? {user : UserPages} {sgm : SgMapping}
    {start count : U64} (fits : sgm.Fits start count) {i : Nat}
    (inside : i < pageSpan start count) :
    (pinnedMapper user sgm start count).sgl[i]? =
      some (userSegment user.page (start.toNat % 4096) count.toNat i) :=
  overRange_value_getElem? _ fits.sgl inside

theorem sgmPutUserPages_pinned {user : UserPages} {sgm : SgMapping}
    {start count : U64} {dirToDev : Int} (toDevice : dirToDev ≠ 0)
    (fits : sgm.Fits start count) (pinned : user.rc = pageSpan start count) :
    sgmPutUserPages (pinnedMapper user sgm start count) dirToDev =
      ⟨.ok (0, { pinnedMapper user sgm start count with mappedPages := 0 }),
        user.pins.map fun page => .release (.pageRef page)⟩ := by
  have filled : ∀ index < pageSpan start count,
      (pinnedMapper user sgm start count).pages[0 + index]? =
        some (some (user.page (0 + index))) := by
    intro index inside
    rw [Nat.zero_add]
    exact pinnedMapper_pages_getElem? fits inside
  have mapped : (pinnedMapper user sgm start count).mappedPages.toNat =
      pageSpan start count := rfl
  rw [sgmPutUserPages, if_neg toDevice, mapped, putPages_eq filled]
  simp [UserPages.pins, pinned, Function.comp_def]

theorem sgDestroyMapper_eq {sgm : SgMapping} (idle : sgm.mappedPages ≤ 0) :
    sgDestroyMapper sgm =
      ⟨.ok (), [.release (.sgArray sgm.sgl.length),
        .release (.pageArray sgm.pages.length), .release .mapper]⟩ := by
  have unmapped : ¬sgm.mappedPages > 0 := by omega
  simp [sgDestroyMapper, unmapped]

/-! ### The scatterlist describes the buffer -/

/-- The bytes of memory one entry refers to. -/
def Scatterlist.bytes (entry : Scatterlist) : List (Option Page × Nat) :=
  (List.range entry.length.toNat).map fun k =>
    (entry.page, entry.offset.toNat + k)

/-- The entries a successful `sgm_get_user_pages` leaves in the table. -/
def userSegments (page : Nat → Page) (start count : U64) :
    List Scatterlist :=
  (List.range (pageSpan start count)).map
    (userSegment page (start.toNat % 4096) count.toNat)

theorem pinnedMapper_sgl_take {user : UserPages} {sgm : SgMapping}
    {start count : U64} (fits : sgm.Fits start count) :
    (pinnedMapper user sgm start count).sgl.take (pageSpan start count) =
      userSegments user.page start count := by
  apply List.ext_getElem?
  intro index
  rw [List.getElem?_take, userSegments, List.getElem?_map]
  by_cases inside : index < pageSpan start count
  · rw [if_pos inside, pinnedMapper_sgl_getElem? fits inside,
      List.getElem?_range inside, Option.map_some]
  · rw [if_neg inside, List.getElem?_eq_none (by simpa using inside)]
    rfl

/-- Where the byte `k` of the user buffer lies. -/
def userByte (page : Nat → Page) (start : U64) (k : Nat) :
    Option Page × Nat :=
  (some (page ((start.toNat % 4096 + k) / 4096)),
    (start.toNat % 4096 + k) % 4096)

theorem userSegment_fields (page : Nat → Page) {lead : Nat}
    (inside : lead < 4096) (count i : Nat) :
    (userSegment page lead count i).offset.toNat =
        max lead (4096 * i) - 4096 * i ∧
      (userSegment page lead count i).length.toNat =
        min (lead + count) (4096 * (i + 1)) - max lead (4096 * i) := by
  constructor
  · simp only [userSegment, BitVec.toNat_ofNat]
    omega
  · simp only [userSegment, BitVec.toNat_ofNat]
    omega

theorem userSegments_bytes (page : Nat → Page) (start count : U64) :
    (userSegments page start count).flatMap Scatterlist.bytes =
      (List.range count.toNat).map (userByte page start) := by
  have leadSmall : start.toNat % 4096 < 4096 := by omega
  have spanEq : pageSpan start count =
      (start.toNat % 4096 + count.toNat + 4095) / 4096 := rfl
  have target : userByte page start = fun k =>
      (some (page ((start.toNat % 4096 + k) / 4096)),
        (start.toNat % 4096 + k) % 4096) := rfl
  rw [target, userSegments]
  generalize start.toNat % 4096 = lead at *
  have entry : ∀ i ∈ List.range (pageSpan start count),
      (userSegment page lead count.toNat i).bytes =
        (List.range (min (lead + count.toNat) (4096 * (i + 1)) -
          max lead (4096 * i))).map fun k =>
            (some (page ((max lead (4096 * i) + k) / 4096)),
              (max lead (4096 * i) + k) % 4096) := by
    intro i _
    obtain ⟨offset, length⟩ :=
      userSegment_fields page leadSmall count.toNat i
    rw [Scatterlist.bytes, offset, length]
    apply List.map_congr_left
    intro k member
    have inside := List.mem_range.mp member
    have quotient : (max lead (4096 * i) + k) / 4096 = i := by omega
    have remainder : (max lead (4096 * i) + k) % 4096 =
        max lead (4096 * i) - 4096 * i + k := by omega
    rw [quotient, remainder]
    rfl
  have size : min (lead + count.toNat) (4096 * pageSpan start count) - lead =
      count.toNat := by omega
  rw [List.flatMap_map, List.flatMap_congr entry,
    AddressSpan.flatMap_blocks
      (fun position => (some (page (position / 4096)), position % 4096)),
    size]

theorem userSegments_positive (page : Nat → Page) {buf count : U64}
    (positive : 0 < count.toNat) :
    ∀ entry ∈ userSegments page buf count, 0 < entry.length.toNat := by
  intro entry member
  obtain ⟨i, inside, rfl⟩ := List.mem_map.mp member
  rw [(userSegment_fields page (by omega) count.toNat i).2]
  have bound := List.mem_range.mp inside
  unfold pageSpan at bound
  omega

theorem sum_userSegments (page : Nat → Page) (buf count : U64) :
    ((userSegments page buf count).map fun part =>
      part.length.toNat).sum = count.toNat := by
  have bytes := congrArg List.length (userSegments_bytes page buf count)
  simpa [List.length_flatMap, Scatterlist.bytes] using bytes

end Xpcie
