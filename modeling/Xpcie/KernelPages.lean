import Xpcie.UserPages

/-!
# Mapping kernel memory

`sgm_kernel_pages` looks up the pages of a `vmalloc`ed buffer one by one and
takes no reference to them.  What it leaves in the mapper is what pinning the
same pages for a user would have left.
-/

namespace Xpcie

open EffectLog BoundedArray

/-- The lookup loop.  Returns whether every page was found. -/
def vmallocPages (vmallocToPage : U64 → Option Page) :
    U64 → Nat → Nat → List (Option Page) → Exec (Bool × List (Option Page))
  | _, _, 0, pages => pure (true, pages)
  | virt, i, remaining + 1, pages => do
      let page := vmallocToPage virt
      let pages ← Run.demand (modifyAt pages i fun _ => page) .outOfBounds
      match page with
      | none => pure (false, pages)
      | some _ =>
          -- a 64-bit kernel has no high memory, so PageHighMem is never true
          vmallocPages vmallocToPage (virt + pageSize) (i + 1) remaining pages

/-- Create an sgm map from `vmalloc`ed memory.  Populating the scatterlist
repeats `sgm_get_user_pages` statement by statement. -/
def sgmKernelPages (vmallocToPage : U64 → Option Page) (sgm : SgMapping)
    (start count : U64) : Exec (Int × SgMapping) := do
  let first := pageNumber start
  let last := pageNumber (start + count - 1)
  let nrPages := intOfULong (last - first + 1)
  -- no pages should currently be mapped
  bugOn (sgm.mappedPages > 0)
  if start + count < start then pure (-einval, sgm)
  else if nrPages > sgm.maxPages then pure (-einval, sgm)
  else if count = 0 then pure (0, sgm)
  else do
    let sgl ← sgInitTable sgm.sgl nrPages
    -- get pages belonging to vmalloc()ed space
    let (found, pages) ←
      vmallocPages vmallocToPage start 0 nrPages.toNat sgm.pages
    if found then do
      let sgl ← populateSgl pages sgl start count nrPages
      pure (nrPages, { sgm with sgl, pages, mappedPages := nrPages })
    else pure (-enomem, { sgm with sgl, pages, mappedPages := 0 })

section Lookup

variable {vmallocToPage : U64 → Option Page} {page : Nat → Page}

theorem vmallocPages_found {virt : U64} {i remaining : Nat}
    {pages : List (Option Page)}
    (found : ∀ index < remaining,
      vmallocToPage (virt + BitVec.ofNat 64 (4096 * index)) =
        some (page (i + index))) :
    vmallocPages vmallocToPage virt i remaining pages =
      (do
        let pages ← Run.demand
          (modifyRange (fun index _ => some (page index)) i remaining pages)
          .outOfBounds
        pure (true, pages)) := by
  induction remaining generalizing virt i pages with
  | zero => simp [vmallocPages, modifyRange]
  | succ remaining induction =>
      have here : vmallocToPage virt = some (page i) := by
        simpa using found 0 (Nat.succ_pos remaining)
      have later : ∀ index < remaining,
          vmallocToPage (virt + pageSize + BitVec.ofNat 64 (4096 * index)) =
            some (page (i + 1 + index)) := by
        intro index inside
        have next := found (index + 1) (by omega)
        rw [Nat.mul_succ, Nat.add_comm (4096 * index), BitVec.ofNat_add,
          ← BitVec.add_assoc] at next
        rw [Nat.add_right_comm]
        exact next
      simp only [vmallocPages, here, modifyRange]
      cases updated : modifyAt pages i fun _ => some (page i) with
      | none =>
          simp only [Run.demand_none, Run.error_bind, Option.bind_eq_bind,
            Option.bind_none]
      | some next =>
          simp only [Run.demand_some, Run.ok_bind, Run.after_nil,
            induction later, Option.bind_eq_bind, Option.bind_some]

/-- A missing page ends the loop, and no entry beyond the array was set. -/
theorem vmallocPages_missing {virt : U64} {i remaining : Nat}
    {pages : List (Option Page)}
    (missing : ∃ index < remaining,
      vmallocToPage (virt + BitVec.ofNat 64 (4096 * index)) = none)
    (fits : i + remaining ≤ pages.length) :
    ∃ left, vmallocPages vmallocToPage virt i remaining pages =
      ⟨.ok (false, left), []⟩ ∧ left.length = pages.length := by
  induction remaining generalizing virt i pages with
  | zero =>
      obtain ⟨index, inside, _⟩ := missing
      cases inside
  | succ remaining induction =>
      have inside : i < pages.length := by omega
      have update := fun page : Option Page =>
        modifyAt_of_lt inside fun _ => page
      cases here : vmallocToPage virt with
      | none =>
          refine ⟨pages.modify i fun _ => none, ?_, List.length_modify ..⟩
          simp only [vmallocPages, here, update, Run.demand_some, Run.ok_bind,
            Run.after_nil, Run.pure_eq]
      | some page =>
          obtain ⟨index, before, absent⟩ := missing
          cases index with
          | zero =>
              rw [Nat.mul_zero, BitVec.add_zero, here] at absent
              cases absent
          | succ index =>
              rw [Nat.mul_succ, Nat.add_comm (4096 * index),
                BitVec.ofNat_add, ← BitVec.add_assoc] at absent
              obtain ⟨left, run, length⟩ := @induction (virt + pageSize)
                (i + 1) (pages.modify i fun _ => some page)
                ⟨index, by omega, absent⟩ (by rw [List.length_modify]; omega)
              refine ⟨left, ?_, length.trans (List.length_modify ..)⟩
              simp only [vmallocPages, here, update, Run.demand_some,
                Run.ok_bind, Run.after_nil, run]

end Lookup

/-! ## What a call leaves -/

/-- The lookup of `sgm_kernel_pages` succeeds for the whole of a buffer that
is not empty. -/
structure AllFound (vmallocToPage : U64 → Option Page)
    (start count : U64) : Prop where
  positive : 1 ≤ count.toNat
  noWrap : ¬start + count < start
  found : ∀ i < pageSpan start count,
    vmallocToPage (start + BitVec.ofNat 64 (4096 * i)) ≠ none

theorem AllFound.page {vmallocToPage : U64 → Option Page} {start count : U64}
    (all : AllFound vmallocToPage start count) :
    ∀ i < pageSpan start count,
      vmallocToPage (start + BitVec.ofNat 64 (4096 * i)) =
        some ((vmallocToPage
          (start + BitVec.ofNat 64 (4096 * i))).getD 0) := by
  intro i inside
  cases page : vmallocToPage (start + BitVec.ofNat 64 (4096 * i)) with
  | none => exact absurd page (all.found i inside)
  | some page => rfl

section Call

variable {vmallocToPage : U64 → Option Page} {sgm : SgMapping}
  {start count : U64}

/-- The mapper after the pages `page 0`, `page 1`, … were found. -/
def foundMapper (page : Nat → Page) (sgm : SgMapping)
    (start count : U64) : SgMapping :=
  pinnedMapper { rc := pageSpan start count, page } sgm start count

/-- Past the wrap-around check, a buffer that is not empty is refused for its
page count or mapped. -/
theorem sgmKernelPages_split (positive : 1 ≤ count.toNat)
    (idle : sgm.mappedPages = 0) (noWrap : ¬start + count < start) :
    sgmKernelPages vmallocToPage sgm start count =
      (if sgm.maxPages < nrPages start count then ⟨.ok (-einval, sgm), []⟩
      else do
        let sgl ← sgInitTable sgm.sgl (nrPages start count)
        let (found, pages) ← vmallocPages vmallocToPage start 0
          (nrPages start count).toNat sgm.pages
        if found then do
          let sgl ← populateSgl pages sgl start count (nrPages start count)
          pure (nrPages start count,
            { sgm with sgl, pages, mappedPages := nrPages start count })
        else pure (-enomem, { sgm with sgl, pages, mappedPages := 0 })) := by
  have unmapped : ¬sgm.mappedPages > 0 := by omega
  have nonzero : count ≠ 0 := by
    rintro rfl
    exact absurd positive (by decide)
  simp only [sgmKernelPages, bugOn_of_not unmapped, if_neg noWrap,
    if_neg nonzero, Run.ok_bind, Run.after_nil]
  rfl

/-- A buffer that fits and does not wrap gets past the checks. -/
theorem sgmKernelPages_checked (positive : 1 ≤ count.toNat)
    (sized : sgm.Sized) (idle : sgm.mappedPages = 0)
    (within : pageSpan start count ≤ sgm.maxPages)
    (noWrap : ¬start + count < start) :
    sgmKernelPages vmallocToPage sgm start count =
      (do
        let sgl := overRange (fun _ _ => Scatterlist.zero) 0
          (pageSpan start count) sgm.sgl
        let (found, pages) ← vmallocPages vmallocToPage start 0
          (pageSpan start count) sgm.pages
        if found then do
          let sgl ← populateSgl pages sgl start count (pageSpan start count)
          pure ((pageSpan start count : Int),
            { sgm with sgl, pages, mappedPages := pageSpan start count })
        else pure (-enomem, { sgm with sgl, pages, mappedPages := 0 })) := by
  obtain ⟨fits, small⟩ := sized.fits within
  have touched := pageSpan_pos start positive
  have roomy : ¬sgm.maxPages < (pageSpan start count : Int) :=
    Int.not_lt.mpr within
  rw [sgmKernelPages_split positive idle noWrap, nrPages_eq touched small,
    if_neg roomy, sgInitTable_eq touched fits.sgl]
  simp only [Run.ok_bind, Run.after_nil, Int.toNat_natCast]

theorem sgmKernelPages_ok {page : Nat → Page} (positive : 1 ≤ count.toNat)
    (sized : sgm.Sized) (idle : sgm.mappedPages = 0)
    (within : pageSpan start count ≤ sgm.maxPages)
    (noWrap : ¬start + count < start)
    (found : ∀ i < pageSpan start count,
      vmallocToPage (start + BitVec.ofNat 64 (4096 * i)) = some (page i)) :
    sgmKernelPages vmallocToPage sgm start count =
      ⟨.ok (pageSpan start count, foundMapper page sgm start count), []⟩ := by
  obtain ⟨fits, small⟩ := sized.fits within
  have pagesFit := fits.pages
  have lookup : vmallocPages vmallocToPage start 0 (pageSpan start count)
      sgm.pages = _ := vmallocPages_found fun index inside => by
    rw [Nat.zero_add]
    exact found index inside
  have filled : ∀ index < pageSpan start count,
      (overRange (fun i _ => some (page i)) 0 (pageSpan start count)
        sgm.pages)[index]? = some (some (page index)) := by
    intro index inside
    exact overRange_value_getElem? _ fits.pages inside
  rw [modifyRange_eq _ (by omega), Run.demand_some, Run.ok_bind] at lookup
  rw [sgmKernelPages_checked positive sized idle within noWrap, lookup]
  simp only [Run.after_nil, Run.pure_eq, Run.ok_bind, if_true]
  rw [populateSgl_eq (pageSpan_pos start positive) filled
    (by rw [overRange_length]; exact fits.sgl),
    overRange_absorb _ _ _ (Nat.le_refl 0) (Nat.le_refl _)]
  rfl

/-- An empty buffer is mapped by doing nothing. -/
theorem sgmKernelPages_empty (idle : sgm.mappedPages = 0) :
    ∃ rc, sgmKernelPages vmallocToPage sgm start 0 =
      ⟨.ok (rc, sgm), []⟩ := by
  have unmapped : ¬sgm.mappedPages > 0 := by omega
  rw [sgmKernelPages, bugOn_of_not unmapped, Run.ok_bind, Run.after_nil]
  split
  · exact ⟨-einval, rfl⟩
  · split
    · exact ⟨-einval, rfl⟩
    · exact ⟨0, rfl⟩

/-- Unless all pages of a buffer are found, the call maps nothing and takes
nothing. -/
theorem sgmKernelPages_unmapped (sized : sgm.Sized)
    (idle : sgm.mappedPages = 0)
    (within : pageSpan start count ≤ sgm.maxPages)
    (missing : ¬AllFound vmallocToPage start count) :
    ∃ rc left, sgmKernelPages vmallocToPage sgm start count =
        ⟨.ok (rc, left), []⟩ ∧
      (1 ≤ count.toNat → rc < 0) ∧ left.Sized ∧ left.mappedPages = 0 := by
  by_cases empty : count = 0
  · obtain ⟨rc, run⟩ := @sgmKernelPages_empty vmallocToPage sgm start idle
    subst empty
    exact ⟨rc, sgm, run, fun positive => absurd positive (by decide), sized,
      idle⟩
  have positive : 1 ≤ count.toNat := by
    rw [Nat.succ_le_iff, Nat.pos_iff_ne_zero]
    intro zero
    exact empty (BitVec.eq_of_toNat_eq zero)
  obtain ⟨fits, small⟩ := sized.fits within
  have unmapped : ¬sgm.mappedPages > 0 := by omega
  by_cases noWrap : start + count < start
  · refine ⟨-einval, sgm, ?_, fun _ => by decide, sized, idle⟩
    simp only [sgmKernelPages, bugOn_of_not unmapped, if_pos noWrap,
      Run.ok_bind, Run.after_nil, Run.pure_eq]
  · have absent : ∃ index < pageSpan start count,
        vmallocToPage (start + BitVec.ofNat 64 (4096 * index)) = none := by
      by_contra all
      exact missing ⟨positive, noWrap, fun index inside absent =>
        all ⟨index, inside, absent⟩⟩
    have roomy : 0 + pageSpan start count ≤ sgm.pages.length := by
      rw [Nat.zero_add]
      exact fits.pages
    obtain ⟨pages, lookup, length⟩ := vmallocPages_missing absent roomy
    rw [sgmKernelPages_checked positive sized idle within noWrap, lookup]
    refine ⟨_, _, rfl, fun _ => by decide, ?_, rfl⟩
    obtain ⟨pagesSized, sglSized, bounded⟩ := sized
    refine ⟨?_, ?_, bounded⟩
    · rw [← pagesSized, ← length]
    · rw [← sglSized, overRange_length]

/-! ## Agreement with the user path -/

/-- The pointer that steps through the buffer page by page keeps its offset
into the page. -/
theorem virtualPage_step {i : Nat}
    (noWrap : start.toNat + count.toNat < 2 ^ 64)
    (inside : i < pageSpan start count) :
    virtualPage (start + BitVec.ofNat 64 (4096 * i)).toNat =
      start.toNat / 4096 + i := by
  have position : (start + BitVec.ofNat 64 (4096 * i)).toNat =
      start.toNat + 4096 * i := by
    unfold pageSpan at inside
    rw [BitVec.toNat_add, BitVec.toNat_ofNat]
    omega
  rw [virtualPage, position]
  omega

/-- Given the same pages, pinning a buffer and mapping it for the kernel
return the same value and leave the same mapper. -/
theorem sgmGetUserPages_agrees {user : UserPages} {lookup : Nat → Page}
    (positive : 1 ≤ count.toNat) (admitted : count.toNat ≤ maxRwCount)
    (noWrap : start.toNat + count.toNat < 2 ^ 64) (sized : sgm.Sized)
    (idle : sgm.mappedPages = 0)
    (within : nrPages start count ≤ sgm.maxPages)
    (pinned : user.rc = nrPages start count)
    (userPages : ∀ i < user.rc.toNat,
      user.page i = lookup ((pageNumber start).toNat + i))
    (kernelPages : ∀ virt : U64,
      virtualPage virt.toNat ∈ touchedPages start count →
        vmallocToPage virt = some (lookup (virtualPage virt.toNat))) :
    ∃ mapped,
      (sgmGetUserPages user sgm start count).result =
        .ok (nrPages start count, mapped) ∧
      (sgmKernelPages vmallocToPage sgm start count).result =
        .ok (nrPages start count, mapped) := by
  have small := pageSpan_lt_of_admitted start admitted
  have touchesPage := pageSpan_pos start positive
  rw [nrPages_eq touchesPage small] at within pinned ⊢
  have fits := (sized.fits within).1
  have run := sgmGetUserPages_ok touchesPage small fits pinned
  have forward : ¬start + count < start := by
    rw [BitVec.lt_def, BitVec.toNat_add, Nat.mod_eq_of_lt noWrap]
    omega
  have found : ∀ i < pageSpan start count,
      vmallocToPage (start + BitVec.ofNat 64 (4096 * i)) =
        some (user.page i) := by
    intro i inside
    have page := virtualPage_step noWrap inside
    have touched : virtualPage (start + BitVec.ofNat 64 (4096 * i)).toNat ∈
        touchedPages start count := by
      rw [touchedPages_eq_Ico positive, page, Finset.mem_Ico]
      omega
    rw [kernelPages _ touched, page, userPages i (by omega),
      pageNumber_toNat]
  have kernelRun := sgmKernelPages_ok positive sized idle within forward found
  have same : foundMapper user.page sgm start count =
      pinnedMapper user sgm start count := rfl
  rw [same] at kernelRun
  exact ⟨_, congrArg Run.result run, congrArg Run.result kernelRun⟩

end Call

theorem sgmGetUserPages_agrees_straddling :
    ∃ mapped,
      (sgmGetUserPages (identityPages 2 1) (SgMapping.fresh 2) 0x1fff
        2).result = .ok (nrPages 0x1fff 2, mapped) ∧
      (sgmKernelPages (fun virt => some (virtualPage virt.toNat))
        (SgMapping.fresh 2) 0x1fff 2).result =
          .ok (nrPages 0x1fff 2, mapped) :=
  have pages : ∀ i < (identityPages 2 1).rc.toNat,
      (identityPages 2 1).page i = id ((pageNumber 0x1fff).toNat + i) :=
    fun _ _ => rfl
  sgmGetUserPages_agrees (by decide) (by decide) (by decide)
    (fresh_sized (by decide)) rfl (by decide) (by decide) pages
    fun _ _ => rfl

end Xpcie
