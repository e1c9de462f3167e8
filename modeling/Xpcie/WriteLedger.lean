import Mathlib.Algebra.BigOperators.Pi
import Mathlib.Algebra.Order.BigOperators.Group.Finset
import Xpcie.Library.Interleaving
import Xpcie.Write

/-!
# What writes leave behind

Each kernel call of a write may fail, and the call then dies with what it has
taken so far.  Any number of writes may be under way at once, with their
steps in any order: nothing is ever given back that is not held, and what is
left in the end is the sum of what each of them leaves.
-/

namespace Xpcie

open EffectLog Interleaving

/-- The mapper and its two arrays. -/
def mapperResources (count : U64) : List Resource :=
  [.mapper, .pageArray (mapperCapacity count),
    .sgArray (mapperCapacity count)]

def pinnedResources (kernel : KernelCalls) (count : U64) : List Resource :=
  mapperResources count ++ kernel.user.pins.map .pageRef

instance (allocs : MapperAllocs) : Decidable allocs.granted :=
  inferInstanceAs (Decidable (_ ∧ _ ∧ _))

/-- What a call leaves behind, by the first kernel call that fails. -/
def WriteCall.kept (call : WriteCall) : List Resource :=
  let kernel := call.kernel
  if ¬(kernel.allocs.granted ∧ 0 < call.count.toNat) then []
  else if kernel.user.rc ≠ pageSpan call.buf call.count then
    mapperResources call.count
  else
    match kernel.mapped call.buf call.count, kernel.coherent with
    | [], _ => pinnedResources kernel call.count
    | _ :: _, none =>
        pinnedResources kernel call.count ++
          [.sgMapping (pageSpan call.buf call.count) true]
    | sgl@(_ :: _), some grant =>
        [.coherent (sgl.length * xdmaDescSize) grant.bus]

/-! ## Taking and giving back -/

section Settles

variable (resource : Resource) {held : Int}

theorem settles_acquires (solvent : 0 ≤ held) (taken : List Resource) :
    Settles Event.change resource held (taken.map .acquire)
      (held + taken.count resource) := by
  have changes : ∀ first : Resource, (Event.acquire first).change resource =
      if first == resource then 1 else 0 := by
    intro first
    simp [Event.change]
  have settles : Settles Event.change resource held (taken.map .acquire)
      (held + 1 * (taken.countP (· == resource) : Int)) :=
    Settles.of_map changes solvent (by omega)
  rwa [Int.one_mul, ← List.count_eq_countP] at settles

theorem settles_releases (solvent : 0 ≤ held) (given : List Resource) :
    Settles Event.change resource (held + given.count resource)
      (given.map .release) held := by
  have changes : ∀ first : Resource, (Event.release first).change resource =
      if first == resource then -1 else 0 := by
    intro first
    simp [Event.change]
  have left : held + given.count resource +
      -1 * (given.countP (· == resource) : Int) = held := by
    rw [← List.count_eq_countP]
    omega
  have settles : Settles Event.change resource (held + given.count resource)
      (given.map .release) (held + given.count resource +
        -1 * (given.countP (· == resource) : Int)) :=
    Settles.of_map changes (by omega) (by rw [left]; exact solvent)
  rwa [left] at settles

theorem settles_useDevice (solvent : 0 ≤ held) :
    Settles Event.change resource held [.useDevice] held := by
  apply Settles.of_neutral solvent
  intro event member
  rw [List.mem_singleton.mp member]
  rfl

end Settles

/-- A mapper that is refused gives back what was taken for it. -/
theorem sgCreateMapper_refused {allocs : MapperAllocs} {maxLen : U64}
    (refused : ¬(allocs.granted ∧ 0 < maxLen.toNat)) :
    ∃ taken : List Resource, (sgCreateMapper allocs maxLen).log =
      taken.map .acquire ++ taken.reverse.map .release := by
  by_cases empty : maxLen = 0
  · exact ⟨[], by simp [sgCreateMapper, empty]⟩
  have positive : 0 < maxLen.toNat := by
    rw [Nat.pos_iff_ne_zero]
    intro zero
    exact empty (BitVec.eq_of_toNat_eq zero)
  rw [sgCreateMapper, if_neg empty]
  generalize intOfULong (maxLen / pageSize + 2) = maxPages
  cases mapper : allocs.mapper with
  | false => exact ⟨[], by simp⟩
  | true =>
      cases pages : kcalloc allocs.pages maxPages (none : Option Page) with
      | none => exact ⟨[.mapper], by simp [pages]⟩
      | some array =>
          cases sgl : kcalloc allocs.sgl maxPages Scatterlist.zero with
          | none =>
              exact ⟨[.mapper, .pageArray array.length], by simp [pages, sgl]⟩
          | some table =>
              have grantedPages : allocs.pages = true := by
                by_contra notGranted
                simp [kcalloc, notGranted] at pages
              have grantedSgl : allocs.sgl = true := by
                by_contra notGranted
                simp [kcalloc, notGranted] at sgl
              exact absurd
                ⟨⟨mapper, grantedPages, grantedSgl⟩, positive⟩ refused

theorem settles_returned (resource : Resource) (taken : List Resource) :
    Settles Event.change resource 0
      (taken.map .acquire ++ taken.reverse.map .release) 0 := by
  have first := settles_acquires resource (Int.le_refl 0) taken
  have second := settles_releases resource (Int.le_refl 0)
    taken.reverse
  rw [List.count_reverse] at second
  exact first.append second

/-! ## The log of a call -/

section Log

variable {call : WriteCall} (host : Endian)

theorem pinAcquisitions_eq (kernel : KernelCalls) (count : U64) :
    pinAcquisitions kernel count =
      (pinnedResources kernel count).map .acquire := by
  simp [pinAcquisitions, pinnedResources, mapperResources]

/-- Register accesses, waiting and naming the device cost nothing. -/
theorem transferStart_neutral (transfer : XdmaTransfer)
    (status : Nat → U32) (resource : Resource) :
    ∀ event ∈ (transferStart host transfer status).log,
      event.change resource = 0 := by
  intro event member
  have log : (transferStart host transfer status).log =
      ((transferAccesses host transfer status).take 6).map .access ++
        .mdelay 2000 ::
          ((transferAccesses host transfer status).drop 6).map .access := rfl
  rw [log] at member
  rcases List.mem_append.mp member with early | late
  · obtain ⟨access, _, rfl⟩ := List.mem_map.mp early
    rfl
  · rcases List.mem_cons.mp late with rfl | late
    · rfl
    · obtain ⟨access, _, rfl⟩ := List.mem_map.mp late
      rfl

section Stages

variable {kernel : KernelCalls} {buf count : U64} (ppos : U64)

/-- The log of a call that dies on the way to the engine is that of its
preparation. -/
theorem log_of_error {fault : Fault} {log : List Event}
    (stopped : h2cPrepare host kernel buf count ppos = ⟨.error fault, log⟩) :
    (xpcieH2cWrite host kernel buf count ppos).log = log := by
  rw [xpcieH2cWrite, stopped, Run.error_bind]

/-- No mapper. -/
theorem h2cPrepare_refused
    (refused : ¬(kernel.allocs.granted ∧ 0 < count.toNat)) :
    h2cPrepare host kernel buf count ppos =
      ⟨.error .nullDereference, (sgCreateMapper kernel.allocs count).log⟩ := by
  have run : sgCreateMapper kernel.allocs count =
      ⟨.ok none, (sgCreateMapper kernel.allocs count).log⟩ := by
    rw [← (sgCreateMapper_none refused).1]
  rw [h2cPrepare, run, Run.ok_bind]
  simp

/-- Not all pages. -/
theorem h2cPrepare_short (admitted : count.toNat ≤ maxRwCount)
    (granted : kernel.allocs.granted) (requested : 0 < count.toNat)
    (short : kernel.user.rc < pageSpan buf count) :
    h2cPrepare host kernel buf count ppos =
      ⟨.error .bug, (pinnedResources kernel count).map .acquire ++
        (kernel.user.pins.map .pageRef).map .release⟩ := by
  have unpinned := sgmGetUserPages_short (pageSpan_pos buf requested)
    (pageSpan_lt_of_admitted buf admitted) (fresh_fits buf count) rfl short
  have noPages : (unpinnedMapper kernel.user
      (SgMapping.fresh (mapperCapacity count)) buf count).mappedPages =
        0 := rfl
  simp only [h2cPrepare, sgCreateMapper_ok granted requested admitted,
    Run.ok_bind, Run.demand_some, unpinned, bugOn_of noPages]
  simp [pinnedResources, mapperResources, Function.comp_def]

/-- No bus addresses. -/
theorem h2cPrepare_unmapped (admitted : count.toNat ≤ maxRwCount)
    (pin : kernel.Pin buf count) (unmapped : kernel.mapped buf count = []) :
    h2cPrepare host kernel buf count ppos =
      ⟨.error .bug,
        (pinnedResources kernel count).map .acquire ++ [.useDevice]⟩ := by
  rw [h2cPrepare_pin host ppos admitted pin, pciMapSg_pinned,
    pinAcquisitions_eq]
  simp [unmapped, h2cDescriptors_nil]

/-- No descriptors. -/
theorem h2cPrepare_undescribed (admitted : count.toNat ≤ maxRwCount)
    (pin : kernel.Pin buf count) (mapped : kernel.mapped buf count ≠ [])
    (refused : kernel.coherent = none) :
    h2cPrepare host kernel buf count ppos =
      ⟨.error .nullDereference,
        (pinnedResources kernel count).map .acquire ++
          [.useDevice, .acquire (.sgMapping (pageSpan buf count) true),
            .useDevice]⟩ := by
  rw [h2cPrepare_pin host ppos admitted pin, pciMapSg_pinned,
    pinAcquisitions_eq]
  simp [mapped, refused, h2cDescriptors_none host _ _ _ mapped]

end Stages

/-- A call that succeeds gives back all but its descriptors. -/
theorem settles_success {kernel : KernelCalls} {buf count : U64}
    (ppos : U64) (admitted : count.toNat ≤ maxRwCount)
    (succeed : kernel.Succeed buf count) {grant : Coherent}
    (allocated : kernel.coherent = some grant) (resource : Resource) :
    Settles Event.change resource 0
      (xpcieH2cWrite host kernel buf count ppos).log
      ([Resource.coherent ((kernel.mapped buf count).length * xdmaDescSize)
        grant.bus].count resource) := by
  let mapping := Resource.sgMapping (pageSpan buf count) true
  let array := Resource.coherent
    ((kernel.mapped buf count).length * xdmaDescSize) grant.bus
  let given := mapping :: kernel.user.pins.map Resource.pageRef ++
    (mapperResources count).reverse
  have log : (xpcieH2cWrite host kernel buf count ppos).log =
      (pinnedResources kernel count).map .acquire ++
        ([.useDevice] ++ ([mapping].map .acquire ++ ([.useDevice] ++
          ([array].map .acquire ++ ((transferStart host
            (preparedTransfer host kernel grant buf count ppos)
            kernel.status).log ++ ([.useDevice] ++
              given.map .release)))))) := by
    rw [xpcieH2cWrite_ok host ppos admitted succeed allocated, acquisitions,
      releases, pinAcquisitions_eq]
    simp [given, mapping, array, mapperResources]
  have total : ((pinnedResources kernel count).count resource : Int) +
      [mapping].count resource = given.count resource := by
    simp only [given, pinnedResources, List.count_append, List.count_cons,
      List.count_reverse, List.count_nil]
    omega
  have positive : ∀ taken : List Resource,
      0 ≤ (taken.count resource : Int) := fun taken => Int.natCast_nonneg _
  have pinned := settles_acquires resource (Int.le_refl 0)
    (pinnedResources kernel count)
  have mapped := settles_acquires resource
    (positive (pinnedResources kernel count)) [mapping]
  rw [total] at mapped
  have described := settles_acquires resource (positive given)
    [array]
  have back := settles_releases resource (positive [array])
    given
  rw [Int.add_comm] at back
  have enough : (0 : Int) ≤ given.count resource + [array].count resource := by
    have first := positive given
    have second := positive [array]
    omega
  rw [log]
  rw [Int.zero_add] at pinned
  refine pinned.append ((settles_useDevice resource (positive _)).append
    (mapped.append ((settles_useDevice resource (positive _)).append
      (described.append ((Settles.of_neutral enough
        (transferStart_neutral host _ _ resource)).append
          ((settles_useDevice resource enough).append back))))))

/-- What has been taken is there, and nothing else is given back. -/
theorem WriteCall.Admitted.settles (admitted : call.Admitted)
    (resource : Resource) :
    Settles Event.change resource 0 (call.run host).log
      (call.kept.count resource) := by
  obtain ⟨kernel, buf, count, ppos⟩ := call
  have small : count.toNat ≤ maxRwCount := admitted.count
  have bounded : kernel.user.rc ≤ pageSpan buf count := admitted.rc
  have pinned := settles_acquires resource (Int.le_refl 0)
    (pinnedResources kernel count)
  rw [Int.zero_add] at pinned
  have positive : ∀ taken : List Resource,
      0 ≤ (taken.count resource : Int) := fun taken => Int.natCast_nonneg _
  change Settles Event.change resource 0
    (xpcieH2cWrite host kernel buf count ppos).log _
  by_cases created : kernel.allocs.granted ∧ 0 < count.toNat
  · obtain ⟨granted, requested⟩ := created
    by_cases all : kernel.user.rc = pageSpan buf count
    · have pin : kernel.Pin buf count := ⟨requested, granted, all⟩
      rw [WriteCall.kept, if_neg (not_not_intro ⟨granted, requested⟩),
        if_neg (not_not_intro all)]
      cases mapped : kernel.mapped buf count with
      | nil =>
          rw [log_of_error host ppos
            (h2cPrepare_unmapped host ppos small pin mapped)]
          exact pinned.append (settles_useDevice resource (positive _))
      | cons entry entries =>
          have someEntries : kernel.mapped buf count ≠ [] := by
            rw [mapped]
            exact List.cons_ne_nil entry entries
          cases answer : kernel.coherent with
          | none =>
              rw [log_of_error host ppos (h2cPrepare_undescribed host ppos
                small pin someEntries answer)]
              have mapping := settles_acquires resource
                (positive (pinnedResources kernel count))
                [.sgMapping (pageSpan buf count) true]
              rw [← Int.natCast_add, ← List.count_append] at mapping
              exact pinned.append
                ((settles_useDevice resource (positive _)).append
                  (mapping.append (settles_useDevice resource (positive _))))
          | some grant =>
              have settles := settles_success host ppos small
                ⟨pin, someEntries, grant, answer⟩ answer resource
              rw [mapped] at settles
              exact settles
    · rw [WriteCall.kept, if_neg (not_not_intro ⟨granted, requested⟩),
        if_pos all, log_of_error host ppos
        (h2cPrepare_short host ppos small granted requested
          (lt_of_le_of_ne bounded all))]
      rw [pinnedResources, List.count_append, Int.natCast_add] at pinned
      exact pinned.append (settles_releases resource (positive _) _)
  · obtain ⟨taken, log⟩ := sgCreateMapper_refused created
    rw [WriteCall.kept, if_pos created, log_of_error host ppos
      (h2cPrepare_refused host ppos created), log]
    exact settles_returned resource taken

end Log

/-! ## Many calls at once -/

section Concurrent

variable {ι : Type} [DecidableEq ι] (host : Endian) (calls : ι → WriteCall)

/-- One event of one of the calls; the state is what is held. -/
def ledgerStep :
    Interleaving.State ι (Resource → Int) → ι →
      Interleaving.State ι (Resource → Int) :=
  Interleaving.step (fun held event => held + event.change)
    fun i => ((calls i).run host).log

/-- What is held after a run of events, in the order of the schedule. -/
def ledgerRun (schedule : List ι) :
    Interleaving.State ι (Resource → Int) :=
  schedule.foldl (ledgerStep host calls)
    { shared := 0
      position := fun _ => 0 }

variable [Fintype ι] {host calls}

omit [DecidableEq ι] [Fintype ι] in
theorem sum_change (log : List Event) (resource : Resource) :
    (log.map Event.change).sum resource = outstanding log resource := by
  induction log with
  | nil => rfl
  | cons event log induction =>
      rw [List.map_cons, List.sum_cons, Pi.add_apply, outstanding_cons,
        induction]

theorem ledgerRun_shared (schedule : List ι) (resource : Resource) :
    (ledgerRun host calls schedule).shared resource =
      Finset.univ.sum fun i => outstanding (((calls i).run host).log.take
        ((ledgerRun host calls schedule).position i)) resource := by
  let program := fun i => ((calls i).run host).log
  have none : ∀ i, added Event.change program i 0 = 0 := fun _ => rfl
  have start : (0 : Resource → Int) = 0 + Finset.univ.sum fun i =>
      added Event.change program i 0 := by
    rw [Finset.sum_congr rfl fun i _ => none i, Finset.sum_const_zero,
      add_zero]
  have sum : (ledgerRun host calls schedule).shared = _ :=
    @shared_eq_sum _ _ _ _ _ _ Event.change program 0
      { shared := 0
        position := fun _ => 0 } schedule start
  have whole := congrFun sum resource
  rw [zero_add, Finset.sum_apply] at whole
  simp only [added, sum_change] at whole
  exact whole

theorem concurrentWrites_ledger (admitted : ∀ i, (calls i).Admitted)
    (schedule : List ι) (resource : Resource) :
    0 ≤ (ledgerRun host calls schedule).shared resource ∧
      ((∀ i, ((calls i).run host).log.length ≤
          (ledgerRun host calls schedule).position i) →
        (ledgerRun host calls schedule).shared resource =
          Finset.univ.sum fun i => ((calls i).kept.count resource : Int)) := by
  have parts : (ledgerRun host calls schedule).shared resource = _ :=
    ledgerRun_shared schedule resource
  constructor
  · rw [parts]
    apply Finset.sum_nonneg
    intro i _
    have covered := ((admitted i).settles host resource).covered
      ((ledgerRun host calls schedule).position i)
    rwa [Int.zero_add] at covered
  · intro finished
    rw [parts]
    apply Finset.sum_congr rfl
    intro i _
    have settled := ((admitted i).settles host resource).settled
    rw [List.take_of_length_le (finished i)]
    rwa [Int.zero_add] at settled

end Concurrent

/-- The second call finds no memory for its descriptors. -/
def oneRefused : Bool → WriteCall
  | false => oneByteWrite
  | true =>
      { oneByteWrite with
        kernel := { oneByteWrite.kernel with coherent := none } }

theorem oneRefused_admitted (second : Bool) : (oneRefused second).Admitted := by
  cases second with
  | false => exact ⟨by decide, by decide⟩
  | true => exact ⟨by decide, by decide⟩

/-- Both calls come to their end, and the second one's mapper stays. -/
theorem concurrentWrites_ledger_oneRefused :
    let schedule := (List.replicate 32 [true, false]).flatten
    0 ≤ (ledgerRun .little oneRefused schedule).shared .mapper ∧
      (∀ i, ((oneRefused i).run .little).log.length ≤
        (ledgerRun .little oneRefused schedule).position i) ∧
      (ledgerRun .little oneRefused schedule).shared .mapper = 1 := by
  intro schedule
  have finished : ∀ i, ((oneRefused i).run .little).log.length ≤
      (ledgerRun .little oneRefused schedule).position i := by
    decide +kernel
  obtain ⟨nonnegative, settled⟩ := @concurrentWrites_ledger _ _ .little _ _
    oneRefused_admitted schedule .mapper
  exact ⟨nonnegative, finished, (settled finished).trans (by decide)⟩

end Xpcie
