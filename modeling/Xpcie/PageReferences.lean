import Xpcie.KernelPages
import Xpcie.Library.Runs

/-!
# Page references over the life of a mapper

Two functions map pages through a mapper and one gives them back.  Only one
of the two takes references, and the one that gives back cannot tell which
of them was called.
-/

namespace Xpcie

open EffectLog Runs

/-- A call on a mapper. -/
inductive MapperCall where
  | getUserPages (user : UserPages) (start count : U64)
  | kernelPages (vmallocToPage : U64 → Option Page) (start count : U64)
  | putUserPages (dirToDev : Int)

/-- The mapper after a call. -/
def MapperCall.run (sgm : SgMapping) : MapperCall → Exec SgMapping
  | .getUserPages user start count => do
      let (_rc, sgm) ← sgmGetUserPages user sgm start count
      pure sgm
  | .kernelPages vmallocToPage start count => do
      let (_rc, sgm) ← sgmKernelPages vmallocToPage sgm start count
      pure sgm
  | .putUserPages dirToDev => do
      let (_rc, sgm) ← sgmPutUserPages sgm dirToDev
      pure sgm

def runCalls : SgMapping → List MapperCall → Exec SgMapping
  | sgm, [] => pure sgm
  | sgm, call :: calls => do
      let sgm ← call.run sgm
      runCalls sgm calls

/-- A mapper from its creation to its end. -/
def mapperLife (allocs : MapperAllocs) (maxLen : U64)
    (calls : List MapperCall) : Exec Unit := do
  let made ← sgCreateMapper allocs maxLen
  let sgm ← Run.demand made .nullDereference
  let sgm ← runCalls sgm calls
  sgDestroyMapper sgm

/-- The state a call leads to. -/
def afterCall (sgm : SgMapping) (call : MapperCall) : SgMapping :=
  match (call.run sgm).result with
  | .ok next => next
  | .error _ => sgm

/-- Nothing is mapped while another buffer is, and every buffer fits.  A user
buffer has a page to pin, and the kernel pins at most the pages it was asked
for. -/
def MapperCall.Admitted (sgm : SgMapping) : MapperCall → Prop
  | .getUserPages user start count =>
      sgm.mappedPages = 0 ∧ 0 < pageSpan start count ∧
        pageSpan start count ≤ sgm.maxPages ∧ user.rc ≤ nrPages start count
  | .kernelPages _ start count =>
      sgm.mappedPages = 0 ∧ pageSpan start count ≤ sgm.maxPages
  | .putUserPages _ => True

/-- The call finds all pages of a kernel buffer. -/
def MapperCall.MapsKernel : MapperCall → Prop
  | .kernelPages vmallocToPage start count =>
      AllFound vmallocToPage start count
  | _ => False

/-- No page was ever given back more often than it was taken, and none is
still taken at the end. -/
def PageRefsBalance (log : List Event) : Prop :=
  ∀ page, (∀ k, 0 ≤ outstanding (log.take k) (.pageRef page)) ∧
    outstanding log (.pageRef page) = 0

/-! ## Pages of a mapper -/

/-- The mapped pages of a mapper, in order. -/
structure HoldsPages (sgm : SgMapping) (held : List Page) : Prop where
  sized : sgm.Sized
  mapped : sgm.mappedPages = held.length
  pages : ∀ (i : Nat) (page : Page), held[i]? = some page →
    sgm.pages[i]? = some (some page)

theorem HoldsPages.nil {sgm : SgMapping} (sized : sgm.Sized)
    (idle : sgm.mappedPages = 0) : HoldsPages sgm [] :=
  ⟨sized, idle, fun _ _ found => nomatch found⟩

theorem HoldsPages.of_idle {sgm : SgMapping} {held : List Page}
    (holds : HoldsPages sgm held) (idle : sgm.mappedPages = 0) :
    held = [] := by
  have mapped := holds.mapped
  exact List.eq_nil_of_length_eq_zero (by omega)

theorem holdsPages_pinnedMapper {user : UserPages} {sgm : SgMapping}
    {start count : U64} (sized : sgm.Sized) (fits : sgm.Fits start count) :
    HoldsPages (pinnedMapper user sgm start count)
      ((List.range (pageSpan start count)).map user.page) := by
  obtain ⟨pages, sgl, bounded⟩ := sized
  refine ⟨⟨?_, ?_, bounded⟩, ?_, ?_⟩
  · simpa [pinnedMapper] using pages
  · simpa [pinnedMapper] using sgl
  · simp [pinnedMapper]
  · intro i page found
    have inside : i < pageSpan start count := by
      simpa using (List.getElem?_eq_some_iff.mp found).1
    rw [List.getElem?_map, List.getElem?_range inside] at found
    cases found
    exact pinnedMapper_pages_getElem? fits inside

/-! ## What a call takes and gives back -/

section Settles

variable {page : Page} {held left : Int}

theorem settles_acquire {pages : List Page} (solvent : 0 ≤ held)
    (total : left = held + pages.count page) :
    Settles Event.change (.pageRef page) held
      (pages.map fun page => .acquire (.pageRef page)) left := by
  have changes : ∀ first : Page,
      (Event.acquire (.pageRef first)).change (.pageRef page) =
        if first == page then 1 else 0 := by
    intro first
    simp [Event.change]
  rw [List.count_eq_countP, ← Int.one_mul (pages.countP _ : Int)] at total
  subst total
  exact Settles.of_map changes solvent (by omega)

theorem settles_release {pages : List Page} (enough : pages.count page ≤ held)
    (total : left = held - pages.count page) :
    Settles Event.change (.pageRef page) held
      (pages.map fun page => .release (.pageRef page)) left := by
  have changes : ∀ first : Page,
      (Event.release (.pageRef first)).change (.pageRef page) =
        if first == page then -1 else 0 := by
    intro first
    simp [Event.change]
  rw [List.count_eq_countP] at enough total
  have sum : left = held + -1 * (pages.countP (· == page) : Int) := by omega
  subst sum
  exact Settles.of_map changes (by omega) (by omega)

end Settles

theorem setPagesDirty_eq {pages : List (Option Page)} {page : Nat → Page}
    {i remaining : Nat}
    (filled : ∀ index < remaining,
      pages[i + index]? = some (some (page (i + index)))) :
    setPagesDirty pages i remaining =
      ⟨.ok (), (List.range remaining).map fun index =>
        .setPageDirty (page (i + index))⟩ := by
  induction remaining generalizing i with
  | zero => rfl
  | succ remaining induction =>
      have here : pages[i]? = some (some (page i)) := filled 0 (by omega)
      have shift : ∀ index, i + 1 + index = i + (index + 1) := by omega
      have later : ∀ index < remaining,
          pages[i + 1 + index]? = some (some (page (i + 1 + index))) := by
        intro index inside
        rw [shift]
        exact filled (index + 1) (by omega)
      simp [setPagesDirty, here, induction later, List.range_succ_eq_map,
        shift, Function.comp_def]

def pageAt (held : List Page) (i : Nat) : Page :=
  held.getD i 0

/-- Giving back releases the mapped pages, once each and in order, after
marking them dirty when data came from the device. -/
theorem sgmPutUserPages_eq {sgm : SgMapping} {held : List Page}
    (holds : HoldsPages sgm held) (dirToDev : Int) :
    ∃ dirty : List Event,
      sgmPutUserPages sgm dirToDev =
        ⟨.ok (0, { sgm with mappedPages := 0 }),
          dirty ++ held.map fun page => .release (.pageRef page)⟩ ∧
      ∀ event ∈ dirty, ∀ resource, event.change resource = 0 := by
  have count : sgm.mappedPages.toNat = held.length := by
    rw [holds.mapped, Int.toNat_natCast]
  have filled : ∀ index < held.length,
      sgm.pages[0 + index]? = some (some (pageAt held (0 + index))) := by
    intro index inside
    have found := List.getElem?_eq_getElem inside
    rw [Nat.zero_add, pageAt, List.getD_eq_getElem?_getD, found]
    exact holds.pages index _ found
  have listed : (List.range held.length).map (fun index =>
      Event.release (.pageRef (pageAt held (0 + index)))) =
        held.map fun page => .release (.pageRef page) := by
    apply List.ext_getElem?
    intro index
    by_cases inside : index < held.length
    · simp [pageAt, inside]
    · simp [inside]
  have put := putPages_eq filled
  have mark := setPagesDirty_eq filled
  rw [listed] at put
  by_cases fromDevice : dirToDev = 0
  · refine ⟨(List.range held.length).map fun index =>
      .setPageDirty (pageAt held (0 + index)), ?_, ?_⟩
    · simp [sgmPutUserPages, sgmDirtyPages, fromDevice, count, put, mark]
    · intro event member resource
      obtain ⟨index, _, rfl⟩ := List.mem_map.mp member
      rfl
  · refine ⟨[], ?_, ?_⟩
    · simp [sgmPutUserPages, fromDevice, count, put]
    · intro event member
      cases member

theorem settles_put (held : List Page) {dirty : List Event}
    (neutral : ∀ event ∈ dirty, ∀ resource, event.change resource = 0)
    (page : Page) :
    Settles Event.change (.pageRef page) (held.count page)
      (dirty ++ held.map fun page => .release (.pageRef page)) 0 := by
  have marked : Settles Event.change (.pageRef page) (held.count page)
      dirty (held.count page) :=
    Settles.of_neutral (Int.natCast_nonneg _)
      fun event member => neutral event member _
  have given : Settles Event.change (.pageRef page) (held.count page)
      (held.map fun page => .release (.pageRef page)) 0 :=
    settles_release (Int.le_refl _) (Int.sub_self _).symm
  exact marked.append given

/-! ## One call -/

/-- Of the two results of a mapper function only the mapper is kept. -/
theorem keep_mapper (rc : Int) (next : SgMapping) (log : List Event) :
    ((⟨.ok (rc, next), log⟩ : Exec (Int × SgMapping)) >>=
      fun (_rc, sgm) => pure sgm) = ⟨.ok next, log⟩ := by
  simp

section Call

variable {sgm : SgMapping} {held : List Page}

/-- A call that maps no kernel memory keeps the account of every page. -/
theorem MapperCall.run_settles {call : MapperCall}
    (holds : HoldsPages sgm held) (admitted : call.Admitted sgm)
    (unmapped : ¬call.MapsKernel) :
    ∃ next log left, call.run sgm = ⟨.ok next, log⟩ ∧ HoldsPages next left ∧
      ∀ page, Settles Event.change (.pageRef page) (held.count page) log
        (left.count page) := by
  cases call with
  | getUserPages user start count =>
      obtain ⟨idle, touched, within, bounded⟩ := admitted
      obtain rfl := holds.of_idle idle
      obtain ⟨fits, small⟩ := holds.sized.fits within
      rw [nrPages_eq touched small] at bounded
      by_cases all : user.rc = pageSpan start count
      · have run := sgmGetUserPages_ok touched small fits all
        have pins : user.pins =
            (List.range (pageSpan start count)).map user.page := by
          rw [UserPages.pins, all, Int.toNat_natCast]
        refine ⟨_, _, user.pins,
          (congrArg (· >>= _) run).trans (keep_mapper ..), ?_, ?_⟩
        · rw [pins]
          exact holdsPages_pinnedMapper holds.sized fits
        · intro page
          apply settles_acquire
          · exact Int.natCast_nonneg _
          · simp
      · have short : user.rc < pageSpan start count := by omega
        have run := sgmGetUserPages_short touched small fits idle short
        refine ⟨_, _, [], (congrArg (· >>= _) run).trans (keep_mapper ..),
          .nil (unpinnedMapper_sized holds.sized) rfl, ?_⟩
        intro page
        have taken : Settles Event.change (.pageRef page) 0
            (user.pins.map fun page => .acquire (.pageRef page))
            (user.pins.count page) :=
          settles_acquire (Int.le_refl 0) (Int.zero_add _).symm
        have given : Settles Event.change (.pageRef page)
            (user.pins.count page)
            (user.pins.map fun page => .release (.pageRef page)) 0 :=
          settles_release (Int.le_refl _) (Int.sub_self _).symm
        exact taken.append given
  | kernelPages vmallocToPage start count =>
      obtain ⟨idle, within⟩ := admitted
      obtain rfl := holds.of_idle idle
      obtain ⟨rc, left, run, _, sized, none⟩ :=
        sgmKernelPages_unmapped holds.sized idle within unmapped
      refine ⟨left, _, [], (congrArg (· >>= _) run).trans (keep_mapper ..),
        .nil sized none, ?_⟩
      intro page
      exact Settles.nil (Int.natCast_nonneg _)
  | putUserPages dirToDev =>
      obtain ⟨dirty, run, neutral⟩ := sgmPutUserPages_eq holds dirToDev
      refine ⟨_, _, [], (congrArg (· >>= _) run).trans (keep_mapper ..),
        .nil ⟨holds.sized.pages, holds.sized.sgl, holds.sized.bounded⟩ rfl,
        ?_⟩
      exact fun page => settles_put held neutral page

/-- One that does leaves pages in the mapper and has taken none of them. -/
theorem MapperCall.run_maps {call : MapperCall}
    (holds : HoldsPages sgm held) (admitted : call.Admitted sgm)
    (maps : call.MapsKernel) :
    ∃ next found, call.run sgm = ⟨.ok next, []⟩ ∧ HoldsPages next found ∧
      found ≠ [] ∧ held = [] := by
  cases call with
  | kernelPages vmallocToPage start count =>
      obtain ⟨idle, within⟩ := admitted
      obtain ⟨fits, _⟩ := holds.sized.fits within
      have spanPositive := pageSpan_pos start maps.positive
      have run := sgmKernelPages_ok maps.positive holds.sized idle within
        maps.noWrap maps.page
      refine ⟨_, _, (congrArg (· >>= _) run).trans (keep_mapper ..),
        holdsPages_pinnedMapper holds.sized fits, ?_, holds.of_idle idle⟩
      intro none
      have length := congrArg List.length none
      rw [List.length_map, List.length_range, List.length_nil] at length
      omega
  | _ => exact maps.elim

end Call

/-! ## The calls of a life -/

/-- Every call meets its conditions in the state it is made in. -/
def AdmittedCalls (sgm : SgMapping) (calls : List MapperCall) : Prop :=
  Along afterCall (fun sgm call => call.Admitted sgm) sgm calls

section Calls

variable {sgm : SgMapping} {held : List Page} {calls : List MapperCall}

theorem runCalls_cons (calls : List MapperCall) {call : MapperCall}
    {next : SgMapping} {log : List Event}
    (run : call.run sgm = ⟨.ok next, log⟩) :
    runCalls sgm (call :: calls) = (runCalls next calls).after log ∧
      afterCall sgm call = next := by
  rw [runCalls, afterCall, run]
  exact ⟨rfl, rfl⟩

/-- Calls that map no kernel memory keep the account of every page. -/
theorem runCalls_settles (holds : HoldsPages sgm held)
    (admitted : AdmittedCalls sgm calls)
    (unmapped : ∀ call ∈ calls, ¬call.MapsKernel) :
    ∃ log left, runCalls sgm calls = ⟨.ok (calls.foldl afterCall sgm), log⟩ ∧
      HoldsPages (calls.foldl afterCall sgm) left ∧
      ∀ page, Settles Event.change (.pageRef page) (held.count page) log
        (left.count page) := by
  induction calls generalizing sgm held with
  | nil =>
      exact ⟨[], held, rfl, holds,
        fun page => Settles.nil (Int.natCast_nonneg _)⟩
  | cons call calls induction =>
      obtain ⟨here, later⟩ := admitted
      obtain ⟨first, rest⟩ := List.forall_mem_cons.mp unmapped
      obtain ⟨next, log, middle, run, kept, settles⟩ :=
        call.run_settles holds here first
      obtain ⟨whole, after⟩ := runCalls_cons calls run
      rw [after] at later
      obtain ⟨logs, left, runs, final, settlesLater⟩ :=
        induction kept later rest
      rw [List.foldl_cons, after, whole, runs]
      exact ⟨log ++ logs, left, rfl, final,
        fun page => (settles page).append (settlesLater page)⟩

/-- Pages mapped without a reference can only be got rid of by giving back
references that were not taken. -/
theorem runCalls_owes_found (holds : HoldsPages sgm held)
    (someHeld : held ≠ []) (admitted : AdmittedCalls sgm calls)
    (complete : (calls.foldl afterCall sgm).mappedPages = 0) :
    ∃ page earlier later, (runCalls sgm calls).log = earlier ++ later ∧
      outstanding earlier (.pageRef page) < 0 := by
  cases calls with
  | nil => exact absurd (holds.of_idle complete) someHeld
  | cons call calls =>
      obtain ⟨here, _⟩ := admitted
      cases call with
      | getUserPages user start count =>
          exact absurd (holds.of_idle here.1) someHeld
      | kernelPages vmallocToPage start count =>
          exact absurd (holds.of_idle here.1) someHeld
      | putUserPages dirToDev =>
          obtain ⟨dirty, put, neutral⟩ := sgmPutUserPages_eq holds dirToDev
          have run : (MapperCall.putUserPages dirToDev).run sgm = _ :=
            (congrArg (· >>= _) put).trans (keep_mapper ..)
          obtain ⟨page, pages, rfl⟩ := List.exists_cons_of_ne_nil someHeld
          have settled := (settles_put (page :: pages) neutral page).settled
          refine ⟨page, _, _,
            congrArg Run.log (runCalls_cons calls run).1, ?_⟩
          rw [List.count_cons_self] at settled
          rw [outstanding]
          omega

theorem runCalls_owes (holds : HoldsPages sgm held)
    (admitted : AdmittedCalls sgm calls)
    (complete : (calls.foldl afterCall sgm).mappedPages = 0)
    (maps : ∃ call ∈ calls, call.MapsKernel) :
    ∃ page earlier later, (runCalls sgm calls).log = earlier ++ later ∧
      held.count page + outstanding earlier (.pageRef page) < 0 := by
  induction calls generalizing sgm held with
  | nil =>
      obtain ⟨call, member, _⟩ := maps
      cases member
  | cons call calls induction =>
      obtain ⟨here, rest⟩ := admitted
      by_cases now : call.MapsKernel
      · obtain ⟨next, found, run, kept, someFound, rfl⟩ :=
          call.run_maps holds here now
        obtain ⟨whole, after⟩ := runCalls_cons calls run
        rw [List.foldl_cons, after] at complete
        rw [after] at rest
        obtain ⟨page, earlier, later, log, owes⟩ :=
          runCalls_owes_found kept someFound rest complete
        refine ⟨page, earlier, later, ?_, ?_⟩
        · rw [whole, Run.after_nil, log]
        · rw [List.count_nil]
          omega
      · obtain ⟨next, log, middle, run, kept, settles⟩ :=
          call.run_settles holds here now
        obtain ⟨whole, after⟩ := runCalls_cons calls run
        rw [List.foldl_cons, after] at complete
        rw [after] at rest
        have mapsLater : ∃ call ∈ calls, call.MapsKernel := by
          obtain ⟨other, member, mapsOther⟩ := maps
          rcases List.mem_cons.mp member with rfl | later
          · exact absurd mapsOther now
          · exact ⟨other, later, mapsOther⟩
        obtain ⟨page, earlier, later, logs, owes⟩ :=
          induction kept rest complete mapsLater
        refine ⟨page, log ++ earlier, later, ?_, ?_⟩
        · rw [whole, List.append_assoc, ← logs]
          rfl
        · have settled := (settles page).settled
          rw [outstanding_append, outstanding]
          omega

end Calls

/-! ## A whole life -/

section Life

variable {allocs : MapperAllocs} {maxLen : U64} {sgm : SgMapping}
  {calls : List MapperCall}

theorem mapperLife_eq (calls : List MapperCall)
    (made : (sgCreateMapper allocs maxLen).result = .ok (some sgm)) :
    ∃ created : List Event,
      mapperLife allocs maxLen calls =
        (runCalls sgm calls >>= sgDestroyMapper).after created ∧
      HoldsPages sgm [] ∧
      ∀ page, ∀ event ∈ created, event.change (.pageRef page) = 0 := by
  have sized := sgCreateMapper_sized made
  obtain ⟨entries, _, created, rfl⟩ := sgCreateMapper_fresh made
  refine ⟨_, by rw [mapperLife, created]; rfl, .nil sized rfl, ?_⟩
  intro page event member
  simp only [List.mem_cons, List.not_mem_nil, or_false] at member
  rcases member with rfl | rfl | rfl
  · rfl
  · rfl
  · rfl

/-- Without kernel memory every page is given back as often as it was
taken. -/
theorem mapperLife_balances
    (made : (sgCreateMapper allocs maxLen).result = .ok (some sgm))
    (admitted : AdmittedCalls sgm calls)
    (complete : (calls.foldl afterCall sgm).mappedPages = 0)
    (unmapped : ∀ call ∈ calls, ¬call.MapsKernel) :
    PageRefsBalance (mapperLife allocs maxLen calls).log := by
  obtain ⟨created, life, fresh, neutral⟩ := mapperLife_eq calls made
  obtain ⟨log, left, run, final, settles⟩ :=
    runCalls_settles fresh admitted unmapped
  obtain rfl := final.of_idle complete
  intro page
  have before : Settles Event.change (.pageRef page) 0 created 0 :=
    Settles.of_neutral (Int.le_refl 0) (neutral page)
  have calling : Settles Event.change (.pageRef page) 0 log 0 := settles page
  have after : Settles Event.change (.pageRef page) 0
      (sgDestroyMapper (calls.foldl afterCall sgm)).log 0 := by
    apply Settles.of_neutral (Int.le_refl 0)
    rw [sgDestroyMapper_eq complete.le]
    intro event member
    simp only [List.mem_cons, List.not_mem_nil, or_false] at member
    rcases member with rfl | rfl | rfl
    · rfl
    · rfl
    · rfl
  obtain ⟨covered, settled⟩ := before.append (calling.append after)
  have whole : (mapperLife allocs maxLen calls).log =
      created ++ (log ++ (sgDestroyMapper (calls.foldl afterCall sgm)).log) :=
    by rw [life, run]; rfl
  rw [whole]
  constructor
  · intro k
    have solvent := covered k
    rwa [Int.zero_add] at solvent
  · rwa [Int.zero_add] at settled

/-- Kernel memory that was mapped is given back without having been taken. -/
theorem mapperLife_owes
    (made : (sgCreateMapper allocs maxLen).result = .ok (some sgm))
    (admitted : AdmittedCalls sgm calls)
    (complete : (calls.foldl afterCall sgm).mappedPages = 0)
    (maps : ∃ call ∈ calls, call.MapsKernel) :
    ¬PageRefsBalance (mapperLife allocs maxLen calls).log := by
  intro balance
  obtain ⟨created, life, fresh, neutral⟩ := mapperLife_eq calls made
  obtain ⟨page, earlier, later, log, owes⟩ :=
    runCalls_owes fresh admitted complete maps
  obtain ⟨tail, rest⟩ := Run.log_bind (runCalls sgm calls) sgDestroyMapper
  have before : Settles Event.change (.pageRef page) 0 created 0 :=
    Settles.of_neutral (Int.le_refl 0) (neutral page)
  have whole : (mapperLife allocs maxLen calls).log =
      (created ++ earlier) ++ (later ++ tail) := by
    rw [life, Run.after, rest, log]
    simp only [List.append_assoc]
  have solvent := (balance page).1 (created ++ earlier).length
  have settled := before.settled
  rw [whole, List.take_left, outstanding_append, outstanding] at solvent
  rw [List.count_nil] at owes
  omega

/-- The references balance exactly when no call found the pages of a kernel
buffer. -/
theorem pageRefsBalance_iff
    (made : (sgCreateMapper allocs maxLen).result = .ok (some sgm))
    (admitted : AdmittedCalls sgm calls)
    (complete : (calls.foldl afterCall sgm).mappedPages = 0) :
    PageRefsBalance (mapperLife allocs maxLen calls).log ↔
      ∀ call ∈ calls, ¬call.MapsKernel := by
  constructor
  · intro balance call member maps
    exact mapperLife_owes made admitted complete ⟨call, member, maps⟩ balance
  · exact mapperLife_balances made admitted complete

end Life

/-- The allocations of a mapper for one byte, which has room for two pages. -/
def allGranted : MapperAllocs :=
  { mapper := true, pages := true, sgl := true }

/-- A page is pinned for a user and given back. -/
def userCalls : List MapperCall :=
  [.getUserPages (identityPages 1 1) 0x1000 1, .putUserPages 1]

theorem pageRefsBalance_iff_userCalls :
    PageRefsBalance (mapperLife allGranted 1 userCalls).log ↔
      ∀ call ∈ userCalls, ¬call.MapsKernel :=
  have admitted : AdmittedCalls (SgMapping.fresh 2) userCalls :=
    ⟨⟨rfl, by decide, by decide, by decide⟩, trivial, trivial⟩
  pageRefsBalance_iff rfl admitted rfl

/-- A page of kernel memory is mapped and given back. -/
def kernelCalls : List MapperCall :=
  [.kernelPages (fun virt => some (virtualPage virt.toNat)) 0x1000 1,
    .putUserPages 1]

/-- The put takes away a reference somebody else holds. -/
theorem not_pageRefsBalance_kernelCalls :
    ¬∀ (allocs : MapperAllocs) (maxLen : U64) (sgm : SgMapping)
      (calls : List MapperCall),
      (sgCreateMapper allocs maxLen).result = .ok (some sgm) →
      AdmittedCalls sgm calls →
      (calls.foldl afterCall sgm).mappedPages = 0 →
      PageRefsBalance (mapperLife allocs maxLen calls).log := by
  intro always
  have made : (sgCreateMapper allGranted 1).result =
      .ok (some (SgMapping.fresh 2)) := rfl
  have admitted : AdmittedCalls (SgMapping.fresh 2) kernelCalls :=
    ⟨⟨rfl, by decide⟩, trivial, trivial⟩
  have found : AllFound (fun virt => some (virtualPage virt.toNat))
      0x1000 1 := ⟨by decide, by decide, fun _ _ => Option.some_ne_none _⟩
  have balance := always allGranted 1 (SgMapping.fresh 2) kernelCalls made
    admitted rfl
  exact mapperLife_owes made admitted rfl ⟨_, List.mem_cons_self, found⟩
    balance

end Xpcie
