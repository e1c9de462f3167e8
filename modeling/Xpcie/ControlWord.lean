import Xpcie.Prefetch

/-!
# The control word under the helpers

Four helpers rewrite parts of a descriptor, in an order that is up to their
callers.  None of them lets the control word leave its format, and each part
of it is what the last call meant for that part has given it.
-/

namespace Xpcie

open EffectLog

/-- A call of one of the helpers on a descriptor. -/
inductive DescCall where
  | set (rcBusAddr epAddr : U64) (len : U32) (dirToDev : Int)
  | link (second : Option U64)
  | control (controlField : U32)
  | adjacent (nextAdjacent : Int)

/-- The descriptor after a call. -/
def DescCall.run (host : Endian) (desc : XdmaDesc) :
    DescCall → Exec XdmaDesc
  | .set rcBusAddr epAddr len dirToDev =>
      pure (xdmaDescSet host rcBusAddr epAddr len dirToDev desc)
  | .link second => pure (xdmaDescLink host desc second)
  | .control controlField => xdmaDescControl host desc controlField
  | .adjacent nextAdjacent => pure (xdmaDescAdjacent host nextAdjacent desc)

def runDescCalls (host : Endian) : XdmaDesc → List DescCall → Exec XdmaDesc
  | desc, [] => pure desc
  | desc, call :: calls => do
      let desc ← call.run host desc
      runDescCalls host desc calls

/-- A control field has eight bits. -/
def DescCall.Admitted : DescCall → Prop
  | .control controlField => controlField.toNat ≤ 0xFF
  | _ => True

/-- The flags a call gives. -/
def DescCall.field? : DescCall → Option U32
  | .control controlField => some controlField
  | _ => none

/-- The flags given last, or none. -/
def lastField (calls : List DescCall) : U32 :=
  ((calls.filterMap DescCall.field?).getLast?).getD 0

/-- The adjacency count a call gives to a descriptor with this `next_lo`. -/
def DescCall.extra? (nextLo : U32) : DescCall → Option Nat
  | .link _ => some 0
  | .adjacent nextAdjacent => some (xdmaExtraAdj nextLo nextAdjacent).toNat
  | _ => none

/-- The call is one of those that give a count. -/
def DescCall.GivesExtra : DescCall → Prop
  | .link _ | .adjacent _ => True
  | _ => False

/-- `extra` is the count the latest of the calls that give one has given, and
the first one where none of them does. -/
structure LatestExtra (host : Endian) (desc : XdmaDesc)
    (calls : List DescCall) (extra : Nat) : Prop where
  untouched : (∀ call ∈ calls, ¬call.GivesExtra) →
    extra = desc.extraAdjacent host
  latest : ∀ before call after, calls = before ++ call :: after →
    call.GivesExtra → (∀ later ∈ after, ¬later.GivesExtra) →
    ∃ middle, runDescCalls host desc before = ⟨.ok middle, []⟩ ∧
      call.extra? (le32ToCpu host middle.nextLo) = some extra

/-- The control word of a descriptor that had `desc` for its first state. -/
structure ControlFormat (host : Endian) (desc : XdmaDesc)
    (calls : List DescCall) (final : XdmaDesc) (extra : Nat) : Prop where
  word : deviceWord host final.control =
    descMagic ||| BitVec.ofNat 32 extra <<< 8 ||| lastField calls
  extraSmall : extra ≤ 15
  fieldSmall : (lastField calls).toNat ≤ 0xFF
  /-- Bits 12 to 15 are zero. -/
  reserved : deviceWord host final.control &&& 0x0000f000 = 0
  /-- Either mask keeps the flags and nothing else. -/
  masked : deviceWord host final.control &&& 0x0000f0ff = lastField calls
  maskedNarrow :
    deviceWord host final.control &&& 0x0000c0ff = lastField calls
  latest : LatestExtra host desc calls extra

/-! ## One call -/

/-- The descriptor holds a control word of this count and these flags. -/
structure HoldsWord (host : Endian) (desc : XdmaDesc)
    (extra field : Nat) : Prop where
  control : desc.control = cpuToLe32 host (controlWord extra field)
  extraSmall : extra < 16
  fieldSmall : field < 256

section Call

variable {host : Endian} {desc : XdmaDesc} {extra field : Nat}

theorem HoldsWord.extraAdjacent (holds : HoldsWord host desc extra field) :
    desc.extraAdjacent host = extra := by
  rw [XdmaDesc.extraAdjacent, holds.control, deviceWord_cpuToLe32]
  exact controlWord_extra holds.extraSmall holds.fieldSmall

/-- Linking drops the count and keeps the flags. -/
theorem HoldsWord.link (holds : HoldsWord host desc extra field)
    (second : Option U64) :
    HoldsWord host (xdmaDescLink host desc second) 0 field := by
  refine ⟨?_, by decide, holds.fieldSmall⟩
  have relinked := controlWord_relinked holds.extraSmall holds.fieldSmall
  cases second with
  | none =>
      simp only [xdmaDescLink, holds.control, le32ToCpu_cpuToLe32, relinked]
  | some secondBus =>
      simp only [xdmaDescLink, holds.control, le32ToCpu_cpuToLe32, relinked]

theorem HoldsWord.set (holds : HoldsWord host desc extra field)
    (rcBusAddr epAddr : U64) (len : U32) (dirToDev : Int) :
    HoldsWord host (xdmaDescSet host rcBusAddr epAddr len dirToDev desc)
      extra field := by
  obtain ⟨control, extraSmall, fieldSmall⟩ := holds
  refine ⟨?_, extraSmall, fieldSmall⟩
  rw [← control]
  unfold xdmaDescSet
  split
  · rfl
  · rfl

/-- What a call does to the word: it replaces the parts it gives. -/
theorem DescCall.run_holdsWord {call : DescCall} (admitted : call.Admitted)
    (holds : HoldsWord host desc extra field) :
    ∃ next, call.run host desc = ⟨.ok next, []⟩ ∧
      HoldsWord host next
        ((call.extra? (le32ToCpu host desc.nextLo)).getD extra)
        ((call.field?.map BitVec.toNat).getD field) := by
  obtain ⟨control, extraSmall, fieldSmall⟩ := holds
  cases call with
  | set rcBusAddr epAddr len dirToDev =>
      exact ⟨_, rfl, HoldsWord.set ⟨control, extraSmall, fieldSmall⟩ ..⟩
  | link second =>
      exact ⟨_, rfl, HoldsWord.link ⟨control, extraSmall, fieldSmall⟩ _⟩
  | control controlField =>
      have small : controlField.toNat < 256 := Nat.lt_succ_of_le admitted
      have replaced := xdmaDescControl_eq extraSmall fieldSmall control small
      rw [BitVec.ofNat_toNat, BitVec.setWidth_eq] at replaced
      exact ⟨_, replaced, rfl, extraSmall, small⟩
  | adjacent nextAdjacent =>
      have bounds := xdmaExtraAdj_bounds (le32ToCpu host desc.nextLo)
        nextAdjacent
      have replaced := xdmaDescAdjacent_eq extraSmall fieldSmall control
        nextAdjacent
      refine ⟨_, congrArg pure replaced, rfl, ?_, fieldSmall⟩
      change (xdmaExtraAdj _ _).toNat < 16
      omega

end Call

/-! ## A sequence of calls -/

section Calls

variable {host : Endian} {desc final : XdmaDesc} {extra : Nat}
  {calls : List DescCall}

theorem runDescCalls_append (host : Endian) (desc : XdmaDesc)
    (calls later : List DescCall) :
    runDescCalls host desc (calls ++ later) =
      runDescCalls host desc calls >>= fun middle =>
        runDescCalls host middle later := by
  induction calls generalizing desc with
  | nil => rfl
  | cons call calls induction =>
      simp only [List.cons_append, runDescCalls, induction, Run.bind_assoc]

theorem lastField_snoc (calls : List DescCall) (call : DescCall) :
    lastField (calls ++ [call]) = call.field?.getD (lastField calls) := by
  rw [lastField, List.filterMap_append]
  cases given : call.field? with
  | none => simp [given, lastField]
  | some controlField => simp [given]

theorem DescCall.extra?_eq_none {call : DescCall} (nextLo : U32)
    (silent : ¬call.GivesExtra) : call.extra? nextLo = none := by
  cases call with
  | set rcBusAddr epAddr len dirToDev => rfl
  | control controlField => rfl
  | link second => exact absurd trivial silent
  | adjacent nextAdjacent => exact absurd trivial silent

theorem DescCall.extra?_eq_some {call : DescCall} (nextLo : U32)
    (gives : call.GivesExtra) : ∃ extra, call.extra? nextLo = some extra := by
  cases call with
  | set rcBusAddr epAddr len dirToDev => cases gives
  | control controlField => cases gives
  | link second => exact ⟨_, rfl⟩
  | adjacent nextAdjacent => exact ⟨_, rfl⟩

/-- A further call gives its own count, or leaves the one before. -/
theorem LatestExtra.snoc {call : DescCall} {middle : XdmaDesc}
    (latest : LatestExtra host desc calls extra)
    (run : runDescCalls host desc calls = ⟨.ok middle, []⟩) :
    LatestExtra host desc (calls ++ [call])
      ((call.extra? (le32ToCpu host middle.nextLo)).getD extra) := by
  constructor
  · intro silent
    obtain ⟨earlier, last⟩ := List.forall_mem_append.mp silent
    rw [DescCall.extra?_eq_none _ (last call List.mem_cons_self)]
    exact latest.untouched earlier
  · intro before giving after split gives silent
    rcases List.eq_nil_or_concat after with rfl | ⟨rest, last, rfl⟩
    · obtain ⟨rfl, same⟩ := List.append_inj' split rfl
      cases same
      obtain ⟨given, some⟩ :=
        DescCall.extra?_eq_some (le32ToCpu host middle.nextLo) gives
      refine ⟨middle, run, ?_⟩
      rw [some]
      rfl
    · rw [List.concat_eq_append, ← List.cons_append,
        ← List.append_assoc] at split
      obtain ⟨rfl, same⟩ := List.append_inj' split rfl
      cases same
      rw [DescCall.extra?_eq_none _ (silent call (by simp))]
      apply latest.latest before giving rest rfl gives
      intro later member
      exact silent later (by simp [member])

/-- After any calls the word is in its format, with the flags given last and
the count given latest. -/
theorem runDescCalls_holdsWord {initial : Nat}
    (holds : HoldsWord host desc initial 0)
    (admitted : ∀ call ∈ calls, call.Admitted) :
    ∃ final extra, runDescCalls host desc calls = ⟨.ok final, []⟩ ∧
      HoldsWord host final extra (lastField calls).toNat ∧
      LatestExtra host desc calls extra := by
  induction calls using List.reverseRecOn with
  | nil =>
      refine ⟨desc, initial, rfl, holds, ?_, ?_⟩
      · intro _
        exact holds.extraAdjacent.symm
      · intro before call after split
        exact absurd split.symm (by simp)
  | append_singleton calls call induction =>
      obtain ⟨earlier, last⟩ := List.forall_mem_append.mp admitted
      obtain ⟨middle, extra, run, middleHolds, latest⟩ := induction earlier
      obtain ⟨final, step, finalHolds⟩ := call.run_holdsWord
        (last call List.mem_cons_self) middleHolds
      have field : (lastField (calls ++ [call])).toNat =
          (call.field?.map BitVec.toNat).getD (lastField calls).toNat := by
        rw [lastField_snoc]
        cases call.field? with
        | none => rfl
        | some controlField => rfl
      refine ⟨final, _, ?_, ?_, latest.snoc run⟩
      · rw [runDescCalls_append, run, Run.ok_bind, Run.after_nil,
          runDescCalls, step]
        rfl
      · rw [field]
        exact finalHolds

/-! ## The format of the word -/

/-- The mask in `xdma_desc_link` and the one its comment proposes leave the
same of a control word, because the bits between them are never set. -/
theorem HoldsWord.masks {field : Nat}
    (holds : HoldsWord host desc extra field) :
    deviceWord host desc.control &&& 0x0000f000 = 0 ∧
      deviceWord host desc.control &&& 0x0000f0ff = BitVec.ofNat 32 field ∧
      deviceWord host desc.control &&& 0x0000c0ff =
        BitVec.ofNat 32 field := by
  obtain ⟨control, extraSmall, fieldSmall⟩ := holds
  have masked := controlWord_mask extraSmall fieldSmall
  have reserved : ∀ field : Fin 256,
      BitVec.ofNat 32 field &&& 0x0000f000 = (0 : U32) := by
    decide +kernel
  have narrow : ∀ field : Fin 256,
      BitVec.ofNat 32 field &&& 0x0000c0ff = BitVec.ofNat 32 field := by
    decide +kernel
  have upper : (0x0000f000 : U32) = 0x0000f0ff &&& 0x0000f000 := by decide
  have lower : (0x0000c0ff : U32) = 0x0000f0ff &&& 0x0000c0ff := by decide
  rw [control, deviceWord_cpuToLe32]
  refine ⟨?_, masked, ?_⟩
  · rw [upper, ← BitVec.and_assoc, masked]
    exact reserved ⟨field, fieldSmall⟩
  · rw [lower, ← BitVec.and_assoc, masked]
    exact narrow ⟨field, fieldSmall⟩

theorem HoldsWord.controlFormat
    (holds : HoldsWord host final extra (lastField calls).toNat)
    (latest : LatestExtra host desc calls extra) :
    ControlFormat host desc calls final extra := by
  obtain ⟨reserved, masked, narrow⟩ := holds.masks
  rw [BitVec.ofNat_toNat, BitVec.setWidth_eq] at masked narrow
  refine ⟨?_, Nat.le_of_lt_succ holds.extraSmall,
    Nat.le_of_lt_succ holds.fieldSmall, reserved, masked, narrow, latest⟩
  rw [holds.control, deviceWord_cpuToLe32, controlWord, BitVec.ofNat_toNat,
    BitVec.setWidth_eq]

end Calls

section Alloc

variable {host : Endian} {grant : Coherent} {number i : Nat}
  {descVirt : List XdmaDesc} {desc : XdmaDesc}

/-- A descriptor that was allocated. -/
theorem allocated_desc
    (alloc : (xdmaDescAlloc host (some grant) number).result =
      .ok (some (descVirt, grant.bus)))
    (found : descVirt[i]? = some desc) :
    i < number ∧
      desc = allocatedDesc host grant.bus number i (grant.content i) := by
  by_cases positive : 0 < number
  · rw [xdmaDescAlloc_ok host grant positive] at alloc
    cases alloc
    have inside : i < number := by
      simpa using (List.getElem?_eq_some_iff.mp found).1
    rw [allocatedList, List.getElem?_map, List.getElem?_range inside] at found
    exact ⟨inside, (Option.some.inj found).symm⟩
  · have empty : number < 1 := by omega
    simp [xdmaDescAlloc, empty] at alloc

theorem allocatedDesc_holdsWord (host : Endian) (descBus : U64)
    (number i : Nat) (old : XdmaDesc) :
    HoldsWord host (allocatedDesc host descBus number i old)
      (allocatedExtra number i) 0 :=
  ⟨rfl, allocatedExtra_lt number i, by decide⟩

/-- Whatever is called on an allocated descriptor, in whatever order, its
control word is the magic, a count of four bits and the flags given last, and
the count is what the latest call that gives one computed. -/
theorem runDescCalls_controlFormat
    (alloc : (xdmaDescAlloc host (some grant) number).result =
      .ok (some (descVirt, grant.bus)))
    (found : descVirt[i]? = some desc) {calls : List DescCall}
    (admitted : ∀ call ∈ calls, call.Admitted) :
    ∃ final extra, runDescCalls host desc calls = ⟨.ok final, []⟩ ∧
      ControlFormat host desc calls final extra := by
  obtain ⟨_, rfl⟩ := allocated_desc alloc found
  obtain ⟨final, extra, run, holds, latest⟩ := runDescCalls_holdsWord
    (allocatedDesc_holdsWord host grant.bus number i (grant.content i))
    admitted
  exact ⟨final, extra, run, holds.controlFormat latest⟩

end Alloc

/-- A descriptor is given a count, cut off and flagged as the last one. -/
def lastDescCalls : List DescCall :=
  [.set 0x10000 0x100 0x1000 1, .adjacent 3, .link none, .control 0x13]

theorem runDescCalls_controlFormat_lastDesc :
    ∃ final extra,
      runDescCalls .big (allocatedDesc .big 0x7000 2 0 (clearedMemory 0))
          lastDescCalls = ⟨.ok final, []⟩ ∧
        ControlFormat .big
          (allocatedDesc .big 0x7000 2 0 (clearedMemory 0)) lastDescCalls
          final extra :=
  have several : 0 < 2 := by decide
  have admitted : ∀ call ∈ lastDescCalls, call.Admitted := by
    simp [lastDescCalls, DescCall.Admitted]
  have found : (allocatedList .big ⟨0x7000, clearedMemory⟩ 2)[0]? =
      some (allocatedDesc .big 0x7000 2 0 (clearedMemory 0)) := rfl
  runDescCalls_controlFormat (congrArg Run.result
    (xdmaDescAlloc_ok .big ⟨0x7000, clearedMemory⟩ several)) found admitted

/-! ## The two computations of the count -/

/-- A page boundary lies inside `count` descriptors that begin at `addr`. -/
def CrossesPage (addr : U64) (count : Nat) : Prop :=
  ∃ boundary, 4096 ∣ boundary ∧ addr.toNat < boundary ∧
    boundary < addr.toNat + xdmaDescSize * count

/-- How many descriptors fit between `addr` and the next page boundary. -/
def descsToBoundary (addr : U64) : Nat :=
  (4096 - addr.toNat % 4096) / xdmaDescSize

/-- What `xdma_desc_adjacent` makes of descriptor `i` of `number`. -/
structure AdjacencyAgrees (host : Endian) (number i : Nat)
    (desc after : XdmaDesc) : Prop where
  agrees : ¬CrossesPage (desc.next host) (min (number - i - 1) 16) →
    after.extraAdjacent host = desc.extraAdjacent host
  clamped : CrossesPage (desc.next host) (min (number - i - 1) 16) →
    after.extraAdjacent host + 1 = descsToBoundary (desc.next host) ∧
      after.extraAdjacent host < desc.extraAdjacent host
  otherBits : deviceWord host after.control &&& ~~~0x00000f00 =
    deviceWord host desc.control &&& ~~~0x00000f00
  otherWords : after = { desc with control := after.control }

section Boundary

variable {addr : U64}

theorem descsToBoundary_pos (aligned : addr.toNat % xdmaDescSize = 0) :
    0 < descsToBoundary addr := by
  unfold xdmaDescSize at aligned
  unfold descsToBoundary xdmaDescSize
  omega

/-- Descriptors that begin at their own multiples cross the boundary when
they are more than fit before it. -/
theorem crossesPage_iff (aligned : addr.toNat % xdmaDescSize = 0)
    (count : Nat) :
    CrossesPage addr count ↔ descsToBoundary addr < count := by
  unfold descsToBoundary
  unfold xdmaDescSize at aligned ⊢
  constructor
  · rintro ⟨boundary, ⟨page, rfl⟩, after, before⟩
    unfold xdmaDescSize at before
    omega
  · intro beyond
    -- The next boundary is the only one that may come in question.
    refine ⟨4096 * (addr.toNat / 4096 + 1), ⟨_, rfl⟩, ?_, ?_⟩
    · omega
    · unfold xdmaDescSize
      omega

end Boundary

/-- Outside the count the control words of two counts are the same. -/
theorem controlWord_otherBits {extra other field : Nat} (small : extra < 16)
    (otherSmall : other < 16) :
    controlWord extra field &&& ~~~0x00000f00 =
      controlWord other field &&& ~~~0x00000f00 := by
  have count : ∀ extra : Fin 16,
      BitVec.ofNat 32 extra <<< 8 &&& ~~~0x00000f00 = (0 : U32) := by decide
  rw [controlWord, controlWord, BitVec.and_or_distrib_right,
    BitVec.and_or_distrib_right, BitVec.and_or_distrib_right,
    BitVec.and_or_distrib_right, count ⟨extra, small⟩,
    count ⟨other, otherSmall⟩]

section Adjacent

variable {host : Endian} {grant : Coherent} {number i : Nat}

theorem allocatedDesc_next (host : Endian) (descBus : U64) (number i : Nat)
    (old : XdmaDesc) :
    (allocatedDesc host descBus number i old).next host =
      nextDescAddr descBus number i := by
  simp [XdmaDesc.next, allocatedDesc, nextDescAddr]

theorem nextDescAddr_aligned {descBus : U64}
    (aligned : descBus.toNat % xdmaDescSize = 0) (number i : Nat) :
    (nextDescAddr descBus number i).toNat % xdmaDescSize = 0 := by
  unfold nextDescAddr
  by_cases before : i + 1 < number
  · rw [if_pos before, descAddr, BitVec.toNat_add, BitVec.toNat_ofNat]
    unfold xdmaDescSize at *
    omega
  · rw [if_neg before]
    rfl

/-- The count of a descriptor that has a next one, and that one, make up a
block. -/
theorem allocatedExtra_succ {number i : Nat} (before : i + 1 < number) :
    allocatedExtra number i + 1 = min (number - i - 1) 16 := by
  rw [allocatedExtra, if_pos before]
  omega

/-- The recomputed count is the allocated one, unless the page ends first. -/
theorem xdmaExtraAdj_nextDescAddr {descBus : U64}
    (aligned : descBus.toNat % xdmaDescSize = 0) (inside : i < number) :
    (xdmaExtraAdj (pciDmaL (nextDescAddr descBus number i))
        ((number : Int) - i - 1)).toNat =
      min (allocatedExtra number i)
        (descsToBoundary (nextDescAddr descBus number i) - 1) := by
  have slot := nextDescAddr_aligned aligned number i
  unfold descsToBoundary
  by_cases before : i + 1 < number
  · have position : (pciDmaL (nextDescAddr descBus number i)).toNat % 4096 =
        xdmaDescSize *
          ((nextDescAddr descBus number i).toNat % 4096 / xdmaDescSize) := by
      rw [pciDmaL_toNat]
      unfold xdmaDescSize at *
      omega
    have left : (number : Int) - i - 1 = (number - i - 2 + 1 : Nat) := by
      omega
    rw [left, xdmaExtraAdj_eq position (by unfold xdmaDescSize; omega),
      Int.toNat_natCast, allocatedExtra, if_pos before]
    unfold xdmaDescSize at *
    omega
  · have none : (number : Int) - i - 1 = 0 := by omega
    rw [none, allocatedExtra, if_neg before, Nat.zero_min]
    rfl

/-- The count `xdma_desc_adjacent` computes is the one the descriptor was
allocated with, except that it stops short of the page boundary. -/
theorem xdmaDescAdjacent_agrees {descVirt : List XdmaDesc} {desc : XdmaDesc}
    (aligned : grant.bus.toNat % xdmaDescSize = 0)
    (alloc : (xdmaDescAlloc host (some grant) number).result =
      .ok (some (descVirt, grant.bus)))
    (found : descVirt[i]? = some desc) :
    AdjacencyAgrees host number i desc
      (xdmaDescAdjacent host ((number : Int) - i - 1) desc) := by
  obtain ⟨inside, rfl⟩ := allocated_desc alloc found
  have holds := allocatedDesc_holdsWord host grant.bus number i
    (grant.content i)
  have count := xdmaExtraAdj_nextDescAddr aligned inside
  have next := allocatedDesc_next host grant.bus number i (grant.content i)
  have nextAligned := nextDescAddr_aligned aligned number i
  have crosses := crossesPage_iff nextAligned (min (number - i - 1) 16)
  have room := descsToBoundary_pos nextAligned
  have replaced := xdmaDescAdjacent_eq holds.extraSmall holds.fieldSmall
    holds.control ((number : Int) - i - 1)
  have nextLo : le32ToCpu host (allocatedDesc host grant.bus number i
      (grant.content i)).nextLo =
        pciDmaL (nextDescAddr grant.bus number i) :=
    le32ToCpu_cpuToLe32 host _
  rw [nextLo, count] at replaced
  have smaller : min (allocatedExtra number i)
      (descsToBoundary (nextDescAddr grant.bus number i) - 1) < 16 :=
    Nat.lt_of_le_of_lt (Nat.min_le_left _ _) holds.extraSmall
  have after : HoldsWord host
      (xdmaDescAdjacent host ((number : Int) - i - 1)
        (allocatedDesc host grant.bus number i (grant.content i)))
      (min (allocatedExtra number i)
        (descsToBoundary (nextDescAddr grant.bus number i) - 1)) 0 := by
    rw [replaced]
    exact ⟨rfl, smaller, holds.fieldSmall⟩
  constructor
  · rw [next, crosses, after.extraAdjacent, holds.extraAdjacent]
    intro within
    by_cases before : i + 1 < number
    · have allowed := allocatedExtra_succ before
      omega
    · rw [allocatedExtra, if_neg before, Nat.zero_min]
  · rw [next, crosses, after.extraAdjacent, holds.extraAdjacent]
    intro beyond
    have before : i + 1 < number := by omega
    have allowed := allocatedExtra_succ before
    omega
  · rw [after.control, holds.control, deviceWord_cpuToLe32,
      deviceWord_cpuToLe32]
    exact controlWord_otherBits smaller holds.extraSmall
  · rw [replaced]

end Adjacent

/-- The second of three descriptors is the last one of its page. -/
theorem xdmaDescAdjacent_agrees_pageEnd :
    AdjacencyAgrees .little 3 0
      (allocatedDesc .little 0x7fc0 3 0 (clearedMemory 0))
      (xdmaDescAdjacent .little (((3 : Nat) : Int) - (0 : Nat) - 1)
        (allocatedDesc .little 0x7fc0 3 0 (clearedMemory 0))) :=
  have several : 0 < 3 := by decide
  have found : (allocatedList .little ⟨0x7fc0, clearedMemory⟩ 3)[0]? =
      some (allocatedDesc .little 0x7fc0 3 0 (clearedMemory 0)) := rfl
  have aligned : (0x7fc0 : U64).toNat % xdmaDescSize = 0 := by decide
  xdmaDescAdjacent_agrees aligned (congrArg Run.result
    (xdmaDescAlloc_ok .little ⟨0x7fc0, clearedMemory⟩ several)) found

end Xpcie
