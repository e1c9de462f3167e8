import Xpcie.Descriptor
import Xpcie.Library.Grouping

/-!
# Coalescing scatterlist entries

`transfer_build` walks the mapped scatterlist once and writes one descriptor
for each run of entries that follow one another on the bus, closing a run
that has grown past the size limit.
-/

namespace Xpcie

open EffectLog BoundedArray

/-- The DMA half of a `struct scatterlist`: `sg_dma_address`, `sg_dma_len`. -/
structure DmaSegment where
  addr : U64
  len : U32
  deriving DecidableEq, Repr

/-- `next` begins where `entry` ends. -/
def DmaSegment.ContinuedBy (entry next : DmaSegment) : Prop :=
  next.addr = entry.addr + entry.len.setWidth 64

instance (entry next : DmaSegment) : Decidable (entry.ContinuedBy next) :=
  inferInstanceAs (Decidable (_ = _))

/-- The arguments of `transfer_build` that steer it. -/
structure BuildFlags where
  dirToDev : Int
  nonIncrAddr : Int
  forceNewDesc : Int
  userspace : Int
  deriving DecidableEq, Repr

/-- `XDMA_DESC_MAX_BYTES - PAGE_SIZE` -/
def xdmaBreakBytes : Nat := xdmaDescMaxBytes - 4096

/-- Whether the entry after `entry` starts a new descriptor. -/
def newDesc (flags : BuildFlags) (addr : U64) (entry next : DmaSegment)
    (contLen : U32) : Bool :=
  -- entry i + 1 is non-contiguous with entry i?
  next.addr != addr + entry.len.setWidth 64 ||
    -- entry i reached maximum transfer size?
    decide (contLen.toNat > xdmaBreakBytes) ||
    decide (flags.forceNewDesc ≠ 0 ∧ flags.userspace = 0)

/-- For non-inc-add mode don't increment `ep_addr`. -/
def nextEpAddr (flags : BuildFlags) (epAddr : U64) (contLen : U32) : U64 :=
  if flags.userspace ≠ 0 then
    if flags.nonIncrAddr = 0 then epAddr + contLen.setWidth 64 else epAddr
  else epAddr + contLen.setWidth 64

/-- The variables of the loop. -/
structure BuildState where
  addr : U64
  contAddr : U64
  contLen : U32
  epAddr : U64
  j : Nat
  descVirt : List XdmaDesc

/-- The loop from entry `i` on, given as the entry and those after it. -/
def transferBuildLoop (host : Endian) (flags : BuildFlags)
    (sglNents : Nat) :
    DmaSegment → List DmaSegment → BuildState →
      Exec (List XdmaDesc × Nat)
  | entry, [], state => do
      -- i is the last entry in the scatterlist, add it to the last block
      let contLen := state.contLen + entry.len
      bugOn (state.j > sglNents)
      let descVirt ← Run.demand
        (modifyAt state.descVirt state.j
          (xdmaDescSet host state.contAddr state.epAddr contLen
            flags.dirToDev)) .outOfBounds
      pure (descVirt, state.j)
  | entry, next :: rest, state => do
      -- add entry i to current contiguous block length
      let contLen := state.contLen + entry.len
      if newDesc flags state.addr entry next contLen then do
        -- fill in descriptor entry j with transfer details
        let descVirt ← Run.demand
          (modifyAt state.descVirt state.j
            (xdmaDescSet host state.contAddr state.epAddr contLen
              flags.dirToDev)) .outOfBounds
        -- start new contiguous block
        transferBuildLoop host flags sglNents next rest
          { addr := next.addr
            contAddr := next.addr
            contLen := 0
            epAddr := nextEpAddr flags state.epAddr contLen
            j := state.j + 1
            descVirt }
      else
        transferBuildLoop host flags sglNents next rest
          { state with addr := next.addr, contLen }

/-- Returns the filled array and the index of the last descriptor. -/
def transferBuild (host : Endian) (descVirt : List XdmaDesc)
    (sgl : List DmaSegment) (epAddr : U64) (flags : BuildFlags) :
    Exec (List XdmaDesc × Nat) :=
  match sgl with
  | [] => Run.fail .outOfBounds
  | first :: rest =>
      transferBuildLoop host flags sgl.length first rest
        { addr := first.addr
          contAddr := first.addr
          contLen := 0
          epAddr
          j := 0
          descVirt }

/-! ## The grouping rule -/

def groupBytes (group : List DmaSegment) : Nat :=
  (group.map fun entry => entry.len.toNat).sum

/-- The length as the loop carries it, in an `unsigned int`. -/
def groupLen (group : List DmaSegment) : U32 :=
  BitVec.ofNat 32 (groupBytes group)

/-- The test of `transfer_build` as a rule on the open group. -/
def closesGroup (flags : BuildFlags) (group : List DmaSegment)
    (next : DmaSegment) : Bool :=
  match group.getLast? with
  | some entry => newDesc flags entry.addr entry next (groupLen group)
  | none => true

/-- What one descriptor is given. -/
structure Block where
  addr : U64
  len : U32
  epAddr : U64
  deriving DecidableEq, Repr

def groupAddr (group : List DmaSegment) : U64 :=
  (group.head?.map DmaSegment.addr).getD 0

/-- The blocks of consecutive groups, the first at `epAddr`. -/
def blocksAt (flags : BuildFlags) : U64 → List (List DmaSegment) → List Block
  | _, [] => []
  | epAddr, group :: groups =>
      { addr := groupAddr group, len := groupLen group, epAddr } ::
        blocksAt flags (nextEpAddr flags epAddr (groupLen group)) groups

/-- The reference result: group the table by the rule, one block a group. -/
def transferBlocks (flags : BuildFlags) (epAddr : U64)
    (sgl : List DmaSegment) : List Block :=
  blocksAt flags epAddr (Grouping.groups (closesGroup flags) sgl)

def Block.store (host : Endian) (dirToDev : Int) (block : Block) :
    XdmaDesc → XdmaDesc :=
  xdmaDescSet host block.addr block.epAddr block.len dirToDev

/-- Descriptors from index `j` on overwritten by the blocks. -/
def storeBlocks (host : Endian) (dirToDev : Int) (j : Nat)
    (blocks : List Block) (descVirt : List XdmaDesc) : List XdmaDesc :=
  overRange (fun i desc =>
    match blocks[i - j]? with
    | some block => block.store host dirToDev desc
    | none => desc) j blocks.length descVirt

theorem groupBytes_cons (entry : DmaSegment) (rest : List DmaSegment) :
    groupBytes (entry :: rest) = entry.len.toNat + groupBytes rest := by
  simp [groupBytes]

theorem groupBytes_append (first second : List DmaSegment) :
    groupBytes (first ++ second) = groupBytes first + groupBytes second := by
  simp [groupBytes]

theorem groupBytes_le_of_mem {group : List DmaSegment}
    {groups : List (List DmaSegment)} (member : group ∈ groups) :
    groupBytes group ≤ groupBytes groups.flatten := by
  induction groups with
  | nil => cases member
  | cons first groups induction =>
      rw [List.flatten_cons, groupBytes_append]
      rcases List.mem_cons.mp member with rfl | later
      · exact Nat.le_add_right _ _
      · exact Nat.le_trans (induction later) (Nat.le_add_left _ _)

theorem groupBytes_pos {group : List DmaSegment} (nonempty : group ≠ [])
    (positive : ∀ entry ∈ group, 0 < entry.len.toNat) :
    0 < groupBytes group := by
  obtain ⟨entry, rest, rfl⟩ := List.exists_cons_of_ne_nil nonempty
  have first := positive entry List.mem_cons_self
  rw [groupBytes_cons]
  omega

theorem groupLen_append_single (group : List DmaSegment)
    (entry : DmaSegment) :
    groupLen (group ++ [entry]) = groupLen group + entry.len := by
  rw [groupLen, groupBytes_append, BitVec.ofNat_add, groupLen]
  simp [groupBytes]

theorem groupAddr_append {group : List DmaSegment} (nonempty : group ≠ [])
    (later : List DmaSegment) :
    groupAddr (group ++ later) = groupAddr group := by
  obtain ⟨head, tail, rfl⟩ := List.exists_cons_of_ne_nil nonempty
  rfl

theorem closesGroup_append_single (flags : BuildFlags)
    (group : List DmaSegment) (entry next : DmaSegment) :
    closesGroup flags (group ++ [entry]) next =
      newDesc flags entry.addr entry next (groupLen group + entry.len) := by
  simp [closesGroup, groupLen_append_single]

@[simp] theorem storeBlocks_length (host : Endian) (dirToDev : Int)
    (j : Nat) (blocks : List Block) (descVirt : List XdmaDesc) :
    (storeBlocks host dirToDev j blocks descVirt).length =
      descVirt.length := by
  simp [storeBlocks]

theorem storeBlocks_getElem? (host : Endian) (dirToDev : Int) (j : Nat)
    (blocks : List Block) (descVirt : List XdmaDesc) (i : Nat) :
    (storeBlocks host dirToDev j blocks descVirt)[i]? =
      if j ≤ i then
        match blocks[i - j]? with
        | some block => descVirt[i]?.map (block.store host dirToDev)
        | none => descVirt[i]?
      else descVirt[i]? := by
  rw [storeBlocks, overRange_getElem?]
  by_cases lower : j ≤ i
  · by_cases upper : i < j + blocks.length
    · have inside : i - j < blocks.length := by omega
      simp [lower, upper, List.getElem?_eq_getElem inside]
    · have outside : blocks.length ≤ i - j := by omega
      simp [lower, upper, List.getElem?_eq_none outside]
  · simp [lower]

theorem storeBlocks_nil (host : Endian) (dirToDev : Int) (j : Nat)
    (descVirt : List XdmaDesc) :
    storeBlocks host dirToDev j [] descVirt = descVirt := by
  apply List.ext_getElem?
  intro i
  simp [storeBlocks_getElem?]

theorem storeBlocks_cons (host : Endian) (dirToDev : Int) (j : Nat)
    (block : Block) (blocks : List Block) (descVirt : List XdmaDesc) :
    storeBlocks host dirToDev (j + 1) blocks
        (descVirt.modify j (block.store host dirToDev)) =
      storeBlocks host dirToDev j (block :: blocks) descVirt := by
  apply List.ext_getElem?
  intro i
  simp only [storeBlocks_getElem?, List.getElem?_modify]
  rcases Nat.lt_trichotomy i j with before | rfl | later
  · have notFirst : ¬j ≤ i := by omega
    have notLater : ¬j + 1 ≤ i := by omega
    have other : ¬j = i := by omega
    simp [notFirst, notLater, other]
  · have notLater : ¬i + 1 ≤ i := by omega
    simp [notLater]
  · obtain ⟨offset, rfl⟩ : ∃ offset, i = j + 1 + offset :=
      ⟨i - (j + 1), by omega⟩
    have first : j ≤ j + 1 + offset := by omega
    have other : ¬j = j + 1 + offset := by omega
    have headOffset : j + 1 + offset - j = offset + 1 := by omega
    have tailOffset : j + 1 + offset - (j + 1) = offset := by omega
    simp only [first, other, headOffset, tailOffset, Nat.le_add_right,
      if_pos, if_false, List.getElem?_cons_succ]
    cases blocks[offset]? <;> simp

/-- The loop writes out the blocks of the groups its rule makes. -/
theorem transferBuildLoop_eq (host : Endian) (flags : BuildFlags)
    (sglNents : Nat) (entry : DmaSegment) (rest : List DmaSegment)
    (opened : List DmaSegment) (state : BuildState) (blocks : List Block)
    (current : state.addr = entry.addr)
    (length : state.contLen = groupLen opened)
    (address : state.contAddr = groupAddr (opened ++ [entry]))
    (result : blocks = blocksAt flags state.epAddr
      (Grouping.groupsFrom (closesGroup flags) (opened ++ [entry]) rest))
    (fits : state.j + blocks.length ≤ state.descVirt.length)
    (counted : state.j + blocks.length ≤ sglNents + 1) :
    transferBuildLoop host flags sglNents entry rest state =
      ⟨.ok (storeBlocks host flags.dirToDev state.j blocks state.descVirt,
        state.j + blocks.length - 1), []⟩ := by
  have nonempty : opened ++ [entry] ≠ [] := by simp
  have total : state.contLen + entry.len = groupLen (opened ++ [entry]) := by
    rw [groupLen_append_single, length]
  induction rest generalizing entry opened state blocks with
  | nil =>
      simp only [Grouping.groupsFrom, blocksAt] at result
      subst result
      simp only [List.length_singleton] at fits counted
      have within : ¬state.j > sglNents := by omega
      have update := modifyAt_of_lt (show state.j < state.descVirt.length
        by omega) (xdmaDescSet host state.contAddr state.epAddr
          (state.contLen + entry.len) flags.dirToDev)
      rw [← storeBlocks_cons, storeBlocks_nil]
      simp only [transferBuildLoop, bugOn_of_not within, update,
        Run.demand_some, Run.ok_bind, Run.after_nil, Run.pure_eq,
        Block.store, ← address, ← total, List.length_singleton,
        Nat.add_sub_cancel]
  | cons next rest induction =>
      have test : closesGroup flags (opened ++ [entry]) next =
          newDesc flags state.addr entry next (state.contLen + entry.len) := by
        rw [closesGroup_append_single, current, length]
      rw [Grouping.groupsFrom, test] at result
      by_cases break_ : newDesc flags state.addr entry next
          (state.contLen + entry.len) = true
      · -- The group is closed: one block is written, the rest follow it.
        rw [if_pos break_, blocksAt] at result
        obtain ⟨later, laterEq⟩ : ∃ later, later = blocksAt flags
          (nextEpAddr flags state.epAddr (groupLen (opened ++ [entry])))
          (Grouping.groupsFrom (closesGroup flags) [next] rest) := ⟨_, rfl⟩
        rw [← laterEq] at result
        subst result
        rw [List.length_cons] at fits counted
        have update := modifyAt_of_lt (show state.j < state.descVirt.length
          by omega) (xdmaDescSet host state.contAddr state.epAddr
            (state.contLen + entry.len) flags.dirToDev)
        have step := induction next []
          { addr := next.addr
            contAddr := next.addr
            contLen := 0
            epAddr := nextEpAddr flags state.epAddr
              (state.contLen + entry.len)
            j := state.j + 1
            descVirt := state.descVirt.modify state.j
              (xdmaDescSet host state.contAddr state.epAddr
                (state.contLen + entry.len) flags.dirToDev) }
          later rfl rfl rfl (by rw [total]; exact laterEq)
          (by simp only [List.length_modify]; omega)
          (by simp only []; omega) (by simp)
          (by rw [groupLen_append_single]; rfl)
        rw [transferBuildLoop]
        simp only [if_pos break_, update, Run.demand_some, Run.ok_bind,
          Run.after_nil]
        rw [step, ← storeBlocks_cons]
        simp only [Block.store, ← address, ← total, List.length_cons]
        congr 3
        omega
      · -- The group stays open and takes in the next entry.
        rw [if_neg break_] at result
        have step := induction next (opened ++ [entry])
          { state with
            addr := next.addr
            contLen := state.contLen + entry.len }
          blocks rfl total
          (by rw [address, groupAddr_append nonempty])
          result fits counted (by simp)
          (by rw [groupLen_append_single, total])
        rw [transferBuildLoop]
        simp only [if_neg break_]
        exact step

theorem blocksAt_length (flags : BuildFlags) (epAddr : U64)
    (groups : List (List DmaSegment)) :
    (blocksAt flags epAddr groups).length = groups.length := by
  induction groups generalizing epAddr with
  | nil => rfl
  | cons group groups induction =>
      rw [blocksAt, List.length_cons, List.length_cons, induction]

theorem blocksAt_len (flags : BuildFlags) (epAddr : U64)
    (groups : List (List DmaSegment)) :
    (blocksAt flags epAddr groups).map Block.len = groups.map groupLen := by
  induction groups generalizing epAddr with
  | nil => rfl
  | cons group groups induction =>
      rw [blocksAt, List.map_cons, List.map_cons, induction]

theorem transferBlocks_length_pos (flags : BuildFlags) (epAddr : U64)
    {sgl : List DmaSegment} (nonempty : sgl ≠ []) :
    0 < (transferBlocks flags epAddr sgl).length := by
  obtain ⟨first, rest, rfl⟩ := List.exists_cons_of_ne_nil nonempty
  rw [transferBlocks, blocksAt_length]
  exact List.length_pos_of_ne_nil
    (Grouping.groupsFrom_ne_nil (closesGroup flags) [first] rest)

theorem transferBlocks_length_le (flags : BuildFlags) (epAddr : U64)
    (sgl : List DmaSegment) :
    (transferBlocks flags epAddr sgl).length ≤ sgl.length := by
  cases sgl with
  | nil => exact Nat.le_refl 0
  | cons first rest =>
      rw [transferBlocks, blocksAt_length]
      exact Grouping.groupsFrom_length_le (closesGroup flags) [first] rest

/-- `transfer_build` writes the reference blocks into the first descriptors
and returns the index of the last one. -/
theorem transferBuild_eq (host : Endian) {descVirt : List XdmaDesc}
    {sgl : List DmaSegment} (epAddr : U64) (flags : BuildFlags)
    (nonempty : sgl ≠ []) (fits : sgl.length ≤ descVirt.length) :
    transferBuild host descVirt sgl epAddr flags =
      ⟨.ok (storeBlocks host flags.dirToDev 0
          (transferBlocks flags epAddr sgl) descVirt,
        (transferBlocks flags epAddr sgl).length - 1), []⟩ := by
  obtain ⟨first, rest, rfl⟩ := List.exists_cons_of_ne_nil nonempty
  have bounded := transferBlocks_length_le flags epAddr (first :: rest)
  have loop := transferBuildLoop_eq host flags (first :: rest).length first
    rest []
    { addr := first.addr
      contAddr := first.addr
      contLen := 0
      epAddr := epAddr
      j := 0
      descVirt := descVirt }
    (transferBlocks flags epAddr (first :: rest)) rfl rfl rfl rfl
    (by simp only [Nat.zero_add]; omega) (by simp only [Nat.zero_add]; omega)
  rw [transferBuild, loop]
  simp only [Nat.zero_add]

/-! ## The blocks cover the table -/

def DmaSegment.span (entry : DmaSegment) : List U64 :=
  AddressSpan.span entry.addr entry.len.toNat

/-- The entries of a group lie one after another on the bus. -/
structure Contiguous (group : List DmaSegment) : Prop where
  nonempty : group ≠ []
  finish : ∀ entry, group.getLast? = some entry →
    entry.addr + BitVec.ofNat 64 entry.len.toNat =
      groupAddr group + BitVec.ofNat 64 (groupBytes group)
  covers : AddressSpan.span (groupAddr group) (groupBytes group) =
    group.flatMap DmaSegment.span

theorem Contiguous.single (entry : DmaSegment) : Contiguous [entry] where
  nonempty := List.cons_ne_nil entry []
  finish := by
    intro last found
    cases found
    simp [groupAddr, groupBytes]
  covers := by simp [groupAddr, groupBytes, DmaSegment.span]

theorem Contiguous.extend {flags : BuildFlags} {group : List DmaSegment}
    {next : DmaSegment} (contiguous : Contiguous group)
    (continues : closesGroup flags group next = false) :
    Contiguous (group ++ [next]) := by
  obtain ⟨entry, found⟩ : ∃ entry, group.getLast? = some entry :=
    ⟨_, List.getLast?_eq_some_getLast contiguous.nonempty⟩
  have adjacent : next.addr =
      groupAddr group + BitVec.ofNat 64 (groupBytes group) := by
    rw [← contiguous.finish entry found]
    simp only [closesGroup, found, newDesc, Bool.or_eq_false_iff,
      bne_eq_false_iff_eq] at continues
    rw [continues.1.1]
    simp
  have bytes : groupBytes (group ++ [next]) =
      groupBytes group + next.len.toNat := by
    rw [groupBytes_append]
    simp [groupBytes]
  have address := groupAddr_append contiguous.nonempty [next]
  constructor
  · simp
  · intro last same
    rw [List.getLast?_concat] at same
    cases same
    rw [bytes, address, adjacent, BitVec.ofNat_add, BitVec.add_assoc]
  · rw [bytes, address, AddressSpan.span_add, contiguous.covers,
      List.flatMap_append, ← adjacent]
    simp [DmaSegment.span]

theorem groups_contiguous (flags : BuildFlags) (sgl : List DmaSegment) :
    ∀ group ∈ Grouping.groups (closesGroup flags) sgl, Contiguous group :=
  Grouping.forall_mem_groups (closesGroup flags)
    (fun entry _ => Contiguous.single entry)
    (fun _ _ _ contiguous continues => contiguous.extend continues)

/-- The byte moves of one block. -/
def Block.copies (block : Block) : List (U64 × U64) :=
  (AddressSpan.span block.addr block.len.toNat).zip
    (AddressSpan.span block.epAddr block.len.toNat)

@[simp] theorem Block.store_copies (host : Endian) {dirToDev : Int}
    (toDevice : dirToDev ≠ 0) (block : Block) (desc : XdmaDesc) :
    (block.store host dirToDev desc).copies host = block.copies := by
  simp [Block.store, xdmaDescSet, toDevice, XdmaDesc.copies, XdmaDesc.source,
    XdmaDesc.destination, XdmaDesc.size, Block.copies]

theorem groupLen_toNat {group : List DmaSegment}
    (small : groupBytes group < 2 ^ 32) :
    (groupLen group).toNat = groupBytes group := by
  rw [groupLen, BitVec.toNat_ofNat, Nat.mod_eq_of_lt small]

theorem groupLen_toNat_of_mem {group : List DmaSegment}
    {groups : List (List DmaSegment)}
    (small : groupBytes groups.flatten < 2 ^ 32) (member : group ∈ groups) :
    (groupLen group).toNat = groupBytes group :=
  groupLen_toNat (Nat.lt_of_le_of_lt (groupBytes_le_of_mem member) small)

/-- End-point addresses follow the data. -/
def BuildFlags.Increments (flags : BuildFlags) : Prop :=
  flags.userspace = 0 ∨ flags.nonIncrAddr = 0

theorem nextEpAddr_of_increments {flags : BuildFlags}
    (increments : flags.Increments) (epAddr : U64) (contLen : U32) :
    nextEpAddr flags epAddr contLen =
      epAddr + BitVec.ofNat 64 contLen.toNat := by
  have same : contLen.setWidth 64 = BitVec.ofNat 64 contLen.toNat := by simp
  rcases increments with kernel | incremental
  · simp [nextEpAddr, kernel]
  · simp [nextEpAddr, incremental]

theorem blocksAt_copies {flags : BuildFlags}
    (increments : flags.Increments) (epAddr : U64)
    {groups : List (List DmaSegment)}
    (contiguous : ∀ group ∈ groups, Contiguous group)
    (small : groupBytes groups.flatten < 2 ^ 32) :
    (blocksAt flags epAddr groups).flatMap Block.copies =
      (groups.flatten.flatMap DmaSegment.span).zip
        (AddressSpan.span epAddr (groupBytes groups.flatten)) := by
  induction groups generalizing epAddr with
  | nil => rfl
  | cons group groups induction =>
      rw [List.flatten_cons, groupBytes_append] at small
      have length := groupLen_toNat (show groupBytes group < 2 ^ 32 by omega)
      have later := induction (nextEpAddr flags epAddr (groupLen group))
        (fun other member => contiguous other (List.mem_cons_of_mem _ member))
        (by omega)
      have covers := (contiguous group List.mem_cons_self).covers
      rw [blocksAt, List.flatMap_cons, later, List.flatten_cons,
        List.flatMap_append, groupBytes_append, AddressSpan.span_add,
        nextEpAddr_of_increments increments, length,
        List.zip_append (by rw [← covers]; simp)]
      simp only [Block.copies, length, covers]

theorem transferBlocks_copies {flags : BuildFlags}
    (increments : flags.Increments) (epAddr : U64) {sgl : List DmaSegment}
    (small : groupBytes sgl < 2 ^ 32) :
    (transferBlocks flags epAddr sgl).flatMap Block.copies =
      (sgl.flatMap DmaSegment.span).zip
        (AddressSpan.span epAddr (groupBytes sgl)) := by
  have copies := blocksAt_copies increments epAddr
    (groups_contiguous flags sgl)
    (by rw [Grouping.flatten_groups]; exact small)
  rwa [Grouping.flatten_groups] at copies

end Xpcie
