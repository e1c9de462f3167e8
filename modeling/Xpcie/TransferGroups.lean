import Xpcie.DescriptorSetup

/-!
# The descriptors of a scatterlist

`transfer_build` may be read in two ways.  Whatever its flags, it moves the
bytes of the table, each to its place.  And unless every entry is forced into
a descriptor of its own, it groups the table as a recursive function would
that only looks at the entries collected so far.
-/

namespace Xpcie

open EffectLog Grouping

/-! ## The two sides of a descriptor -/

section Sides

variable (host : Endian) (dirToDev : Int) (desc : XdmaDesc)

/-- Where a descriptor finds or leaves the data on the bus. -/
def XdmaDesc.busAddr : U64 :=
  if dirToDev ≠ 0 then desc.source host else desc.destination host

/-- Where it finds or leaves the data in the end point. -/
def XdmaDesc.endPoint : U64 :=
  if dirToDev ≠ 0 then desc.destination host else desc.source host

def XdmaDesc.busSpan : List U64 :=
  AddressSpan.span (desc.busAddr host dirToDev) (desc.size host)

/-- The same descriptor for the other direction. -/
def XdmaDesc.exchanged : XdmaDesc :=
  { desc with
    srcAddrLo := desc.dstAddrLo
    srcAddrHi := desc.dstAddrHi
    dstAddrLo := desc.srcAddrLo
    dstAddrHi := desc.srcAddrHi }

variable (block : Block)

@[simp] theorem Block.store_busAddr :
    (block.store host dirToDev desc).busAddr host dirToDev = block.addr := by
  unfold Block.store xdmaDescSet XdmaDesc.busAddr
  split <;> simp [XdmaDesc.source, XdmaDesc.destination]

@[simp] theorem Block.store_endPoint :
    (block.store host dirToDev desc).endPoint host dirToDev =
      block.epAddr := by
  unfold Block.store xdmaDescSet XdmaDesc.endPoint
  split <;> simp [XdmaDesc.source, XdmaDesc.destination]

@[simp] theorem Block.store_size :
    (block.store host dirToDev desc).size host = block.len.toNat := by
  unfold Block.store xdmaDescSet
  split <;> simp [XdmaDesc.size]

theorem Block.store_exchanged (toDevice : dirToDev ≠ 0) :
    block.store host 0 desc =
      (block.store host dirToDev desc).exchanged := by
  simp [Block.store, xdmaDescSet, XdmaDesc.exchanged, toDevice]

end Sides

/-! ## The blocks of the groups -/

section Blocks

variable {flags : BuildFlags}

theorem nextEpAddr_eq (epAddr : U64) (contLen : U32) :
    nextEpAddr flags epAddr contLen =
      if flags.userspace ≠ 0 ∧ flags.nonIncrAddr ≠ 0 then epAddr
      else epAddr + BitVec.ofNat 64 contLen.toNat := by
  by_cases fixed : flags.userspace ≠ 0 ∧ flags.nonIncrAddr ≠ 0
  · simp [nextEpAddr, fixed]
  · have increments : flags.Increments := by
      unfold BuildFlags.Increments
      omega
    rw [if_neg fixed, nextEpAddr_of_increments increments]

theorem blocksAt_getElem? {epAddr : U64} {groups : List (List DmaSegment)}
    (small : groupBytes groups.flatten < 2 ^ 32) {k : Nat}
    {group : List DmaSegment} (found : groups[k]? = some group) :
    (blocksAt flags epAddr groups)[k]? =
      some
        { addr := groupAddr group
          len := groupLen group
          epAddr :=
            if flags.userspace ≠ 0 ∧ flags.nonIncrAddr ≠ 0 then epAddr
            else epAddr +
              BitVec.ofNat 64 (groupBytes (groups.take k).flatten) } := by
  induction groups generalizing epAddr k with
  | nil => cases found
  | cons first groups induction =>
      rw [List.flatten_cons, groupBytes_append] at small
      cases k with
      | zero =>
          cases found
          simp [blocksAt, groupBytes]
      | succ k =>
          have later := @induction
            (nextEpAddr flags epAddr (groupLen first)) (by omega) k found
          rw [blocksAt, List.getElem?_cons_succ, later, nextEpAddr_eq,
            groupLen_toNat (by omega), List.take_succ_cons, List.flatten_cons,
            groupBytes_append]
          split
          · rfl
          · rw [BitVec.add_assoc, BitVec.ofNat_add]

end Blocks

/-! ## Conservation -/

/-- What `transfer_build` makes of the descriptors `descVirt`. -/
structure Conserves (host : Endian) (flags : BuildFlags) (epAddr : U64)
    (sgl : List DmaSegment) (descVirt built : List XdmaDesc)
    (last : Nat) : Prop where
  inside : last < sgl.length
  length : built.length = descVirt.length
  /-- The descriptors move the bytes of the table, in order. -/
  data : (built.take (last + 1)).flatMap
      (XdmaDesc.busSpan host flags.dirToDev) =
    sgl.flatMap DmaSegment.span
  /-- Each of them covers entries that follow one another in the table. -/
  covers : ∃ groups : List (List DmaSegment), groups.flatten = sgl ∧
    List.Forall₂ (fun group desc => group ≠ [] ∧ 1 ≤ desc.size host ∧
      desc.busSpan host flags.dirToDev = group.flatMap DmaSegment.span)
      groups (built.take (last + 1))
  /-- Its data goes where that of the ones before it ended. -/
  endPoint : ∀ (k : Nat) (desc : XdmaDesc), k ≤ last → built[k]? = some desc →
    desc.endPoint host flags.dirToDev =
      if flags.userspace ≠ 0 ∧ flags.nonIncrAddr ≠ 0 then epAddr
      else epAddr + BitVec.ofNat 64
        ((built.take k).map (XdmaDesc.size host)).sum
  links : ∀ (k : Nat) (desc old : XdmaDesc), built[k]? = some desc →
    descVirt[k]? = some old →
    desc.control = old.control ∧ desc.nextLo = old.nextLo ∧
      desc.nextHi = old.nextHi
  beyond : ∀ k : Nat, last < k → built[k]? = descVirt[k]?

/-- For the other direction `transfer_build` returns the same index, and
descriptors that differ from `built` in the two addresses only, which are
exchanged. -/
def ExchangesSides (host : Endian) (flags : BuildFlags) (epAddr : U64)
    (sgl : List DmaSegment) (descVirt built : List XdmaDesc)
    (last : Nat) : Prop :=
  ∃ other,
    transferBuild host descVirt sgl epAddr { flags with dirToDev := 0 } =
      ⟨.ok (other, last), []⟩ ∧
    (∀ (k : Nat) (desc : XdmaDesc), k ≤ last → built[k]? = some desc →
      other[k]? = some desc.exchanged) ∧
    ∀ k : Nat, last < k → other[k]? = built[k]?

/-- The first descriptors and their groups are related one to one. -/
def GroupwiseHolds (holds : List DmaSegment → XdmaDesc → Prop)
    (groups : List (List DmaSegment)) (descVirt : List XdmaDesc) : Prop :=
  List.Forall₂ holds groups (descVirt.take groups.length)

section Build

variable (host : Endian) (flags : BuildFlags) (epAddr : U64)
  (descVirt : List XdmaDesc)

/-- The descriptors filled in for some groups. -/
def descriptorsOf (groups : List (List DmaSegment)) : List XdmaDesc :=
  storeBlocks host flags.dirToDev 0 (blocksAt flags epAddr groups) descVirt

section Groups

variable {groups : List (List DmaSegment)}

theorem descriptorsOf_getElem? (small : groupBytes groups.flatten < 2 ^ 32)
    {k : Nat} {group : List DmaSegment} (found : groups[k]? = some group) :
    (descriptorsOf host flags epAddr descVirt groups)[k]? =
      descVirt[k]?.map (Block.store host flags.dirToDev
        { addr := groupAddr group
          len := groupLen group
          epAddr :=
            if flags.userspace ≠ 0 ∧ flags.nonIncrAddr ≠ 0 then epAddr
            else epAddr +
              BitVec.ofNat 64 (groupBytes (groups.take k).flatten) }) := by
  rw [descriptorsOf, storeBlocks_getElem?, if_pos (Nat.zero_le k),
    Nat.sub_zero, blocksAt_getElem? small found]

/-- The first descriptors are those of the groups. -/
theorem descriptorsOf_described (small : groupBytes groups.flatten < 2 ^ 32)
    (fits : groups.length ≤ descVirt.length) {k : Nat} {desc : XdmaDesc}
    (inside : k < groups.length)
    (found : (descriptorsOf host flags epAddr descVirt groups)[k]? =
      some desc) :
    ∃ old, desc = Block.store host flags.dirToDev
      { addr := groupAddr groups[k]
        len := groupLen groups[k]
        epAddr :=
          if flags.userspace ≠ 0 ∧ flags.nonIncrAddr ≠ 0 then epAddr
          else epAddr +
            BitVec.ofNat 64 (groupBytes (groups.take k).flatten) } old := by
  have room : k < descVirt.length := Nat.lt_of_lt_of_le inside fits
  have here := descriptorsOf_getElem? host flags epAddr descVirt small
    (List.getElem?_eq_getElem inside)
  rw [List.getElem?_eq_getElem room, Option.map_some, found] at here
  exact ⟨descVirt[k], Option.some.inj here⟩

/-- What holds of every group and its descriptor holds of the lists. -/
theorem descriptorsOf_groupwise {holds : List DmaSegment → XdmaDesc → Prop}
    (small : groupBytes groups.flatten < 2 ^ 32)
    (fits : groups.length ≤ descVirt.length)
    (each : ∀ group ∈ groups, ∀ epAddr old, holds group
      (Block.store host flags.dirToDev
        { addr := groupAddr group, len := groupLen group, epAddr } old)) :
    GroupwiseHolds holds groups
      (descriptorsOf host flags epAddr descVirt groups) := by
  rw [GroupwiseHolds, List.forall₂_iff_get]
  constructor
  · rw [List.length_take, descriptorsOf, storeBlocks_length]
    omega
  · intro k inside _
    rw [List.get_eq_getElem, List.get_eq_getElem, List.getElem_take]
    obtain ⟨old, made⟩ := descriptorsOf_described host flags epAddr descVirt
      small fits inside (List.getElem?_eq_getElem _)
    rw [made]
    exact each _ (List.getElem_mem inside) _ _

/-- The descriptor of a group moves what the group holds. -/
theorem descriptorsOf_moves (small : groupBytes groups.flatten < 2 ^ 32)
    (fits : groups.length ≤ descVirt.length)
    (contiguous : ∀ group ∈ groups, Contiguous group) :
    GroupwiseHolds (fun group desc =>
      group.flatMap DmaSegment.span = desc.busSpan host flags.dirToDev ∧
        groupBytes group = desc.size host) groups
      (descriptorsOf host flags epAddr descVirt groups) := by
  apply descriptorsOf_groupwise host flags epAddr descVirt small fits
  intro group member epAddr old
  have bytes := groupLen_toNat_of_mem small member
  rw [XdmaDesc.busSpan, Block.store_busAddr, Block.store_size, bytes,
    (contiguous group member).covers]
  exact ⟨rfl, rfl⟩

/-- What limits the groups limits the descriptors. -/
theorem descriptorsOf_size_le (small : groupBytes groups.flatten < 2 ^ 32)
    (fits : groups.length ≤ descVirt.length) {limit : Nat}
    (limited : ∀ group ∈ groups, groupBytes group ≤ limit) {k : Nat}
    {desc : XdmaDesc} (inside : k < groups.length)
    (found : (descriptorsOf host flags epAddr descVirt groups)[k]? =
      some desc) :
    desc.size host ≤ limit := by
  obtain ⟨old, made⟩ := descriptorsOf_described host flags epAddr descVirt
    small fits inside found
  have member := List.getElem_mem inside
  rw [made, Block.store_size, groupLen_toNat_of_mem small member]
  exact limited _ member

theorem descriptorsOf_beyond {k : Nat} (beyond : groups.length ≤ k) :
    (descriptorsOf host flags epAddr descVirt groups)[k]? =
      descVirt[k]? := by
  rw [descriptorsOf, storeBlocks_getElem?, if_pos (Nat.zero_le k),
    Nat.sub_zero, List.getElem?_eq_none (by rw [blocksAt_length]; exact beyond)]

theorem descriptorsOf_links {k : Nat} {desc old : XdmaDesc}
    (found : (descriptorsOf host flags epAddr descVirt groups)[k]? =
      some desc)
    (before : descVirt[k]? = some old) :
    desc.control = old.control ∧ desc.nextLo = old.nextLo ∧
      desc.nextHi = old.nextHi := by
  rw [descriptorsOf, storeBlocks_getElem?, if_pos (Nat.zero_le k),
    before] at found
  cases block : (blocksAt flags epAddr groups)[k - 0]? with
  | none =>
      rw [block] at found
      cases found
      exact ⟨rfl, rfl, rfl⟩
  | some block =>
      simp only [block, Option.map_some, Option.some.injEq] at found
      subst found
      exact ⟨Block.store_control .., Block.store_nextLo ..,
        Block.store_nextHi ..⟩

end Groups

theorem groupBytes_flatten (groups : List (List DmaSegment)) :
    groupBytes groups.flatten = (groups.map groupBytes).sum := by
  induction groups with
  | nil => rfl
  | cons group groups induction =>
      rw [List.flatten_cons, groupBytes_append, induction, List.map_cons,
        List.sum_cons]

theorem GroupwiseHolds.map_eq {groups : List (List DmaSegment)} {α : Type}
    {expect : List DmaSegment → α} {read : XdmaDesc → α}
    (groupwise : GroupwiseHolds (fun group desc => expect group = read desc)
      groups descVirt) :
    groups.map expect = (descVirt.take groups.length).map read := by
  rw [← List.forall₂_eq_eq_eq, List.forall₂_map_left_iff,
    List.forall₂_map_right_iff]
  exact groupwise

/-- The descriptors of groups of adjacent entries move what these hold. -/
theorem descriptorsOf_conserves {groups : List (List DmaSegment)}
    (someGroups : 0 < groups.length) (fits : groups.length ≤ descVirt.length)
    (bounded : groups.length ≤ groups.flatten.length)
    (contiguous : ∀ group ∈ groups, Contiguous group)
    (positive : ∀ entry ∈ groups.flatten, 1 ≤ entry.len.toNat)
    (small : groupBytes groups.flatten < 2 ^ 32) :
    Conserves host flags epAddr groups.flatten descVirt
      (descriptorsOf host flags epAddr descVirt groups)
      (groups.length - 1) := by
  have count : groups.length - 1 + 1 = groups.length := by omega
  have moves := descriptorsOf_moves host flags epAddr descVirt small fits
    contiguous
  have spans : GroupwiseHolds (fun group desc =>
      group.flatMap DmaSegment.span = desc.busSpan host flags.dirToDev)
      groups (descriptorsOf host flags epAddr descVirt groups) :=
    moves.imp fun _ _ moved => moved.1
  have sizes : GroupwiseHolds (fun group desc =>
      groupBytes group = desc.size host)
      groups (descriptorsOf host flags epAddr descVirt groups) :=
    moves.imp fun _ _ moved => moved.2
  constructor
  · omega
  · rw [descriptorsOf, storeBlocks_length]
  · rw [count, List.flatMap_def, ← spans.map_eq, ← List.flatMap_def,
      List.flatten_eq_flatMap, List.flatMap_assoc]
    rfl
  · rw [count]
    refine ⟨groups, rfl, ?_⟩
    apply descriptorsOf_groupwise host flags epAddr descVirt small fits
    intro group member epAddr old
    have run := contiguous group member
    rw [XdmaDesc.busSpan, Block.store_busAddr, Block.store_size,
      groupLen_toNat_of_mem small member, run.covers]
    refine ⟨run.nonempty, groupBytes_pos run.nonempty ?_, rfl⟩
    intro entry inside
    exact positive entry (List.mem_flatten_of_mem member inside)
  · intro k desc upTo found
    have inside : k < groups.length := by omega
    obtain ⟨old, made⟩ := descriptorsOf_described host flags epAddr descVirt
      small fits inside found
    have earlier : ((descriptorsOf host flags epAddr descVirt groups).take
        k).map (XdmaDesc.size host) = (groups.take k).map groupBytes := by
      rw [List.map_take, List.map_take, sizes.map_eq, List.map_take,
        List.take_take, Nat.min_eq_left (by omega)]
    rw [made, Block.store_endPoint, earlier,
      ← groupBytes_flatten]
  · intro k desc old found before
    exact descriptorsOf_links host flags epAddr descVirt found before
  · intro k beyond
    exact descriptorsOf_beyond host flags epAddr descVirt (by omega)

/-- The descriptors for the other direction differ in nothing but the two
addresses, which are exchanged. -/
theorem descriptorsOf_exchanged {groups : List (List DmaSegment)}
    (small : groupBytes groups.flatten < 2 ^ 32)
    (toDevice : flags.dirToDev ≠ 0) {k : Nat} (inside : k < groups.length)
    {desc : XdmaDesc}
    (found : (descriptorsOf host flags epAddr descVirt groups)[k]? =
      some desc) :
    (descriptorsOf host { flags with dirToDev := 0 } epAddr descVirt
      groups)[k]? = some desc.exchanged := by
  have here := descriptorsOf_getElem? host flags epAddr descVirt small
    (List.getElem?_eq_getElem inside)
  have other := descriptorsOf_getElem? host { flags with dirToDev := 0 }
    epAddr descVirt small (List.getElem?_eq_getElem inside)
  rw [found] at here
  cases before : descVirt[k]? with
  | none =>
      rw [before] at here
      cases here
  | some old =>
      rw [before, Option.map_some] at here other
      rw [other, Option.some.inj here, Block.store_exchanged _ _ _ _ toDevice]

variable {sgl : List DmaSegment} {descVirt}

theorem transferBuild_descriptorsOf (nonempty : sgl ≠ [])
    (fits : sgl.length ≤ descVirt.length) :
    transferBuild host descVirt sgl epAddr flags =
      ⟨.ok (descriptorsOf host flags epAddr descVirt
          (groups (closesGroup flags) sgl),
        (groups (closesGroup flags) sgl).length - 1), []⟩ := by
  rw [transferBuild_eq host epAddr flags nonempty fits, transferBlocks,
    blocksAt_length]
  rfl

/-- `transfer_build` conserves the data of every table, whatever its flags,
and exchanges the two sides of each descriptor for the other direction. -/
theorem transferBuild_conserves (nonempty : sgl ≠ [])
    (fits : sgl.length ≤ descVirt.length)
    (positive : ∀ entry ∈ sgl, 1 ≤ entry.len.toNat)
    (small : groupBytes sgl < 2 ^ 31) :
    ∃ built last,
      transferBuild host descVirt sgl epAddr flags =
        ⟨.ok (built, last), []⟩ ∧
      Conserves host flags epAddr sgl descVirt built last ∧
      (flags.dirToDev ≠ 0 →
        ExchangesSides host flags epAddr sgl descVirt built last) := by
  have build := transferBuild_descriptorsOf host flags epAddr nonempty fits
  have other := transferBuild_descriptorsOf host { flags with dirToDev := 0 }
    epAddr nonempty fits
  have rule : closesGroup { flags with dirToDev := 0 } = closesGroup flags :=
    rfl
  have flatten := flatten_groups (closesGroup flags) sgl
  have contiguous := groups_contiguous flags sgl
  have blocks := transferBlocks_length_pos flags epAddr nonempty
  have bounded := transferBlocks_length_le flags epAddr sgl
  rw [transferBlocks, blocksAt_length] at blocks bounded
  rw [rule] at other
  generalize groups (closesGroup flags) sgl = made at *
  subst flatten
  refine ⟨_, _, build, descriptorsOf_conserves host flags epAddr descVirt
    blocks (by omega) bounded contiguous positive (by omega), ?_⟩
  intro toDevice
  refine ⟨_, other, ?_, ?_⟩
  · intro k desc upTo found
    exact descriptorsOf_exchanged host flags epAddr descVirt (by omega)
      toDevice (by omega) found
  · intro k beyond
    rw [descriptorsOf_beyond host _ epAddr descVirt (by omega),
      descriptorsOf_beyond host _ epAddr descVirt (by omega)]

end Build

theorem transferBuild_conserves_two_pages :
    ∃ built last,
      transferBuild .little (List.replicate 3 ⟨0, 0, 0, 0, 0, 0, 0, 0⟩)
          [⟨0x10000, 0x1000⟩, ⟨0x30000, 0x800⟩] 0x100 ⟨1, 0, 0, 1⟩ =
        ⟨.ok (built, last), []⟩ ∧
      Conserves .little ⟨1, 0, 0, 1⟩ 0x100
        [⟨0x10000, 0x1000⟩, ⟨0x30000, 0x800⟩]
        (List.replicate 3 ⟨0, 0, 0, 0, 0, 0, 0, 0⟩) built last ∧
      ((⟨1, 0, 0, 1⟩ : BuildFlags).dirToDev ≠ 0 →
        ExchangesSides .little ⟨1, 0, 0, 1⟩ 0x100
          [⟨0x10000, 0x1000⟩, ⟨0x30000, 0x800⟩]
          (List.replicate 3 ⟨0, 0, 0, 0, 0, 0, 0, 0⟩) built last) :=
  transferBuild_conserves .little ⟨1, 0, 0, 1⟩ 0x100 (List.cons_ne_nil _ _)
    (by decide) (by decide) (by decide)

/-! ## The grouping -/

/-- `next` does not begin where the last entry of the descriptor ends, or the
descriptor has grown too long to take in another page. -/
def startsDescriptor (opened : List DmaSegment) (next : DmaSegment) : Bool :=
  match opened.getLast? with
  | some entry => decide (¬entry.ContinuedBy next ∨
      xdmaBreakBytes < groupBytes opened)
  | none => true

/-- The table cut greedily by this rule. -/
def greedyGroups (sgl : List DmaSegment) : List (List DmaSegment) :=
  groups startsDescriptor sgl

/-- `transfer_build` fills in one descriptor for each group of the greedy
grouping, and no descriptor is longer than a break leaves it. -/
structure BuildsGreedily (host : Endian) (flags : BuildFlags)
    (sgl : List DmaSegment) (built : List XdmaDesc) (last largest : Nat) :
    Prop where
  count : (greedyGroups sgl).length = last + 1
  groups : GroupwiseHolds (fun group desc =>
    group.flatMap DmaSegment.span = desc.busSpan host flags.dirToDev ∧
      groupBytes group = desc.size host) (greedyGroups sgl) built
  /-- Where one descriptor ends and the next begins. -/
  separates : ∀ (i : Nat) (entry next : DmaSegment), sgl[i]? = some entry →
    sgl[i + 1]? = some next →
    (indexOf (greedyGroups sgl) i ≠ indexOf (greedyGroups sgl) (i + 1) ↔
      ¬entry.ContinuedBy next ∨
        xdmaBreakBytes < groupBytes (upTo (greedyGroups sgl) i))
  bounded : ∀ (k : Nat) (desc : XdmaDesc), k ≤ last →
    built[k]? = some desc → desc.size host ≤ xdmaBreakBytes + largest
  pages : largest ≤ 4096 → ∀ (k : Nat) (desc : XdmaDesc), k ≤ last →
    built[k]? = some desc → desc.size host ≤ xdmaDescMaxBytes
  /-- What `cont_len` has summed up by entry `i` fits its 32 bits. -/
  noWrap : ∀ i < sgl.length, groupBytes (upTo (greedyGroups sgl) i) < 2 ^ 32

section Greedy

variable {flags : BuildFlags}

theorem closesGroup_eq_startsDescriptor
    (free : flags.forceNewDesc = 0 ∨ flags.userspace ≠ 0)
    {group : List DmaSegment} (small : groupBytes group < 2 ^ 32)
    (next : DmaSegment) :
    closesGroup flags group next = startsDescriptor group next := by
  unfold closesGroup startsDescriptor
  cases found : group.getLast? with
  | none => rfl
  | some entry =>
      have unforced : ¬(flags.forceNewDesc ≠ 0 ∧ flags.userspace = 0) := by
        omega
      rw [Bool.eq_iff_iff, decide_eq_true_iff]
      simp [newDesc, unforced, groupLen_toNat small, DmaSegment.ContinuedBy]

/-- The loop of `transfer_build` applies the rule of the reference. -/
theorem groups_eq_greedyGroups
    (free : flags.forceNewDesc = 0 ∨ flags.userspace ≠ 0)
    {sgl : List DmaSegment} (small : groupBytes sgl < 2 ^ 32) :
    groups (closesGroup flags) sgl = greedyGroups sgl := by
  apply groups_congr
  intro before group next later split _
  rw [split, groupBytes_append, groupBytes_append] at small
  exact closesGroup_eq_startsDescriptor free (by omega) next

theorem greedyGroups_separates {sgl : List DmaSegment} {i : Nat}
    {entry next : DmaSegment} (here : sgl[i]? = some entry)
    (found : sgl[i + 1]? = some next) :
    indexOf (greedyGroups sgl) i ≠ indexOf (greedyGroups sgl) (i + 1) ↔
      ¬entry.ContinuedBy next ∨
        xdmaBreakBytes < groupBytes (upTo (greedyGroups sgl) i) := by
  have last := upTo_getLast? (greedyGroups sgl) i
  rw [greedyGroups, flatten_groups, here] at last
  rw [greedyGroups, groups_index_ne_iff startsDescriptor found,
    startsDescriptor, last]
  exact decide_eq_true_iff

/-- A descriptor that may still grow leaves room for one more entry. -/
theorem greedyGroups_bounded {sgl : List DmaSegment} {largest : Nat}
    (limited : ∀ entry ∈ sgl, entry.len.toNat ≤ largest) :
    ∀ group ∈ greedyGroups sgl,
      groupBytes group ≤ xdmaBreakBytes + largest := by
  have single : ∀ entry ∈ sgl,
      groupBytes [entry] ≤ xdmaBreakBytes + largest := by
    intro entry member
    have alone := limited entry member
    rw [groupBytes_cons]
    exact Nat.le_trans alone (Nat.le_add_left _ _)
  have extend : ∀ group, ∀ next ∈ sgl,
      groupBytes group ≤ xdmaBreakBytes + largest →
      startsDescriptor group next = false →
      groupBytes (group ++ [next]) ≤ xdmaBreakBytes + largest := by
    intro group next member _ continues
    have room := limited next member
    have growing : groupBytes group ≤ xdmaBreakBytes := by
      unfold startsDescriptor at continues
      cases last : group.getLast? with
      | none =>
          rw [last] at continues
          cases continues
      | some entry =>
          rw [last] at continues
          have open_ := of_decide_eq_false continues
          omega
    rw [groupBytes_append, groupBytes_cons]
    exact Nat.add_le_add growing room
  exact forall_mem_groups startsDescriptor single extend

theorem groupBytes_sublist {part whole : List DmaSegment}
    (sublist : part.Sublist whole) : groupBytes part ≤ groupBytes whole := by
  induction sublist with
  | slnil => exact Nat.le_refl 0
  | cons entry _ induction =>
      rw [groupBytes_cons]
      omega
  | cons_cons entry _ induction =>
      rw [groupBytes_cons, groupBytes_cons]
      omega

end Greedy

section Build

variable (host : Endian) {flags : BuildFlags} (epAddr : U64)
  {descVirt : List XdmaDesc} {sgl : List DmaSegment} {largest : Nat}

/-- `transfer_build` computes the greedy grouping. -/
theorem transferBuild_greedy
    (free : flags.forceNewDesc = 0 ∨ flags.userspace ≠ 0)
    (nonempty : sgl ≠ []) (fits : sgl.length ≤ descVirt.length)
    (small : groupBytes sgl < 2 ^ 31)
    (limited : ∀ entry ∈ sgl, entry.len.toNat ≤ largest) :
    ∃ built last,
      transferBuild host descVirt sgl epAddr flags =
        ⟨.ok (built, last), []⟩ ∧
      BuildsGreedily host flags sgl built last largest := by
  have build := transferBuild_descriptorsOf host flags epAddr nonempty fits
  have blocks := transferBlocks_length_pos flags epAddr nonempty
  have bounded := transferBlocks_length_le flags epAddr sgl
  have contiguous := groups_contiguous flags sgl
  have flatten : (greedyGroups sgl).flatten = sgl :=
    flatten_groups startsDescriptor sgl
  rw [transferBlocks, blocksAt_length] at blocks bounded
  rw [groups_eq_greedyGroups free (by omega)] at *
  have whole : groupBytes (greedyGroups sgl).flatten < 2 ^ 32 := by
    rw [flatten]
    omega
  have sizes : ∀ (k : Nat) (desc : XdmaDesc),
      k ≤ (greedyGroups sgl).length - 1 →
      (descriptorsOf host flags epAddr descVirt (greedyGroups sgl))[k]? =
        some desc → desc.size host ≤ xdmaBreakBytes + largest := by
    intro k desc upTo found
    exact descriptorsOf_size_le host flags epAddr descVirt whole (by omega)
      (greedyGroups_bounded limited) (by omega) found
  refine ⟨_, _, build, ?_⟩
  constructor
  · omega
  · exact descriptorsOf_moves host flags epAddr descVirt whole (by omega)
      contiguous
  · intro i entry next here found
    exact greedyGroups_separates here found
  · exact sizes
  · intro page k desc upTo found
    have room : xdmaBreakBytes + 4096 = xdmaDescMaxBytes := rfl
    have within := sizes k desc upTo found
    omega
  · intro i _
    exact Nat.lt_of_le_of_lt (groupBytes_sublist (upTo_sublist _ i)) whole

end Build

theorem transferBuild_greedy_two_pages :
    ∃ built last,
      transferBuild .little (List.replicate 2 ⟨0, 0, 0, 0, 0, 0, 0, 0⟩)
          [⟨0x10000, 0x1000⟩, ⟨0x11000, 0x800⟩] 0x100 ⟨1, 0, 0, 1⟩ =
        ⟨.ok (built, last), []⟩ ∧
      BuildsGreedily .little ⟨1, 0, 0, 1⟩
        [⟨0x10000, 0x1000⟩, ⟨0x11000, 0x800⟩] built last 0x1000 :=
  transferBuild_greedy .little 0x100 (Or.inl rfl) (List.cons_ne_nil _ _)
    (by decide) (by decide) (by decide)

end Xpcie
