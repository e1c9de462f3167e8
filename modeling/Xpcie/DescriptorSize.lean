import Xpcie.Write

/-!
# The length of a descriptor

`transfer_build` closes a block that has grown past
`XDMA_DESC_MAX_BYTES - PAGE_SIZE` and otherwise appends the next entry whole.
That leaves room for one page, and entries may be longer than a page.

Entries meet at page boundaries of the user buffer.  A descriptor therefore
stays within the limit only if it ends at the last page boundary it reaches,
or with its stretch of the table, and this fixes where each descriptor of a
stretch has to begin.
-/

namespace Xpcie

open EffectLog

/-- The default maximum segment size of a device. -/
def maxSegmentSize : Nat := 65536

/-- Entry after entry, `mapped` merges consecutive entries of the scatterlist
`table` into segments no longer than the device admits. -/
structure MergedTable (table : List Scatterlist)
    (mapped : List DmaSegment) : Prop where
  merges : ∃ groups : List (List Scatterlist),
    groups.flatten = table ∧
      List.Forall₂ (fun group entry => group ≠ [] ∧
        (group.map fun part => part.length.toNat).sum = entry.len.toNat)
        groups mapped
  limited : ∀ entry ∈ mapped, entry.len.toNat ≤ maxSegmentSize

/-- Every descriptor handed to the engine has an admissible length. -/
def DescriptorsWithinLimit (host : Endian) (kernel : KernelCalls)
    (buf count ppos : U64) : Prop :=
  ∃ transfer,
    (h2cPrepare host kernel buf count ppos).result = .ok transfer ∧
      ∀ (i : Nat) (desc : XdmaDesc), (i : Int) < transfer.descNum →
        transfer.descVirt[i]? = some desc →
        1 ≤ desc.size host ∧ desc.size host ≤ xdmaDescMaxBytes

/-! ## Where descriptors have to begin -/

/-- The bytes of the whole pages a descriptor has room for. -/
def descPageBytes : Nat := xdmaDescMaxBytes / 4096 * 4096

/-- The bytes from `position` to the next page. -/
def pageLead (position : Nat) : Nat := (4096 - position % 4096) % 4096

/-- Place `k` of a stretch whose first page boundary lies `lead` bytes behind
its start: the start itself, then every 63rd page boundary. -/
def cutOffset (lead : Nat) : Nat → Nat
  | 0 => 0
  | k + 1 => lead + descPageBytes * (k + 1)

/-- With `run` laid out from `start` on, one of its entries begins at
`position`, or the last one ends there. -/
def CutAt (start : Nat) (run : List DmaSegment) (position : Nat) : Prop :=
  ∃ front, front <+: run ∧ start + groupBytes front = position

/-- In every longest stretch of entries that continue one another on the bus,
an entry begins at place `k + 1` if more than `XDMA_DESC_MAX_BYTES` bytes of
the stretch follow place `k`. -/
def CutAtPages (buf : Nat) (table : List DmaSegment) : Prop :=
  ∀ before run after, table = before ++ run ++ after →
    Grouping.LongestChain DmaSegment.ContinuedBy before run after →
    ∀ k, cutOffset (pageLead (buf + groupBytes before)) k +
        xdmaDescMaxBytes < groupBytes run →
      CutAt 0 run (cutOffset (pageLead (buf + groupBytes before)) (k + 1))

/-! ## The loop -/

/-- After `opened` bytes that end with `entry`, no entry overfills a block:
an entry that continues a block with no more than `XDMA_DESC_MAX_BYTES -
PAGE_SIZE` bytes finds room for all of its own. -/
def FitsAfter : Nat → DmaSegment → List DmaSegment → Prop
  | _, _, [] => True
  | opened, entry, next :: rest =>
      if entry.ContinuedBy next ∧ opened ≤ xdmaBreakBytes then
        opened + next.len.toNat ≤ xdmaDescMaxBytes ∧
          FitsAfter (opened + next.len.toNat) next rest
      else FitsAfter next.len.toNat next rest

/-- No entry of the table overfills a block. -/
def BlocksFit : List DmaSegment → Prop
  | [] => True
  | first :: rest => FitsAfter first.len.toNat first rest

theorem h2cFlags_newDesc (addr : U64) (entry next : DmaSegment)
    (contLen : U32) (current : addr = entry.addr) :
    newDesc h2cFlags addr entry next contLen = false ↔
      entry.ContinuedBy next ∧ contLen.toNat ≤ xdmaBreakBytes := by
  simp [newDesc, h2cFlags, current, DmaSegment.ContinuedBy]

/-- The blocks the loop makes are within the limit exactly when no entry
overfills one. -/
theorem groupsFrom_within_iff {opened rest : List DmaSegment}
    {entry : DmaSegment} (current : opened.getLast? = some entry)
    (small : groupBytes opened + groupBytes rest < 2 ^ 32)
    (limited : ∀ next ∈ rest, next.len.toNat ≤ maxSegmentSize) :
    (∀ group ∈ Grouping.groupsFrom (closesGroup h2cFlags) opened rest,
        groupBytes group ≤ xdmaDescMaxBytes) ↔
      groupBytes opened ≤ xdmaDescMaxBytes ∧
        FitsAfter (groupBytes opened) entry rest := by
  induction rest generalizing opened entry with
  | nil => simp [Grouping.groupsFrom, FitsAfter]
  | cons next rest induction =>
      have nextLimited := limited next List.mem_cons_self
      have restLimited : ∀ later ∈ rest, later.len.toNat ≤ maxSegmentSize :=
        fun later member => limited later (List.mem_cons_of_mem next member)
      rw [groupBytes_cons] at small
      have length := groupLen_toNat (show groupBytes opened < 2 ^ 32 by omega)
      have test : closesGroup h2cFlags opened next = false ↔
          entry.ContinuedBy next ∧ groupBytes opened ≤ xdmaBreakBytes := by
        simp only [closesGroup, current]
        rw [h2cFlags_newDesc _ _ _ _ rfl, length]
      rw [Grouping.groupsFrom, FitsAfter]
      by_cases joined : entry.ContinuedBy next ∧
          groupBytes opened ≤ xdmaBreakBytes
      · have longer : groupBytes (opened ++ [next]) =
            groupBytes opened + next.len.toNat := by
          rw [groupBytes_append]
          simp [groupBytes]
        rw [test.mpr joined, if_pos joined, if_neg Bool.false_ne_true,
          induction List.getLast?_concat (by omega) restLimited, longer]
        constructor
        · rintro ⟨room, later⟩
          exact ⟨by omega, room, later⟩
        · rintro ⟨_, room, later⟩
          exact ⟨room, later⟩
      · have closed : closesGroup h2cFlags opened next = true := by
          rw [← Bool.not_eq_false, test]
          exact joined
        have single : groupBytes [next] = next.len.toNat := by
          simp [groupBytes]
        have nextFits : next.len.toNat ≤ xdmaDescMaxBytes :=
          Nat.le_trans nextLimited (by decide)
        rw [closed, if_neg joined, if_pos rfl, List.forall_mem_cons,
          induction rfl (by omega) restLimited, single]
        constructor
        · rintro ⟨first, _, later⟩
          exact ⟨first, later⟩
        · rintro ⟨first, later⟩
          exact ⟨first, nextFits, later⟩

/-- The lengths the device finds are those of the groups. -/
theorem transferBlocks_within_iff {sgl : List DmaSegment} (epAddr : U64)
    (small : groupBytes sgl < 2 ^ 32)
    (positive : ∀ entry ∈ sgl, 0 < entry.len.toNat)
    (limited : ∀ entry ∈ sgl, entry.len.toNat ≤ maxSegmentSize) :
    (∀ block ∈ transferBlocks h2cFlags epAddr sgl,
        1 ≤ block.len.toNat ∧ block.len.toNat ≤ xdmaDescMaxBytes) ↔
      BlocksFit sgl := by
  have flatten := Grouping.flatten_groups (closesGroup h2cFlags) sgl
  have lengths : ∀ group ∈ Grouping.groups (closesGroup h2cFlags) sgl,
      (groupLen group).toNat = groupBytes group ∧ 0 < groupBytes group := by
    intro group member
    have bounded := groupBytes_le_of_mem member
    rw [flatten] at bounded
    refine ⟨groupLen_toNat (by omega), groupBytes_pos
      (groups_contiguous h2cFlags sgl group member).nonempty ?_⟩
    intro entry inside
    apply positive entry
    rw [← flatten]
    exact List.mem_flatten_of_mem member inside
  have blocks : (∀ block ∈ transferBlocks h2cFlags epAddr sgl,
      1 ≤ block.len.toNat ∧ block.len.toNat ≤ xdmaDescMaxBytes) ↔
        ∀ group ∈ Grouping.groups (closesGroup h2cFlags) sgl,
          groupBytes group ≤ xdmaDescMaxBytes := by
    have same := blocksAt_len h2cFlags epAddr
      (Grouping.groups (closesGroup h2cFlags) sgl)
    rw [← List.forall_mem_map (f := Block.len)
      (P := fun len => 1 ≤ len.toNat ∧ len.toNat ≤ xdmaDescMaxBytes),
      transferBlocks, same, List.forall_mem_map]
    apply forall₂_congr
    intro group member
    obtain ⟨length, positive⟩ := lengths group member
    rw [length]
    exact and_iff_right positive
  rw [blocks]
  cases sgl with
  | nil => simp [Grouping.groups, BlocksFit]
  | cons first rest =>
      have single : groupBytes [first] = first.len.toNat := by
        simp [groupBytes]
      have firstFits : first.len.toNat ≤ xdmaDescMaxBytes :=
        Nat.le_trans (limited first List.mem_cons_self) (by decide)
      rw [groupBytes_cons] at small
      rw [Grouping.groups, groupsFrom_within_iff List.getLast?_singleton
        (by omega)
        (fun next member => limited next (List.mem_cons_of_mem first member)),
        single, and_iff_right firstFits, BlocksFit]

theorem setUpDesc_size (host : Endian) (descBus : U64) (dirToDev : Int)
    (number i : Nat) (block : Block) (old : XdmaDesc) :
    (setUpDesc host descBus dirToDev number i block old).size host =
      block.len.toNat := by
  unfold setUpDesc Block.store xdmaDescSet
  split <;> simp [XdmaDesc.size]

section Write

variable (host : Endian) {kernel : KernelCalls} {buf count : U64}
  (ppos : U64)

theorem descriptorsWithinLimit_iff_blocks
    (admitted : count.toNat ≤ maxRwCount)
    (succeed : kernel.Succeed buf count) :
    DescriptorsWithinLimit host kernel buf count ppos ↔
      ∀ block ∈ transferBlocks h2cFlags ppos (kernel.mapped buf count),
        1 ≤ block.len.toNat ∧ block.len.toNat ≤ xdmaDescMaxBytes := by
  obtain ⟨grant, allocated⟩ := succeed.allocated
  have prepared := h2cPrepare_ok host ppos admitted succeed allocated
  have described : ∀ {i : Nat} {block : Block},
      (transferBlocks h2cFlags ppos (kernel.mapped buf count))[i]? =
        some block →
      (preparedTransfer host kernel grant buf count ppos).descVirt[i]? =
        some (setUpDesc host grant.bus h2cFlags.dirToDev
          (transferBlocks h2cFlags ppos (kernel.mapped buf count)).length i
          block (grant.content i)) :=
    fun found => setUpList_getElem? host grant (kernel.mapped buf count) ppos
      h2cFlags found
  constructor
  · rintro ⟨transfer, result, within⟩ block member
    rw [prepared] at result
    cases result
    obtain ⟨i, inside, found⟩ := List.mem_iff_getElem.mp member
    have size := within i _ (Int.ofNat_lt.mpr inside)
      (described (List.getElem?_eq_some_iff.mpr ⟨inside, found⟩))
    rwa [setUpDesc_size] at size
  · intro within
    refine ⟨_, by rw [prepared], ?_⟩
    intro i desc counted found
    have inside : i < (transferBlocks h2cFlags ppos
        (kernel.mapped buf count)).length := Int.ofNat_lt.mp counted
    rw [described (List.getElem?_eq_getElem inside)] at found
    cases found
    rw [setUpDesc_size]
    exact within _ (List.getElem_mem inside)

end Write

/-! ## The loop keeps the limit exactly where entries begin in time -/

theorem fitsAfter_append {opened : Nat} {entry next : DmaSegment}
    {rest later : List DmaSegment}
    (breaks : Grouping.BreaksBetween DmaSegment.ContinuedBy (entry :: rest)
      (next :: later)) :
    FitsAfter opened entry (rest ++ next :: later) ↔
      FitsAfter opened entry rest ∧
        FitsAfter next.len.toNat next later := by
  induction rest generalizing opened entry with
  | nil =>
      have apart : ¬entry.ContinuedBy next := breaks entry rfl next rfl
      simp [FitsAfter, apart]
  | cons second rest induction =>
      have laterBreaks : Grouping.BreaksBetween DmaSegment.ContinuedBy
          (second :: rest) (next :: later) :=
        (Grouping.breaksBetween_append_left (List.cons_ne_nil second rest)
          [entry] _).mp breaks
      rw [List.cons_append, FitsAfter, FitsAfter]
      split
      · rw [induction laterBreaks, and_assoc]
      · exact induction laterBreaks

theorem blocksFit_append (front back : List DmaSegment)
    (breaks : Grouping.BreaksBetween DmaSegment.ContinuedBy front back) :
    BlocksFit (front ++ back) ↔ BlocksFit front ∧ BlocksFit back := by
  cases front with
  | nil => simp [BlocksFit]
  | cons entry rest =>
      cases back with
      | nil => simp [BlocksFit]
      | cons next later => exact fitsAfter_append breaks

theorem cutAt_cons {start position : Nat} {next : DmaSegment}
    {rest : List DmaSegment} :
    CutAt start (next :: rest) position ↔
      start = position ∨ CutAt (start + next.len.toNat) rest position := by
  constructor
  · rintro ⟨front, begins, reached⟩
    rcases List.prefix_cons_iff.mp begins with rfl | ⟨tail, rfl, within⟩
    · exact .inl reached
    · rw [groupBytes_cons, ← Nat.add_assoc] at reached
      exact .inr ⟨tail, within, reached⟩
  · rintro (rfl | ⟨front, within, rfl⟩)
    · exact ⟨[], List.nil_prefix, rfl⟩
    · refine ⟨next :: front, (List.prefix_cons_inj next).mpr within, ?_⟩
      rw [groupBytes_cons, Nat.add_assoc]

theorem CutAt.start_le {start position : Nat} {run : List DmaSegment}
    (cut : CutAt start run position) : start ≤ position := by
  obtain ⟨front, _, rfl⟩ := cut
  exact Nat.le_add_right start _

theorem cutOffset_mono {lead j k : Nat} (after : j ≤ k) :
    cutOffset lead j ≤ cutOffset lead k := by
  cases j with
  | zero => exact Nat.zero_le _
  | succ j =>
      obtain ⟨k, rfl⟩ := Nat.exists_eq_add_of_le' (show 1 ≤ k by omega)
      exact Nat.add_le_add_left (Nat.mul_le_mul_left _ after) lead

/-- The next place is the last page boundary that a descriptor from this one
on reaches, and the only one where the loop closes it in time. -/
theorem cutOffset_succ {lead : Nat} (leadSmall : lead < 4096) (k : Nat) :
    cutOffset lead k + xdmaBreakBytes < cutOffset lead (k + 1) ∧
      cutOffset lead (k + 1) ≤ cutOffset lead k + xdmaDescMaxBytes ∧
      ∀ position, cutOffset lead k + xdmaBreakBytes < position →
        position ≤ cutOffset lead k + xdmaDescMaxBytes →
        position % 4096 = lead → position = cutOffset lead (k + 1) := by
  have whole : descPageBytes = 258048 := rfl
  have limit : xdmaDescMaxBytes = 262143 := rfl
  have breaks : xdmaBreakBytes = 258047 := rfl
  cases k with
  | zero =>
      simp only [cutOffset, whole, limit, breaks]
      refine ⟨by omega, by omega, ?_⟩
      intro position above below aligned
      omega
  | succ k =>
      -- Both places are page boundaries, 63 pages apart.
      simp only [cutOffset, whole, limit, breaks]
      refine ⟨by omega, by omega, ?_⟩
      intro position above below aligned
      omega

/-- From place `j` on, entries of `run` begin in time. -/
def CutsFrom (lead j start : Nat) (run : List DmaSegment) : Prop :=
  ∀ k, j ≤ k → cutOffset lead k + xdmaDescMaxBytes <
      start + groupBytes run →
    CutAt start run (cutOffset lead (k + 1))

section CutsFrom

variable {lead j start : Nat} {next : DmaSegment} {rest : List DmaSegment}

theorem cutsFrom_cons_early (early : start < cutOffset lead (j + 1)) :
    CutsFrom lead j start (next :: rest) ↔
      CutsFrom lead j (start + next.len.toNat) rest := by
  apply forall₂_congr
  intro k after
  have ahead := @cutOffset_mono lead (j + 1) (k + 1) (by omega)
  have elsewhere : ¬start = cutOffset lead (k + 1) := by omega
  rw [cutAt_cons, or_iff_right elsewhere, groupBytes_cons, Nat.add_assoc]

theorem cutsFrom_cons_due (leadSmall : lead < 4096)
    (due : start = cutOffset lead (j + 1)) :
    CutsFrom lead j start (next :: rest) ↔
      CutsFrom lead (j + 1) (start + next.len.toNat) rest := by
  rw [CutsFrom, CutsFrom, groupBytes_cons]
  constructor
  · intro cuts k after beyond
    rcases cutAt_cons.mp (cuts k (by omega) (by omega)) with same | later
    · have ahead := @cutOffset_mono lead (j + 1) k after
      have strictly := (cutOffset_succ leadSmall k).1
      omega
    · exact later
  · intro cuts k after beyond
    rw [cutAt_cons]
    rcases Nat.eq_or_lt_of_le after with rfl | strictly
    · exact .inl due
    · exact .inr (cuts k strictly (by omega))

end CutsFrom

/-- Within a stretch, the induction goes over the entries to come; the open
block begins at place `j`. -/
theorem fitsAfter_iff_cutsFrom {lead : Nat} (leadSmall : lead < 4096)
    {rest : List DmaSegment} {entry : DmaSegment} {opened j : Nat}
    (chained : (entry :: rest).IsChain DmaSegment.ContinuedBy)
    (fits : opened ≤ xdmaDescMaxBytes)
    (limited : ∀ next ∈ rest, next.len.toNat ≤ maxSegmentSize)
    (pages : ∀ front back, rest = front ++ back → back ≠ [] →
      (cutOffset lead j + opened + groupBytes front) % 4096 = lead) :
    FitsAfter opened entry rest ↔
      CutsFrom lead j (cutOffset lead j + opened) rest := by
  induction rest generalizing entry opened j with
  | nil =>
      refine iff_of_true trivial ?_
      intro k after beyond
      have ahead := @cutOffset_mono lead j k after
      simp only [groupBytes, List.map_nil, List.sum_nil] at beyond
      omega
  | cons next rest induction =>
      obtain ⟨joined, restChained⟩ := List.isChain_cons_cons.mp chained
      obtain ⟨nextLimited, restLimited⟩ := List.forall_mem_cons.mp limited
      obtain ⟨breakBefore, inReach, onlyCut⟩ := cutOffset_succ leadSmall j
      have here := pages [] (next :: rest) rfl (List.cons_ne_nil next rest)
      rw [show groupBytes [] = 0 from rfl, Nat.add_zero] at here
      have restPages : ∀ front back, rest = front ++ back → back ≠ [] →
          (cutOffset lead j + opened + next.len.toNat +
            groupBytes front) % 4096 = lead := by
        intro front back split unfinished
        have page := pages (next :: front) back (by rw [split]; rfl)
          unfinished
        rwa [groupBytes_cons, ← Nat.add_assoc] at page
      rw [FitsAfter]
      by_cases room : opened ≤ xdmaBreakBytes
      · -- The block goes on, and no cut is due where it has got to.
        rw [if_pos ⟨joined, room⟩, cutsFrom_cons_early (by omega)]
        rw [Nat.add_assoc] at restPages ⊢
        by_cases nextFits : opened + next.len.toNat ≤ xdmaDescMaxBytes
        · rw [and_iff_right nextFits]
          exact induction restChained nextFits restLimited restPages
        · refine iff_of_false (fun held => nextFits held.1) ?_
          intro cuts
          have due := (cuts j (Nat.le_refl j) (by omega)).start_le
          omega
      · -- The block is closed, and the next one begins where it has to.
        have due : cutOffset lead j + opened = cutOffset lead (j + 1) :=
          onlyCut _ (by omega) (by omega) here
        have nextFits : next.len.toNat ≤ xdmaDescMaxBytes :=
          Nat.le_trans nextLimited (by decide)
        rw [if_neg (fun both => room both.2), cutsFrom_cons_due leadSmall due]
        rw [due] at restPages ⊢
        exact induction restChained nextFits restLimited restPages

/-- In a table whose entries meet at page boundaries, no entry overfills a
block exactly when every stretch is cut in time. -/
theorem blocksFit_iff_cutAtPages {buf : Nat} {table : List DmaSegment}
    (limited : ∀ entry ∈ table, entry.len.toNat ≤ maxSegmentSize)
    (pages : ∀ front back, table = front ++ back → front ≠ [] → back ≠ [] →
      (buf + groupBytes front) % 4096 = 0) :
    BlocksFit table ↔ CutAtPages buf table := by
  rw [CutAtPages, @Grouping.forall_longestChain_iff _
    DmaSegment.ContinuedBy BlocksFit trivial blocksFit_append]
  apply forall₃_congr
  intro before run after
  apply forall₂_congr
  rintro rfl chain
  obtain ⟨entry, rest, rfl⟩ := List.exists_cons_of_ne_nil chain.nonempty
  have entryLimited := limited entry (by simp)
  have restLimited : ∀ next ∈ rest, next.len.toNat ≤ maxSegmentSize :=
    fun next member => limited next (by simp [member])
  have leadSmall : pageLead (buf + groupBytes before) < 4096 := by
    unfold pageLead
    omega
  have aligned : ∀ front back, rest = front ++ back → back ≠ [] →
      (cutOffset (pageLead (buf + groupBytes before)) 0 + entry.len.toNat +
        groupBytes front) % 4096 = pageLead (buf + groupBytes before) := by
    intro front back split unfinished
    have page := pages (before ++ entry :: front) (back ++ after)
      (by simp [split]) (by simp) (by simp [unfinished])
    rw [groupBytes_append, groupBytes_cons] at page
    unfold pageLead
    simp only [cutOffset]
    omega
  have fits := @fitsAfter_iff_cutsFrom _ leadSmall rest entry
    entry.len.toNat 0 chain.chained (Nat.le_trans entryLimited (by decide))
    restLimited aligned
  have places := (cutOffset_succ leadSmall 0).1
  rw [BlocksFit, fits, cutOffset, ← cutsFrom_cons_early (by omega), CutsFrom]
  simp only [Nat.zero_le, forall_const, Nat.zero_add]

/-! ## The entries of a merged table -/

section Merges

variable {groups : List (List Scatterlist)} {mapped : List DmaSegment}
  (pairs : List.Forall₂ (fun group entry => group ≠ [] ∧
    (group.map fun part => part.length.toNat).sum = entry.len.toNat)
    groups mapped)

include pairs

/-- Merging neighbours loses no byte and leaves no entry empty. -/
theorem merged_total_positive
    (positive : ∀ part ∈ groups.flatten, 0 < part.length.toNat) :
    groupBytes mapped =
        (groups.flatten.map fun part => part.length.toNat).sum ∧
      ∀ entry ∈ mapped, 0 < entry.len.toNat := by
  induction pairs with
  | nil => exact ⟨rfl, fun entry member => nomatch member⟩
  | @cons group entry groups mapped pair pairs induction =>
      obtain ⟨nonempty, length⟩ := pair
      rw [List.flatten_cons, List.forall_mem_append] at positive
      obtain ⟨total, later⟩ := induction positive.2
      obtain ⟨part, parts, rfl⟩ := List.exists_cons_of_ne_nil nonempty
      have partPositive := positive.1 part List.mem_cons_self
      rw [List.map_cons, List.sum_cons] at length
      constructor
      · rw [groupBytes_cons, total, List.flatten_cons, List.map_append,
          List.sum_append, List.map_cons, List.sum_cons, length]
      · rw [List.forall_mem_cons]
        exact ⟨by omega, later⟩

theorem merged_flatten_length_pos (nonempty : mapped ≠ []) :
    0 < groups.flatten.length := by
  cases pairs with
  | nil => exact absurd rfl nonempty
  | cons pair pairs =>
      have first := List.length_pos_of_ne_nil pair.1
      rw [List.flatten_cons, List.length_append]
      omega

end Merges

/-- The first entries of a scatterlist end where a page ends. -/
theorem sum_take_userSegments (page : Nat → Page) (buf count : U64)
    {n : Nat} (begun : 0 < n) (inside : n < pageSpan buf count) :
    (((userSegments page buf count).take n).map fun part =>
      part.length.toNat).sum + buf.toNat % 4096 = 4096 * n := by
  have longer : 4096 * n < buf.toNat % 4096 + count.toNat := by
    unfold pageSpan at inside
    omega
  have leadSmall : buf.toNat % 4096 < 4096 := by omega
  rw [userSegments, ← List.map_take, List.take_range,
    Nat.min_eq_left (Nat.le_of_lt inside), List.map_map]
  clear inside
  generalize buf.toNat % 4096 = lead at *
  induction n, begun using Nat.le_induction with
  | base =>
      have first := (userSegment_fields page leadSmall count.toNat 0).2
      simp only [List.range_one, List.map_cons, List.map_nil,
        List.sum_singleton, Function.comp_apply, first]
      omega
  | succ n begun induction =>
      have next := (userSegment_fields page leadSmall count.toNat n).2
      have before := induction (by omega)
      rw [List.range_succ, List.map_append, List.sum_append]
      simp only [List.map_cons, List.map_nil, List.sum_singleton,
        Function.comp_apply, next]
      omega

section MergedTable

variable {page : Nat → Page} {buf count : U64} {mapped : List DmaSegment}

theorem MergedTable.total_positive
    (merged : MergedTable (userSegments page buf count) mapped)
    (requested : 0 < count.toNat) :
    groupBytes mapped = count.toNat ∧
      ∀ entry ∈ mapped, 0 < entry.len.toNat := by
  obtain ⟨groups, flatten, pairs⟩ := merged.merges
  have positive := @userSegments_positive page buf count requested
  rw [← flatten] at positive
  have total := merged_total_positive pairs positive
  rwa [flatten, sum_userSegments] at total

/-- Entries meet where a page of the buffer begins. -/
theorem MergedTable.pages
    (merged : MergedTable (userSegments page buf count) mapped)
    (requested : 0 < count.toNat) {front back : List DmaSegment}
    (split : mapped = front ++ back) (begun : front ≠ [])
    (unfinished : back ≠ []) :
    (buf.toNat + groupBytes front) % 4096 = 0 := by
  obtain ⟨groups, flatten, pairs⟩ := merged.merges
  rw [split] at pairs
  have frontPairs := List.forall₂_take_append _ _ _ pairs
  have frontParts := merged_flatten_length_pos frontPairs begun
  have backParts := merged_flatten_length_pos
    (List.forall₂_drop_append _ _ _ pairs) unfinished
  rw [← List.take_append_drop front.length groups,
    List.flatten_append] at flatten
  generalize groups.take front.length = frontGroups at *
  generalize groups.drop front.length = backGroups at *
  have positive := @userSegments_positive page buf count requested
  have length : (userSegments page buf count).length = pageSpan buf count := by
    rw [userSegments, List.length_map, List.length_range]
  rw [← flatten, List.length_append] at length
  rw [← flatten, List.forall_mem_append] at positive
  have total := (merged_total_positive frontPairs positive.1).1
  have taken := sum_take_userSegments page buf count frontParts (by omega)
  rw [← flatten, List.take_left, ← total] at taken
  omega

end MergedTable

/-- Lengths stay within the limit exactly when the table is cut wherever a
descriptor has to begin. -/
theorem descriptorsWithinLimit_iff (host : Endian) {kernel : KernelCalls}
    {buf count : U64} (ppos : U64) (admitted : count.toNat ≤ maxRwCount)
    (succeed : kernel.Succeed buf count)
    (merged : MergedTable (userSegments kernel.user.page buf count)
      (kernel.mapped buf count)) :
    DescriptorsWithinLimit host kernel buf count ppos ↔
      CutAtPages buf.toNat (kernel.mapped buf count) := by
  obtain ⟨total, positive⟩ := merged.total_positive succeed.requested
  have small : groupBytes (kernel.mapped buf count) < 2 ^ 32 := by
    unfold maxRwCount at admitted
    omega
  rw [descriptorsWithinLimit_iff_blocks host ppos admitted succeed,
    transferBlocks_within_iff ppos small positive merged.limited]
  exact blocksFit_iff_cutAtPages merged.limited
    fun _ _ => merged.pages succeed.requested

/-- Two pages that follow one another in memory. -/
theorem descriptorsWithinLimit_iff_two_pages :
    DescriptorsWithinLimit .little (directKernel 0x1000 8192 2) 0x1000 8192
        0 ↔
      CutAtPages 0x1000 ((directKernel 0x1000 8192 2).mapped 0x1000 8192) :=
  descriptorsWithinLimit_iff .little 0 (by decide)
    (directKernel_succeed 0x1000 2 (by decide))
    { merges := ⟨[[userSegment (1 + ·) 0 8192 0],
          [userSegment (1 + ·) 0 8192 1]], rfl,
        .cons (by decide) (.cons (by decide) .nil)⟩
      limited := by decide }

/-! ## A block that outgrows its descriptor -/

/-- A kernel that finds 256 KiB in consecutive page frames and maps them as
four segments of the maximum size. -/
def mergingKernel : KernelCalls :=
  { directKernel 0x100000 262144 2 with
    mapSg := fun _ => (List.range 4).map fun i =>
      { addr := BitVec.ofNat 64 (0x100000 + maxSegmentSize * i)
        len := BitVec.ofNat 32 maxSegmentSize } }

theorem mergingKernel_succeed : mergingKernel.Succeed 0x100000 262144 where
  requested := by decide
  granted := ⟨rfl, rfl, rfl⟩
  pinned := rfl
  mapped := by decide
  allocated := ⟨_, rfl⟩

theorem mergingKernel_merged :
    MergedTable (userSegments mergingKernel.user.page 0x100000 262144)
      (mergingKernel.mapped 0x100000 262144) where
  merges := by
    refine ⟨(List.range 4).map fun j => (List.range 16).map fun i =>
      userSegment mergingKernel.user.page 0 262144 (16 * j + i), ?_, ?_⟩
    · decide +kernel
    · exact .cons (by decide +kernel) (.cons (by decide +kernel)
        (.cons (by decide +kernel) (.cons (by decide +kernel) .nil)))
  limited := by decide

/-- The four segments end up in one descriptor of 262144 bytes. -/
theorem not_descriptorsWithinLimit_merging :
    ¬∀ (host : Endian) (kernel : KernelCalls) (buf count ppos : U64),
      count.toNat ≤ maxRwCount → kernel.Succeed buf count →
      MergedTable (userSegments kernel.user.page buf count)
        (kernel.mapped buf count) →
        DescriptorsWithinLimit host kernel buf count ppos := by
  intro within
  have small := within .little mergingKernel 0x100000 262144 0 (by decide)
    mergingKernel_succeed mergingKernel_merged
  rw [descriptorsWithinLimit_iff_blocks .little 0 (by decide)
    mergingKernel_succeed] at small
  have blocks : transferBlocks h2cFlags 0
      (mergingKernel.mapped 0x100000 262144) =
        [{ addr := 0x100000
           len := 262144
           epAddr := 0 }] := by decide
  rw [blocks] at small
  exact absurd (small _ List.mem_cons_self).2 (by decide)

end Xpcie
