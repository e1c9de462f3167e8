import Xpcie.Library.ByteStore
import Xpcie.Mmap
import Xpcie.RegisterTool

/-!
# The register tool on the user BAR

The tool opens the user device of the driver and maps it through
`xpcie_user_mmap`.  When the user logic behind the BAR is memory, a session of
calls is a history of writes to it, and what a call prints is what the newest
writes have left.
-/

namespace Xpcie

open ByteStore

inductive RegisterProgram where
  | regRw
  | testReg
  deriving DecidableEq, Repr

def RegisterProgram.mapSize : RegisterProgram → U64
  | .regRw => regRwMapSize
  | .testReg => testRegMapSize

/-- A call of one of the programs, with what the kernel makes of it: where
there is room for the mapping, and what its calls answer. -/
structure RegisterCall where
  program : RegisterProgram
  argv : List (List Char)
  opened : Bool
  munmapped : Bool
  base : U64
  pageProt : U64
  flags : U64
  kernel : MmapCalls

def Remap.mapping (remap : Remap) : RegisterMapping :=
  let bus := remap.pfn <<< pageShift
  { base := remap.addr
    bus }

section Call

variable (dev : Nat → PciResource) (call : RegisterCall)

/-- `mmap(0, MAP_SIZE, PROT_READ | PROT_WRITE, MAP_SHARED, fd, 0)`, as it
reaches the driver. -/
def RegisterCall.vma (size : U64) : VmAreaStruct :=
  { vmStart := call.base
    vmEnd := call.base + size
    vmPgoff := 0
    vmPageProt := call.pageProt
    vmFlags := call.flags }

/-- The kernel maps what the driver has it remap, unless the driver fails. -/
def RegisterCall.mmap (size : U64) : Option RegisterMapping :=
  let outcome := xpcieUserMmap call.kernel dev (call.vma size)
  if outcome.rc = 0 then outcome.remapped.map Remap.mapping else none

def RegisterCall.toolCalls : ToolCalls :=
  { opened := call.opened
    mmap := call.mmap dev
    munmapped := call.munmapped }

def RegisterCall.run {State : Type} (host : Endian) (block : BusDevice State)
    (device : State) : ToolRun State :=
  match call.program with
  | .regRw => regRw host block (call.toolCalls dev) call.argv device
  | .testReg => testReg host block (call.toolCalls dev) call.argv device

end Call

/-- The calls one after another. -/
def runSession {State : Type} (dev : Nat → PciResource) (host : Endian)
    (block : BusDevice State) (device : State) (calls : List RegisterCall) :
    State :=
  calls.foldl (fun device call => (call.run dev host block device).device)
    device

/-! ## What the kernel and the card promise -/

/-- The kernel gives whole pages below the end of the address space. -/
structure RegisterCall.Valid (call : RegisterCall) : Prop where
  aligned : call.base.toNat % 4096 = 0
  room : call.base.toNat + call.program.mapSize.toNat < 2 ^ 64

/-- A BAR as the PCI core sets it up; one of at least a page begins at a
page. -/
structure UserBar (dev : Nat → PciResource) : Prop where
  valid : (dev 0).Valid
  aligned : (dev 0).start.toNat % 4096 = 0

/-- The device is memory. -/
structure BusDevice.IsMemory {State : Type} (block : BusDevice State)
    (view : State → U64 → U8) : Prop where
  read : ∀ device bus size, (block.read device bus size).1 =
    (List.range size).map fun k => view device (bus + BitVec.ofNat 64 k)
  keeps : ∀ device bus size, view (block.read device bus size).2 = view device
  write : ∀ device bus bytes, view (block.write device bus bytes) =
    Write.apply (view device) ⟨bus, bytes⟩

/-! ## The mapping -/

theorem shiftRight_shiftLeft_page {addr : U64}
    (aligned : addr.toNat % 4096 = 0) :
    (addr >>> pageShift) <<< pageShift = addr := by
  have bound := addr.isLt
  apply BitVec.eq_of_toNat_eq
  rw [BitVec.toNat_shiftLeft, BitVec.toNat_ushiftRight, Nat.shiftLeft_eq,
    Nat.shiftRight_eq_div_pow, pageShift]
  omega

theorem RegisterProgram.mapSize_toNat (program : RegisterProgram) :
    0 < program.mapSize.toNat ∧ program.mapSize.toNat % 4096 = 0 := by
  cases program with
  | regRw => decide
  | testReg => decide

/-- What the driver has the kernel remap. -/
def RegisterCall.remap (call : RegisterCall) (dev : Nat → PciResource) :
    Remap :=
  { addr := call.base
    pfn := (dev 0).start >>> pageShift
    size := call.program.mapSize
    prot := call.kernel.pgprotNoncached call.pageProt }

/-- The mapping comes about. -/
def RegisterCall.Maps (call : RegisterCall) (dev : Nat → PciResource) : Prop :=
  call.program.mapSize.toNat ≤ barSpan dev 0 ∧
    call.kernel.ioRemapPfnRange (call.remap dev) = 0

instance (call : RegisterCall) (dev : Nat → PciResource) :
    Decidable (call.Maps dev) :=
  inferInstanceAs (Decidable (_ ∧ _))

section Mapping

variable {dev : Nat → PciResource} {call : RegisterCall}

theorem RegisterCall.Valid.vma (valid : call.Valid) :
    (call.vma call.program.mapSize).Valid ∧
      (call.vma call.program.mapSize).off = 0 ∧
      (call.vma call.program.mapSize).vsize = call.program.mapSize.toNat := by
  obtain ⟨positive, pages⟩ := call.program.mapSize_toNat
  have aligned := valid.aligned
  have finish : (call.vma call.program.mapSize).vmEnd.toNat =
      call.base.toNat + call.program.mapSize.toNat := by
    change (call.base + call.program.mapSize).toNat = _
    rw [BitVec.toNat_add]
    exact Nat.mod_eq_of_lt valid.room
  have offset : (call.vma call.program.mapSize).off = 0 := Nat.zero_mul 4096
  refine ⟨⟨?_, ?_, aligned, ?_⟩, offset, ?_⟩
  · change (call.vma call.program.mapSize).off < 2 ^ 64
    rw [offset]
    decide
  · rw [finish]
    exact Nat.lt_add_of_pos_right positive
  · rw [finish]
    omega
  · rw [VmAreaStruct.vsize, finish]
    exact Nat.add_sub_cancel_left _ _

/-- The window of the tool begins where the BAR does. -/
theorem RegisterCall.mmap_eq (bar : UserBar dev) (valid : call.Valid) :
    call.mmap dev call.program.mapSize =
      if call.Maps dev then
        some
          { base := call.base
            bus := (dev 0).start }
      else none := by
  obtain ⟨request, offset, size⟩ := valid.vma
  have guard := guard_iff bar.valid request
  rw [offset, size, Nat.zero_add] at guard
  have within : call.program.mapSize.toNat ≤ barSpan dev 0 ∨
      barSpan dev 0 < 0 ∧
        call.program.mapSize.toNat ≤ 2 ^ 64 + barSpan dev 0 ↔
      call.program.mapSize.toNat ≤ barSpan dev 0 := by omega
  rw [within] at guard
  have start : pciResourceStart dev 0 + ((0 : U64) <<< pageShift) =
      (dev 0).start := by
    have zero : (0 : U64) <<< pageShift = 0#64 := by decide
    rw [zero, BitVec.add_zero]
    rfl
  have length : call.base + call.program.mapSize - call.base =
      call.program.mapSize := by
    rw [BitVec.add_comm, BitVec.add_sub_cancel]
  rw [RegisterCall.mmap, xpcieUserMmap, mmapBar]
  dsimp only
  by_cases fits : call.program.mapSize.toNat ≤ barSpan dev 0
  · rw [if_neg (guard.mpr fits)]
    have remap : call.remap dev =
        { addr := (call.vma call.program.mapSize).vmStart
          pfn := (pciResourceStart dev 0 +
            ((call.vma call.program.mapSize).vmPgoff <<< pageShift)) >>>
              pageShift
          size := (call.vma call.program.mapSize).vmEnd -
            (call.vma call.program.mapSize).vmStart
          prot := call.kernel.pgprotNoncached
            (call.vma call.program.mapSize).vmPageProt } := by
      change _ = Remap.mk _ ((pciResourceStart dev 0 +
        ((0 : U64) <<< pageShift)) >>> pageShift)
        (call.base + call.program.mapSize - call.base) _
      rw [start, length]
      rfl
    rw [← remap]
    by_cases succeeds : call.kernel.ioRemapPfnRange (call.remap dev) = 0
    · rw [if_neg (not_not_intro succeeds), if_pos rfl,
        if_pos ⟨fits, succeeds⟩, Option.map_some]
      change some (RegisterMapping.mk call.base
        (((dev 0).start >>> pageShift) <<< pageShift)) = _
      rw [shiftRight_shiftLeft_page bar.aligned]
    · rw [if_pos succeeds, if_neg (show ¬-eagain = 0 by decide),
        if_neg fun maps => succeeds maps.2]
  · rw [if_pos (not_not.mp fun accepted => fits (guard.mp accepted)),
      if_neg (show ¬-einval = 0 by decide), if_neg fun maps => fits maps.1]

end Mapping

/-! ## Calls as operations of the memory -/

/-- The access the arguments ask for fits the mapping; the tool does not look
at that. -/
def RegisterCall.Fits (call : RegisterCall) : Prop :=
  ∀ access, accessCase (accessWidth call.argv) = some access →
    access.Inside call.program.mapSize (targetOf call.argv)

/-- The register that the arguments name. -/
def RegisterCall.register (call : RegisterCall) (dev : Nat → PciResource) :
    U64 :=
  (dev 0).start + targetOf call.argv

/-- What the call writes to the memory. -/
def RegisterCall.stored (dev : Nat → PciResource) (call : RegisterCall) :
    Option (Write 64 U8) :=
  if 4 < call.argv.length ∧ call.opened ∧ call.Maps dev then
    (accessCase (accessWidth call.argv)).map fun access =>
      { base := call.register dev
        values := hostBytes .little access.size (writevalOf call.argv) }
  else none

/-- The call gets as far as reading a register. -/
structure RegisterCall.Reads (call : RegisterCall)
    (dev : Nat → PciResource) : Prop where
  enough : 3 ≤ call.argv.length
  few : call.argv.length ≤ 4
  opened : call.opened
  maps : call.Maps dev

section Calls

variable {State : Type} {dev : Nat → PciResource} {call : RegisterCall}
  {block : BusDevice State} {view : State → U64 → U8}

theorem RegisterCall.run_eq (dev : Nat → PciResource) (call : RegisterCall)
    (host : Endian) (block : BusDevice State) (device : State) :
    call.run dev host block device =
      regTool call.program.mapSize host block (call.toolCalls dev) call.argv
        device := by
  rw [RegisterCall.run]
  cases call.program with
  | regRw => rfl
  | testReg => rfl

theorem RegisterCall.mmap_some (bar : UserBar dev) (valid : call.Valid)
    {mapping : RegisterMapping}
    (mapped : (call.toolCalls dev).mmap call.program.mapSize = some mapping) :
    call.Maps dev ∧ mapping.bus = (dev 0).start := by
  have answer := call.mmap_eq bar valid
  change call.mmap dev call.program.mapSize = some mapping at mapped
  rw [mapped] at answer
  split at answer
  · rename_i maps
    cases answer
    exact ⟨maps, rfl⟩
  · cases answer

theorem RegisterCall.eq_of_stored {write : Write 64 U8}
    (stores : call.stored dev = some write) {access : AccessCase}
    (found : accessCase (accessWidth call.argv) = some access) :
    write =
      { base := call.register dev
        values := hostBytes .little access.size (writevalOf call.argv) } := by
  rw [RegisterCall.stored, found, Option.map_some] at stores
  split at stores
  · exact (Option.some.inj stores).symm
  · cases stores

theorem RegisterCall.stored_fits {write : Write 64 U8}
    (stores : call.stored dev = some write) : write.Fits := by
  obtain ⟨access, found⟩ := accessCase_accessWidth call.argv
  rw [RegisterCall.eq_of_stored stores found, Write.Fits, hostBytes_length]
  exact Nat.le_trans (accessCase_converts found).small (by decide)

theorem sessionWrites_fit {calls : List RegisterCall} :
    ∀ write ∈ calls.filterMap (RegisterCall.stored dev), write.Fits := by
  intro write member
  obtain ⟨call, _, stores⟩ := List.mem_filterMap.mp member
  exact RegisterCall.stored_fits stores

/-- One call is at most one write to the memory. -/
theorem RegisterCall.run_view (memory : block.IsMemory view)
    (bar : UserBar dev) (valid : call.Valid) (fits : call.Fits)
    (host : Endian) (device : State) :
    view (call.run dev host block device).device =
      replay (view device) (call.stored dev).toList := by
  rw [call.run_eq]
  cases regTool_moves call.program.mapSize host block (call.toolCalls dev)
      call.argv device with
  | refused stdout error fdOpen missing runs =>
      have nothing : call.stored dev = none := by
        rw [RegisterCall.stored, if_neg]
        rintro ⟨many, opened, maps⟩
        rcases missing with few | closed | unmapped
        · omega
        · exact Bool.false_ne_true (closed.symm.trans opened)
        · change call.mmap dev call.program.mapSize = none at unmapped
          rw [call.mmap_eq bar valid, if_pos maps] at unmapped
          cases unmapped
      rw [runs, nothing]
      rfl
  | strays access mapping stdout asks outside runs =>
      exact absurd (fits access asks.access) outside
  | reads access mapping asks inside few answer answers runs =>
      have nothing : call.stored dev = none := by
        rw [RegisterCall.stored, if_neg fun both => Nat.not_lt.mpr few both.1]
      have kept : view answer.2 = view device := by
        rw [← answers]
        exact memory.keeps device _ _
      rw [runs, nothing, Option.toList_none, replay_nil]
      dsimp only
      split
      · exact kept
      · rw [(closeTool_device _ _ _).1]
        exact kept
  | writes access mapping asks inside many runs =>
      obtain ⟨maps, bus⟩ := call.mmap_some bar valid asks.mapped
      have stores : call.stored dev = some
          { base := call.register dev
            values := hostBytes .little access.size
              (writevalOf call.argv) } := by
        rw [RegisterCall.stored, if_pos ⟨many, asks.opened, maps⟩,
          asks.access, Option.map_some]
      rw [runs, stores, (closeTool_device _ _ _).1, memory.write, bus]
      rfl

theorem runSession_view (memory : block.IsMemory view) (bar : UserBar dev)
    {calls : List RegisterCall} (valid : ∀ call ∈ calls, call.Valid)
    (fits : ∀ call ∈ calls, call.Fits) (host : Endian) (device : State) :
    view (runSession dev host block device calls) =
      replay (view device) (calls.filterMap (RegisterCall.stored dev)) := by
  induction calls generalizing device with
  | nil => rfl
  | cons call later induction =>
      obtain ⟨validHere, validLater⟩ := List.forall_mem_cons.mp valid
      obtain ⟨fitsHere, fitsLater⟩ := List.forall_mem_cons.mp fits
      have here := call.run_view memory bar validHere fitsHere host device
      have rest := induction validLater fitsLater
        (call.run dev host block device).device
      change view (runSession dev host block
        (call.run dev host block device).device later) = _
      rw [rest, here, ← replay_append]
      cases stores : call.stored dev with
      | none => rw [List.filterMap_cons_none stores]; rfl
      | some write => rw [List.filterMap_cons_some stores]; rfl

/-- What a call reads is what it prints, and a word is also its result. -/
theorem RegisterCall.run_reads (memory : block.IsMemory view)
    (bar : UserBar dev) (valid : call.Valid) (fits : call.Fits)
    (reads : call.Reads dev) {access : AccessCase}
    (found : accessCase (accessWidth call.argv) = some access)
    (host : Endian) (device : State) :
    let run := call.run dev host block device
    let value := hostWord .little ((List.range access.size).map fun k =>
      view device (call.register dev + BitVec.ofNat 64 k))
    shownValue run.stdout = value ∧
      (accessWidth call.argv = 'w' → run.ending = .returned value.toInt) := by
  intro run value
  have mapped : (call.toolCalls dev).mmap call.program.mapSize =
      some ⟨call.base, (dev 0).start⟩ := by
    change call.mmap dev call.program.mapSize = _
    rw [call.mmap_eq bar valid, if_pos reads.maps]
  have runs : run = _ := call.run_eq dev host block device
  cases regTool_moves call.program.mapSize host block (call.toolCalls dev)
      call.argv device with
  | refused stdout error fdOpen missing _ =>
      rcases missing with few | closed | unmapped
      · exact absurd reads.enough (Nat.not_le_of_lt few)
      · exact absurd (closed.symm.trans reads.opened) Bool.false_ne_true
      · exact absurd (mapped.symm.trans unmapped) (Option.some_ne_none _)
  | strays other mapping stdout asks outside _ =>
      exact absurd (fits other asks.access) outside
  | reads other mapping asks inside few answer answers moved =>
      have same := Option.some.inj (found.symm.trans asks.access)
      subst same
      have bus := (call.mmap_some bar valid asks.mapped).2
      have read : hostWord .little answer.1 = value := by
        rw [← answers, memory.read, bus]
        rfl
      dsimp only at moved
      rw [read] at moved
      rw [runs, moved]
      by_cases word : accessWidth call.argv = 'w'
      · rw [if_pos word]
        exact ⟨shownValue_readText _ _ _ _ _, fun _ => rfl⟩
      · rw [if_neg word, (closeTool_device _ _ _).2]
        exact ⟨shownValue_readText _ _ _ _ _, fun isWord =>
          absurd isWord word⟩
  | writes other mapping asks inside many _ =>
      exact absurd reads.few (Nat.not_le_of_lt many)

end Calls

/-! ## Sessions -/

/-- The byte at an address, as the writes have left it. -/
def byteAfter (memory : U64 → U8) (writes : List (Write 64 U8))
    (addr : U64) : U8 :=
  (newest writes addr).getD (memory addr)

/-- A session is a history of writes, and each read shows the newest bytes. -/
structure SessionRefines {State : Type} (dev : Nat → PciResource)
    (host : Endian) (block : BusDevice State) (view : State → U64 → U8)
    (device : State) (calls : List RegisterCall) : Prop where
  memory : view (runSession dev host block device calls) =
    replay (view device) (calls.filterMap (RegisterCall.stored dev))
  shows : ∀ earlier call later, calls = earlier ++ call :: later →
    call.Reads dev → ∀ access,
    accessCase (accessWidth call.argv) = some access →
    let run := call.run dev host block
      (runSession dev host block device earlier)
    let value := hostWord .little ((List.range access.size).map fun k =>
      byteAfter (view device)
        (earlier.filterMap (RegisterCall.stored dev))
        (call.register dev + BitVec.ofNat 64 k))
    shownValue run.stdout = value ∧
      (accessWidth call.argv = 'w' → run.ending = .returned value.toInt)

theorem regSession_refines {State : Type} {dev : Nat → PciResource}
    {block : BusDevice State} {view : State → U64 → U8}
    (memory : block.IsMemory view) (bar : UserBar dev)
    {calls : List RegisterCall} (valid : ∀ call ∈ calls, call.Valid)
    (fits : ∀ call ∈ calls, call.Fits) (host : Endian) (device : State) :
    SessionRefines dev host block view device calls := by
  refine ⟨runSession_view memory bar valid fits host device, ?_⟩
  rintro earlier call later rfl reads access found
  have member : call ∈ earlier ++ call :: later :=
    List.mem_append_right earlier List.mem_cons_self
  have before : ∀ other ∈ earlier, other ∈ earlier ++ call :: later :=
    fun other inside => List.mem_append_left _ inside
  have shown := call.run_reads memory bar (valid call member)
    (fits call member) reads found host
    (runSession dev host block device earlier)
  have left := runSession_view memory bar
    (fun other inside => valid other (before other inside))
    (fun other inside => fits other (before other inside)) host device
  have fit := @sessionWrites_fit dev earlier
  rw [left] at shown
  simp only [replay_eq _ fit] at shown
  exact shown

/-- The bytes of a write are there until another write covers them. -/
theorem byteAfter_write (memory : U64 → U8)
    (earlier between : List (Write 64 U8)) (write : Write 64 U8)
    (apart : ∀ other ∈ between, write.Apart other) {k : Nat}
    (inside : k < write.values.length) (small : k < 2 ^ 64) :
    byteAfter memory (earlier ++ write :: between)
      (write.base + BitVec.ofNat 64 k) = write.values[k] := by
  have found := write.at?_offset small
  rw [List.getElem?_eq_getElem inside] at found
  have covered : write.Covers (write.base + BitVec.ofNat 64 k) := by
    by_contra outside
    rw [Write.at?_eq_none.mpr outside] at found
    cases found
  have untouched := newest_eq_none fun other member =>
    apart other member _ covered
  have own : newest [write] (write.base + BitVec.ofNat 64 k) =
      some write.values[k] := by
    rw [newest, List.reverse_singleton, List.findSome?_cons, found]
  rw [byteAfter, ← List.singleton_append, newest_append, newest_append,
    untouched, own]
  rfl

/-- A value written to a register is the value that a later read prints, cut
to the width of the register, as long as no call between the two touches
it. -/
theorem regSession_readback {State : Type} {dev : Nat → PciResource}
    {block : BusDevice State} {view : State → U64 → U8}
    (memory : block.IsMemory view) (bar : UserBar dev)
    {earlier between : List RegisterCall} {write read : RegisterCall}
    (valid : ∀ call ∈ earlier ++ write :: between, call.Valid)
    (fits : ∀ call ∈ earlier ++ write :: between, call.Fits)
    (readValid : read.Valid) (readFits : read.Fits)
    {stored : Write 64 U8} (stores : write.stored dev = some stored)
    (reads : read.Reads dev)
    (target : targetOf read.argv = targetOf write.argv)
    (width : accessWidth read.argv = accessWidth write.argv)
    (apart : ∀ other ∈ between.filterMap (RegisterCall.stored dev),
      stored.Apart other)
    {access : AccessCase}
    (found : accessCase (accessWidth read.argv) = some access)
    (host : Endian) (device : State) :
    (shownValue (read.run dev host block (runSession dev host block device
      (earlier ++ write :: between))).stdout).toNat =
      (writevalOf write.argv).toNat % 2 ^ (8 * access.size) := by
  have fit := @sessionWrites_fit dev (earlier ++ write :: between)
  have shown := (read.run_reads memory bar readValid readFits reads found host
    (runSession dev host block device (earlier ++ write :: between))).1
  have left := runSession_view memory bar valid fits host device
  have small := (accessCase_converts found).small
  have placed := RegisterCall.eq_of_stored stores (width ▸ found)
  have register : write.register dev = read.register dev := by
    rw [RegisterCall.register, RegisterCall.register, target]
  rw [register] at placed
  subst placed
  have bytes : (List.range access.size).map (fun k =>
      view (runSession dev host block device (earlier ++ write :: between))
        (read.register dev + BitVec.ofNat 64 k)) =
          hostBytes .little access.size (writevalOf write.argv) := by
    have length := hostBytes_length .little access.size (writevalOf write.argv)
    rw [left]
    apply List.ext_getElem
    · rw [List.length_map, List.length_range, length]
    · intro k here there
      have after := byteAfter_write (view device)
        (earlier.filterMap (RegisterCall.stored dev))
        (between.filterMap (RegisterCall.stored dev)) _ apart there
        (by omega)
      rw [List.getElem_map, List.getElem_range, replay_eq _ fit,
        List.filterMap_append, List.filterMap_cons_some stores]
      exact after
  rw [shown, bytes]
  exact hostWord_hostBytes found _

/-! ## A session on a memory -/

/-- User logic that is memory and nothing else. -/
def memoryDevice : BusDevice (U64 → U8) where
  read device bus size :=
    ((List.range size).map fun k => device (bus + BitVec.ofNat 64 k), device)
  write device bus bytes := Write.apply device ⟨bus, bytes⟩
  read_length := by
    intro device bus size
    rw [List.length_map, List.length_range]

theorem memoryDevice_isMemory : memoryDevice.IsMemory id where
  read _ _ _ := rfl
  keeps _ _ _ := rfl
  write _ _ _ := rfl

/-- A BAR of one MiB. -/
def largeBar : Nat → PciResource := fun _ =>
  { start := 0xf0000000
    last := 0xf00fffff }

theorem largeBar_userBar : UserBar largeBar where
  valid := ⟨by simp [largeBar], by simp [largeBar]⟩
  aligned := by decide

def callOf (program : RegisterProgram) (arguments : List String) :
    RegisterCall :=
  { program
    argv := arguments.map String.toList
    opened := true
    munmapped := true
    base := 0x7f0000000000
    pageProt := 0
    flags := 0
    kernel := grantingCalls }

/-- A half word, with more digits than it holds. -/
def writeHalf : RegisterCall :=
  callOf .regRw ["reg_rw", "/dev/xpcie_user", "0x10", "H", "0x12345"]

def writeByte : RegisterCall :=
  callOf .testReg ["test", "/dev/xpcie_user", "18", "b", "7"]

/-- The address of the half word, in octal. -/
def readHalf : RegisterCall :=
  callOf .testReg ["test", "/dev/xpcie_user", " 020", "h"]

theorem callOf_valid (program : RegisterProgram) (arguments : List String) :
    (callOf program arguments).Valid where
  aligned := show (0x7f0000000000 : U64).toNat % 4096 = 0 by decide
  room := by
    change (0x7f0000000000 : U64).toNat + program.mapSize.toNat < 2 ^ 64
    cases program with
    | regRw => decide
    | testReg => decide

theorem RegisterCall.fits_of {call : RegisterCall} {access : AccessCase}
    (found : accessCase (accessWidth call.argv) = some access)
    (inside : access.Inside call.program.mapSize (targetOf call.argv)) :
    call.Fits := by
  intro other same
  rw [found] at same
  cases same
  exact inside

theorem writeHalf_fits : writeHalf.Fits :=
  RegisterCall.fits_of rfl (by decide)

theorem writeByte_fits : writeByte.Fits :=
  RegisterCall.fits_of rfl (by decide)

theorem readHalf_fits : readHalf.Fits :=
  RegisterCall.fits_of rfl (by decide)

theorem maps_largeBar (program : RegisterProgram) (arguments : List String) :
    (callOf program arguments).Maps largeBar := by
  refine ⟨?_, rfl⟩
  change program.mapSize.toNat ≤ barSpan largeBar 0
  cases program with
  | regRw => decide
  | testReg => decide

theorem regSession_refines_memory :
    SessionRefines largeBar .big memoryDevice id (fun _ => 0)
      [writeHalf, writeByte, readHalf] :=
  regSession_refines memoryDevice_isMemory largeBar_userBar
    (by
      simp only [List.forall_mem_cons]
      exact ⟨callOf_valid _ _, callOf_valid _ _, callOf_valid _ _, nofun⟩)
    (by
      simp only [List.forall_mem_cons]
      exact ⟨writeHalf_fits, writeByte_fits, readHalf_fits, nofun⟩)
    .big _

theorem writes_apart : ∀ other ∈
    [writeByte].filterMap (RegisterCall.stored largeBar),
    Write.Apart (Write.mk 0xf0000010 [0x45, 0x23]) other := by
  intro other member address first second
  obtain ⟨call, inside, stores⟩ := List.mem_filterMap.mp member
  have byte : writeByte.stored largeBar = some (Write.mk 0xf0000012 [7]) := rfl
  rw [List.mem_singleton.mp inside, byte] at stores
  cases stores
  simp only [Write.Covers, BitVec.toNat_sub, List.length_cons,
    List.length_nil, BitVec.reduceToNat] at first second
  omega

/-- The half word that was written, without its fifth digit. -/
theorem regSession_readback_memory :
    (shownValue (readHalf.run largeBar .big memoryDevice
      (runSession largeBar .big memoryDevice (fun _ => 0)
        ([] ++ writeHalf :: [writeByte]))).stdout).toNat =
      (writevalOf writeHalf.argv).toNat % 2 ^ (8 * 2) := by
  have inside : ∀ call ∈ [] ++ [writeHalf, writeByte],
      call.Valid ∧ call.Fits := by
    rw [List.nil_append]
    simp only [List.forall_mem_cons]
    exact ⟨⟨callOf_valid _ _, writeHalf_fits⟩,
      ⟨callOf_valid _ _, writeByte_fits⟩, nofun⟩
  have stores : writeHalf.stored largeBar =
      some (Write.mk 0xf0000010 [0x45, 0x23]) := rfl
  have half : accessCase (accessWidth readHalf.argv) = accessCase 'h' := rfl
  exact regSession_readback memoryDevice_isMemory largeBar_userBar
    (fun call member => (inside call member).1)
    (fun call member => (inside call member).2)
    (callOf_valid _ _) readHalf_fits stores
    ⟨by decide, by decide, rfl, maps_largeBar _ _⟩
    (by decide) (by decide) writes_apart half .big _

end Xpcie
