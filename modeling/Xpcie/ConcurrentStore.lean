import Xpcie.DeviceStore
import Xpcie.EngineSharing

/-!
# Concurrent writes to the store

Calls perform their register accesses in any order on one card.  If every
call makes its first register write while no other one holds the engine, the
card ends up as if the calls had run one after another, in the order in which
they set the engine running.
-/

namespace Xpcie

open Runs ByteStore

/-- The card, if all chains so far had an end, and how far each call has
come. -/
abbrev StoreState (ι : Type) := Interleaving.State ι (Option Device)

section Concurrent

variable {ι : Type} (host : Endian) (memory : HostMemory)
  (writes : ι → UserWrite)

def cardAccess (device : Option Device) (access : Access) : Option Device :=
  device.bind fun device => device.access host memory access

/-- Call `i` performs its next register access on the card. -/
def storeStep [DecidableEq ι] (state : StoreState ι) (i : ι) :
    StoreState ι :=
  Interleaving.step (cardAccess host memory)
    (fun i => (writes i).call.program host) state i

/-- Before any call has made an access. -/
def storeIdle (device : Device) : StoreState ι :=
  { shared := some device
    position := fun _ => 0 }

/-- The calls that set the engine running, in order. -/
def launchOrder [DecidableEq ι] (state : StoreState ι) (schedule : List ι) :
    List ι :=
  (Interleaving.trace (cardAccess host memory)
    (fun i => (writes i).call.program host) state schedule).filterMap
      fun taken => if taken.2.starts then some taken.1 else none

/-- What the engine's registers and the calls' positions are in the store. -/
def StoreState.Shows (state : StoreState ι) (device : Device)
    (engine : EngineState ι) : Prop :=
  state.shared = some device ∧ engine.shared = device.registers ∧
    engine.position = state.position

end Concurrent

/-! ## One step -/

theorem RegisterFile.Name.firstDesc {registers : RegisterFile}
    {transfer : XdmaTransfer} (names : registers.Name .little transfer) :
    registers.firstDesc = transfer.descBus := by
  rw [RegisterFile.firstDesc, names.firstDescHi, names.firstDescLo]
  exact joinAddr_pciDma transfer.descBus

/-- Setting the engine running leaves the address of the chain alone. -/
theorem RegisterFile.firstDesc_starts {access : Access}
    (starts : access.starts) (registers : RegisterFile) :
    (registers.apply access).firstDesc = registers.firstDesc := by
  cases access with
  | read register value => cases starts
  | write register value =>
      cases register with
      | control => rfl
      | _ => cases starts

theorem Access.isWrite_of_starts {access : Access} (starts : access.starts) :
    access.IsWrite := by
  cases access with
  | read register value => cases starts
  | write register value => trivial

section Step

variable {ι : Type} [DecidableEq ι] {memory : HostMemory}
  {writes : ι → UserWrite}

theorem launchOrder_singleton (host : Endian) (state : StoreState ι) (i : ι) :
    launchOrder host memory writes state [i] =
      match ((writes i).call.program host)[state.position i]? with
      | some access => if access.starts then [i] else []
      | none => [] := by
  rw [launchOrder, Interleaving.trace, Interleaving.trace, List.append_nil]
  cases ((writes i).call.program host)[state.position i]? with
  | none => rfl
  | some access =>
      by_cases starts : access.starts
      · simp [starts]
      · simp [starts]

omit [DecidableEq ι] in
/-- An access of a call that other calls leave alone. -/
theorem cardAccess_undisturbed
    (served : ∀ i, (writes i).Served .little memory)
    {device : Device} {engine : EngineState ι} {i : ι} {access : Access}
    (registers : engine.shared = device.registers)
    (next : ((writes i).call.program .little)[engine.position i]? =
      some access)
    (undisturbed : Undisturbed .little (fun i => (writes i).call) engine i) :
    cardAccess .little memory (some device) access =
      some
        { registers := device.registers.apply access
          memory := replay device.memory
            ((if access.starts then [i] else []).map fun i =>
              (writes i).stored memory) } := by
  by_cases starts : access.starts
  · rcases (served i).admitted.program_cases .little with
      ⟨_, _, none⟩ | ⟨succeed, transfer, running, _⟩
    · rw [none] at next
      cases next
    · have names := (undisturbed access next
        (Access.isWrite_of_starts starts)).2 starts transfer running
      rw [registers] at names
      have launched := (served i).access_starts succeed running device starts
        ((RegisterFile.firstDesc_starts starts _).trans names.firstDesc)
      rw [if_pos starts]
      exact launched
  · rw [if_neg starts]
    exact Device.access_silent .little memory device starts

/-- An undisturbed access moves the card as it moves the registers, and
stores the buffer of a call it launches. -/
theorem storeStep_shows (served : ∀ i, (writes i).Served .little memory)
    {state : StoreState ι} {device : Device} {engine : EngineState ι} {i : ι}
    (shows : state.Shows device engine)
    (undisturbed : Undisturbed .little (fun i => (writes i).call) engine i) :
    ∃ registers, (storeStep .little memory writes state i).Shows
      { registers
        memory := replay device.memory ((launchOrder .little memory writes
          state [i]).map fun i => (writes i).stored memory) }
      (engineStep .little (fun i => (writes i).call) engine i) := by
  obtain ⟨card, registers, positions⟩ := shows
  rw [launchOrder_singleton, ← positions, storeStep, engineStep,
    Interleaving.step, Interleaving.step, ← positions]
  cases next : ((writes i).call.program .little)[engine.position i]? with
  | none => exact ⟨device.registers, card, registers, positions⟩
  | some access =>
      refine ⟨device.registers.apply access, ?_, ?_, rfl⟩
      · rw [card]
        exact cardAccess_undisturbed served registers next undisturbed
      · exact congrArg (RegisterFile.apply · access) registers

end Step

/-! ## Launches -/

/-- The calls of a list of accesses that set the engine running. -/
theorem count_launches {ι : Type} [DecidableEq ι] (taken : List (ι × Access))
    (i : ι) :
    (taken.filterMap fun taken =>
        if taken.2.starts then some taken.1 else none).count i =
      ((taken.filter fun taken => taken.1 = i).map Prod.snd).countP
        Access.starts := by
  induction taken with
  | nil => rfl
  | cons first later induction =>
      obtain ⟨j, access⟩ := first
      by_cases starts : access.starts
      · by_cases same : j = i
        · simp [starts, same, induction]
        · simp [starts, same, induction]
      · by_cases same : j = i
        · simp [starts, same, induction]
        · simp [starts, same, induction]

/-- A transfer sets the engine running once. -/
theorem countP_starts_transferAccesses (host : Endian)
    (transfer : XdmaTransfer) (status : Nat → U32) (position : Nat) :
    ((transferAccesses host transfer status).take position).countP
      Access.starts ≤ 1 := by
  have whole : (transferAccesses host transfer status).countP
      Access.starts = 1 := rfl
  rw [← whole]
  exact (List.take_sublist position _).countP_le

section Launches

variable {ι : Type} [DecidableEq ι] (host : Endian) (memory : HostMemory)
  (writes : ι → UserWrite)

/-- The accesses that call `i` has performed include the one with which it
sets the engine running. -/
def Launched (state : StoreState ι) (i : ι) : Prop :=
  ∃ access ∈ ((writes i).call.program host).take (state.position i),
    access.starts

theorem launchOrder_append (state : StoreState ι) (earlier later : List ι) :
    launchOrder host memory writes state (earlier ++ later) =
      launchOrder host memory writes state earlier ++
        launchOrder host memory writes
          (earlier.foldl (storeStep host memory writes) state) later := by
  induction earlier generalizing state with
  | nil => rfl
  | cons i earlier induction =>
      have first : ∀ schedule,
          launchOrder host memory writes state (i :: schedule) =
            launchOrder host memory writes state [i] ++
              launchOrder host memory writes
                (storeStep host memory writes state i) schedule := by
        intro schedule
        simp only [launchOrder, Interleaving.trace, List.append_nil,
          List.filterMap_append]
        rfl
      rw [List.cons_append, first, induction, first earlier,
        List.append_assoc, List.foldl_cons]

theorem count_launchOrder (device : Device) (schedule : List ι) (i : ι) :
    (launchOrder host memory writes (storeIdle device) schedule).count i =
      (((writes i).call.program host).take ((schedule.foldl
        (storeStep host memory writes) (storeIdle device)).position i)).countP
          Access.starts := by
  have own := Interleaving.trace_own (cardAccess host memory)
    (fun i => (writes i).call.program host) (storeIdle device) schedule i
  rw [show (storeIdle device : StoreState ι).position i = 0 from rfl,
    List.take_zero, List.nil_append] at own
  rw [launchOrder, count_launches, own]
  rfl

theorem mem_launchOrder (device : Device) (schedule : List ι) (i : ι) :
    i ∈ launchOrder host memory writes (storeIdle device) schedule ↔
      Launched host writes
        (schedule.foldl (storeStep host memory writes) (storeIdle device))
        i := by
  rw [← List.count_pos_iff, count_launchOrder, List.countP_pos_iff]
  rfl

variable {host memory writes}

theorem launchOrder_nodup (admitted : ∀ i, (writes i).call.Admitted)
    (device : Device) (schedule : List ι) :
    (launchOrder host memory writes (storeIdle device) schedule).Nodup := by
  rw [List.nodup_iff_count_le_one]
  intro i
  rw [count_launchOrder]
  rcases (admitted i).program_cases host with
    ⟨_, _, none⟩ | ⟨_, transfer, _, program⟩
  · rw [none, List.take_nil]
    exact Nat.zero_le 1
  · rw [program]
    exact countP_starts_transferAccesses host transfer _ _

omit [DecidableEq ι] in
/-- A call that launches has had all its kernel calls granted. -/
theorem Launched.succeed {state : StoreState ι} {i : ι}
    (launched : Launched host writes state i)
    (admitted : (writes i).call.Admitted) :
    (writes i).call.kernel.Succeed (writes i).call.buf
      (writes i).call.count := by
  rcases admitted.program_cases host with ⟨_, _, none⟩ | ⟨succeed, _⟩
  · obtain ⟨access, member, _⟩ := launched
    rw [none, List.take_nil] at member
    cases member
  · exact succeed

/-- A call that has launched precedes one that launches later. -/
theorem launchOrder_sublist {device : Device} {earlier later : List ι}
    {i j : ι}
    (before : Launched host writes
      (earlier.foldl (storeStep host memory writes) (storeIdle device)) i)
    (notYet : ¬Launched host writes
      (earlier.foldl (storeStep host memory writes) (storeIdle device)) j)
    (member : j ∈ launchOrder host memory writes (storeIdle device)
      (earlier ++ later)) :
    List.Sublist [i, j] (launchOrder host memory writes (storeIdle device)
      (earlier ++ later)) := by
  rw [← mem_launchOrder] at before notYet
  rw [launchOrder_append] at member ⊢
  have second := (List.mem_append.mp member).resolve_left notYet
  exact List.Sublist.append (List.singleton_sublist.mpr before)
    (List.singleton_sublist.mpr second)

end Launches

/-! ## Runs -/

section Run

variable {ι : Type} [DecidableEq ι] {memory : HostMemory}
  {writes : ι → UserWrite}

theorem storeRun_shows (served : ∀ i, (writes i).Served .little memory)
    {state : StoreState ι} {device : Device} {engine : EngineState ι}
    {schedule : List ι} (shows : state.Shows device engine)
    (undisturbed : Along (engineStep .little fun i => (writes i).call)
      (Undisturbed .little fun i => (writes i).call) engine schedule) :
    ∃ registers,
      (schedule.foldl (storeStep .little memory writes) state).shared =
        some
          { registers
            memory := replay device.memory ((launchOrder .little memory writes
              state schedule).map fun i => (writes i).stored memory) } := by
  induction schedule generalizing state device engine with
  | nil => exact ⟨device.registers, shows.1⟩
  | cons i schedule induction =>
      obtain ⟨first, rest⟩ := undisturbed
      obtain ⟨between, moved⟩ := storeStep_shows served shows first
      obtain ⟨registers, final⟩ := induction moved rest
      have order := launchOrder_append .little memory writes state [i]
        schedule
      rw [List.singleton_append] at order
      refine ⟨registers, ?_⟩
      rw [List.foldl_cons, final, order, List.map_append, replay_append]
      rfl

/-- Calls that begin alone are never disturbed. -/
theorem along_undisturbed (host : Endian) {calls : ι → WriteCall}
    (admitted : ∀ i, (calls i).Admitted) (registers : RegisterFile)
    {schedule : List ι}
    (begins : Along (engineStep host calls) (BeginsAlone host calls)
      (engineIdle registers) schedule) :
    Along (engineStep host calls) (Undisturbed host calls)
      (engineIdle registers) schedule := by
  have nobody : ∀ i, ¬(engineProtocol host admitted).Inside
      (engineIdle registers) i := by
    rintro i ⟨⟨access, member, _⟩, _⟩
    cases member
  have separated : (engineProtocol host admitted).Separated
      (engineIdle registers) :=
    { alone := fun i inside => absurd inside (nobody i)
      owned := fun i inside => absurd inside (nobody i) }
  have acts := (Interleaving.Protocol.along_actsAlone_iff separated
    schedule).mpr (begins.mono fun state i begins =>
      begins.entersAlone host admitted)
  exact acts.mono fun state i acts =>
    undisturbed_of_actsAlone host admitted acts

/-- The calls' accesses, interleaved by `schedule`, leave on the card what the
calls of `order` leave one after another.  The order has each call that
launched, once, and a call that has launched before those that have not. -/
structure Linearizes (memory : HostMemory) (writes : ι → UserWrite)
    (device : Device) (schedule order : List ι) : Prop where
  stores : ∃ final sequential,
    (schedule.foldl (storeStep .little memory writes)
      (storeIdle device)).shared = some final ∧
    runWrites .little device (order.map fun i => (memory, writes i)) =
      some sequential ∧
    final.memory = sequential.memory
  once : order.Nodup
  complete : ∀ i, i ∈ order ↔ Launched .little writes
    (schedule.foldl (storeStep .little memory writes) (storeIdle device)) i
  inOrder : ∀ earlier later i j, schedule = earlier ++ later →
    Launched .little writes
      (earlier.foldl (storeStep .little memory writes) (storeIdle device)) i →
    ¬Launched .little writes
      (earlier.foldl (storeStep .little memory writes) (storeIdle device)) j →
    j ∈ order → List.Sublist [i, j] order

/-- If each call makes its first register write while no other one holds the
engine, the order of the launches is one in which the calls might have run
one after another. -/
theorem interleavedWrites_linearize
    (served : ∀ i, (writes i).Served .little memory) (device : Device)
    {schedule : List ι}
    (begins : Along (engineStep .little fun i => (writes i).call)
      (BeginsAlone .little fun i => (writes i).call)
      (engineIdle device.registers) schedule) :
    Linearizes memory writes device schedule
      (launchOrder .little memory writes (storeIdle device) schedule) := by
  have admitted : ∀ i, (writes i).call.Admitted := fun i => (served i).admitted
  have undisturbed := along_undisturbed .little admitted device.registers
    begins
  have start : (storeIdle device : StoreState ι).Shows device
      (engineIdle device.registers) := ⟨rfl, rfl, rfl⟩
  have orderServed : ∀ moment ∈ (launchOrder .little memory writes
      (storeIdle device) schedule).map fun i => (memory, writes i),
      moment.2.Served .little moment.1 := by
    intro moment member
    obtain ⟨i, _, rfl⟩ := List.mem_map.mp member
    exact served i
  obtain ⟨_, run⟩ := storeRun_shows served start undisturbed
  obtain ⟨_, sequential⟩ := runWrites_eq orderServed device
  have accepted : acceptedWrites .little ((launchOrder .little memory writes
      (storeIdle device) schedule).map fun i => (memory, writes i)) =
        (launchOrder .little memory writes (storeIdle device)
          schedule).map fun i => (writes i).stored memory := by
    rw [acceptedWrites, List.filterMap_map, ← List.filterMap_eq_map]
    apply List.filterMap_congr
    intro i member
    have launched := (mem_launchOrder .little memory writes device schedule
      i).mp member
    exact UserWrite.accepted_of_succeed (admitted i)
      (launched.succeed (admitted i))
  rw [accepted] at sequential
  constructor
  · exact ⟨_, _, run, sequential, rfl⟩
  · exact launchOrder_nodup admitted device schedule
  · exact mem_launchOrder .little memory writes device schedule
  · intro earlier later i j parts before notYet member
    subst parts
    exact launchOrder_sublist before notYet member

end Run

/-! ## Two calls -/

section Two

variable {ι : Type} [DecidableEq ι] {host : Endian} {calls : ι → WriteCall}
  {state : EngineState ι} {i j : ι}

theorem engineStep_position_other (other : j ≠ i) (count : Nat) :
    ((List.replicate count i).foldl (engineStep host calls) state).position
        j = state.position j := by
  induction count generalizing state with
  | zero => rfl
  | succ count induction =>
      rw [List.replicate_succ, List.foldl_cons, induction]
      exact Interleaving.step_position_other other

theorem engineStep_position_self {count : Nat}
    (left : state.position i + count ≤ ((calls i).program host).length) :
    ((List.replicate count i).foldl (engineStep host calls) state).position
        i = state.position i + count := by
  induction count generalizing state with
  | zero => rfl
  | succ count induction =>
      have next := List.getElem?_eq_getElem
        (show state.position i < ((calls i).program host).length by omega)
      have moved : (engineStep host calls state i).position i =
          state.position i + 1 := Interleaving.step_position_self next
      rw [List.replicate_succ, List.foldl_cons,
        induction (by rw [moved]; omega), moved]
      omega

/-- A call goes on undisturbed as long as the others stay away. -/
theorem along_beginsAlone_replicate (away : OthersAway host calls state i)
    (count : Nat) :
    Along (engineStep host calls) (BeginsAlone host calls) state
      (List.replicate count i) := by
  induction count generalizing state with
  | zero => trivial
  | succ count induction =>
      refine ⟨fun _ _ _ _ => away, induction ?_⟩
      intro j other
      rw [show (engineStep host calls state i).position j =
        state.position j from Interleaving.step_position_other other]
      exact away j other

end Two

/-- Two processes write the same byte to neighbouring addresses, with
descriptors in different places. -/
def twoUserWrites (second : Bool) : UserWrite :=
  { call :=
      { kernel := (twoWriters second).kernel
        buf := 0x1000
        count := 1
        ppos := if second then 1 else 0 }
    pageOf := id }

def twoArrays (second : Bool) (addr : U64) : Option XdmaDesc := do
  let transfer ← (twoUserWrites second).call.transfer .little
  coherentRead transfer.descBus transfer.descVirt addr

/-- Both arrays lie in the one coherent memory. -/
def twoMemory : HostMemory :=
  { physical := countingMemory
    translate := directByte
    coherent := fun addr => (twoArrays false addr).or (twoArrays true addr) }

theorem twoUserWrites_admitted (second : Bool) :
    (twoUserWrites second).call.Admitted :=
  ⟨(twoWriters_admitted second).count, (twoWriters_admitted second).rc⟩

theorem twoUserWrites_succeed (second : Bool) :
    (twoUserWrites second).call.kernel.Succeed (twoUserWrites second).call.buf
      (twoUserWrites second).call.count := by
  have direct := directKernel_succeed 0x1000 2
    (show 0 < (1 : U64).toNat by decide)
  have succeed : (twoWriters second).kernel.Succeed 0x1000 1 :=
    { requested := direct.requested
      granted := direct.granted
      pinned := direct.pinned
      mapped := direct.mapped
      allocated := ⟨_, rfl⟩ }
  exact succeed

/-- Each array has one descriptor, and the two lie apart. -/
theorem twoUserWrites_transfer (second : Bool) :
    ∃ transfer, (twoUserWrites second).call.transfer .little = some transfer ∧
      transfer.descBus = (if second then 0x30000 else 0x20000) ∧
      transfer.descVirt.length = 1 := by
  obtain ⟨grant, allocated⟩ := (twoUserWrites_succeed second).allocated
  refine ⟨_, (twoUserWrites_admitted second).transfer_eq .little
    (twoUserWrites_succeed second) allocated, ?_, ?_⟩
  · cases allocated
    rfl
  · exact (setUpList_length ..).trans (by cases second <;> rfl)

theorem twoUserWrites_served (second : Bool) :
    (twoUserWrites second).Served .little twoMemory where
  admitted := twoUserWrites_admitted second
  placed _ :=
    { back := fun _ _ => rfl
      mapping :=
        { positive := by cases second <;> decide
          covers := by cases second <;> decide }
      descriptors := by
        intro transfer running i inside
        obtain ⟨_, same, bus, single⟩ := twoUserWrites_transfer second
        obtain ⟨first, firstRuns, firstBus, firstSingle⟩ :=
          twoUserWrites_transfer false
        rw [same] at running
        cases running
        obtain rfl : i = 0 := by omega
        have here := coherentRead_descAddr transfer.descBus
          (show xdmaDescSize * transfer.descVirt.length ≤ 2 ^ 64 by
            rw [single]; decide) inside
        have array : twoArrays second (descAddr transfer.descBus 0) =
            transfer.descVirt[0]? := by
          rw [twoArrays, same]
          exact here
        cases second with
        | false =>
            change (twoArrays false _).or _ = _
            rw [array, List.getElem?_eq_getElem inside]
            rfl
        | true =>
            have elsewhere : twoArrays false (descAddr transfer.descBus 0) =
                none := by
              rw [twoArrays, firstRuns]
              change coherentRead first.descBus first.descVirt _ = none
              rw [coherentRead, firstBus, bus]
              exact List.getElem?_eq_none (by rw [firstSingle]; decide)
            change (twoArrays false _).or _ = _
            rw [elsewhere, array]
            rfl }

/-- The second call reads the status before the first one begins, and goes
on after it has ended. -/
def nestedSchedule : List Bool :=
  List.replicate 1 true ++ (List.replicate 9 false ++ List.replicate 8 true)

theorem nestedSchedule_beginsAlone :
    Along (engineStep .little fun second => (twoUserWrites second).call)
      (BeginsAlone .little fun second => (twoUserWrites second).call)
      (engineIdle blankDevice.registers) nestedSchedule := by
  have program : ∀ second, ∃ transfer, (twoUserWrites second).call.program
      .little = transferAccesses .little transfer
        (twoUserWrites second).call.kernel.status := by
    intro second
    obtain ⟨transfer, running, _⟩ := twoUserWrites_transfer second
    exact ⟨transfer, program_of_transfer .little
      (twoUserWrites_admitted second) running⟩
  have away : ∀ (state : EngineState Bool) (i : Bool),
      state.position (!i) ≤ 1 ∨ 8 ≤ state.position (!i) →
      OthersAway .little (fun second => (twoUserWrites second).call)
        state i := by
    intro state i outside j other
    obtain ⟨transfer, same⟩ := program j
    have opposite : j = !i := by
      cases i <;> cases j <;> simp_all
    rw [opposite] at same ⊢
    rw [same, holdsEngine_transferAccesses]
    omega
  have length : ∀ second, ((twoUserWrites second).call.program
      .little).length = 9 := by
    intro second
    obtain ⟨transfer, same⟩ := program second
    rw [same]
    rfl
  let step := engineStep .little fun second => (twoUserWrites second).call
  let idle : EngineState Bool := engineIdle blankDevice.registers
  let reading := (List.replicate 1 true).foldl step idle
  have readingTrue : reading.position true = 1 :=
    engineStep_position_self (by rw [length]; decide)
  have readingFalse : reading.position false = 0 :=
    engineStep_position_other Bool.false_ne_true 1
  have between : ((List.replicate 9 false).foldl step reading).position
      false = 9 := by
    have moved : ((List.replicate 9 false).foldl step reading).position
        false = reading.position false + 9 :=
      engineStep_position_self (by rw [readingFalse, length])
    rw [moved, readingFalse]
  rw [nestedSchedule, along_append, along_append]
  refine ⟨along_beginsAlone_replicate (away _ _ (.inl ?_)) 1,
    along_beginsAlone_replicate (away _ _ (.inl ?_)) 9,
    along_beginsAlone_replicate (away _ _ (.inr ?_)) 8⟩
  · exact Nat.zero_le 1
  · exact Nat.le_of_eq readingTrue
  · exact Nat.le_of_lt (Nat.lt_of_lt_of_eq (by decide) between.symm)

theorem interleavedWrites_linearize_nested :
    Linearizes twoMemory twoUserWrites blankDevice nestedSchedule
      (launchOrder .little twoMemory twoUserWrites (storeIdle blankDevice)
        nestedSchedule) :=
  interleavedWrites_linearize twoUserWrites_served blankDevice
    nestedSchedule_beginsAlone

end Xpcie
