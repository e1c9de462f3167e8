import Xpcie.DeviceStore

/-!
# The self test of the engine

`test_h2c` sends a pattern to the start of the card, with a descriptor of its
own making and without the machinery of a write.  The call of it in
`xpcie_probe` is commented out.
-/

namespace Xpcie

open EffectLog BoundedArray ByteStore

/-- A grant of `pci_alloc_consistent` that is used as bytes. -/
structure CoherentBytes where
  bus : U64
  content : Nat → U8

/-- The answers to `test_h2c`: the two coherent allocations, the descriptor's
with its bus address, and the status register after the start, the wait and
the stop. -/
structure SelfTestCalls where
  desc : Option U64
  data : Option CoherentBytes
  status : Nat → U32

/-- What the test has put into its memory when it starts the engine. -/
structure SelfTestMemory where
  descBus : U64
  descVirt : XdmaDesc
  dataBus : U64
  dataVirt : List U8

/-- `data_size` -/
def selfTestSize : Nat := 128

def XdmaDesc.zero : XdmaDesc :=
  { control := 0
    bytes := 0
    srcAddrLo := 0
    srcAddrHi := 0
    dstAddrLo := 0
    dstAddrHi := 0
    nextLo := 0
    nextHi := 0 }

/-- The loop that sets `data_virt[i] = i`. -/
def selfTestFill (dataVirt : List U8) : Exec (List U8) :=
  Run.demand (modifyRange (fun i _ => BitVec.ofNat 8 i) 0 selfTestSize
    dataVirt) .outOfBounds

/-- The descriptor; its `bytes` are not converted. -/
def selfTestDesc (host : Endian) (dataBus : U64) (desc : XdmaDesc) :
    XdmaDesc :=
  let epAddr : U64 := 0
  let tempControl := descMagic ||| 0x13
  { desc with
    bytes := BitVec.ofNat 32 selfTestSize
    control := cpuToLe32 host tempControl
    dstAddrLo := cpuToLe32 host (pciDmaL epAddr)
    dstAddrHi := cpuToLe32 host (pciDmaH epAddr)
    nextHi := 0
    nextLo := 0
    srcAddrLo := cpuToLe32 host (pciDmaL dataBus)
    srcAddrHi := cpuToLe32 host (pciDmaH dataBus) }

/-- `test_h2c` once it has filled its memory, up to `engine_stop`. -/
def selfTestTransfer (host : Endian) (descBus : U64)
    (status : Nat → U32) : Exec Unit := do
  writeRegister (cpuToLe32 host (pciDmaL descBus)) .firstDescLo
  writeRegister (cpuToLe32 host (pciDmaH descBus)) .firstDescHi
  writeRegister (cpuToLe32 host 0) .firstDescAdjacent
  engineStart (status 0)
  Run.emit (.mdelay 1000)
  let _value ← readRegister .status (status 1)
  engineStop (status 2)

/-- Returns what it has put into its memory besides. -/
def testH2c (host : Endian) (calls : SelfTestCalls) :
    Exec (Int × Option SelfTestMemory) := do
  match calls.desc with
  | none => pure (0, none)
  | some descBus => do
      acquire (.coherent xdmaDescSize descBus)
      -- memset
      let descVirt := XdmaDesc.zero
      let filled ← match calls.data with
        | none => pure none
        | some data => do
            acquire (.coherent selfTestSize data.bus)
            let dataVirt ← selfTestFill
              ((List.range selfTestSize).map data.content)
            let descVirt := selfTestDesc host data.bus descVirt
            selfTestTransfer host descBus calls.status
            release (.coherent selfTestSize data.bus)
            pure (some { descBus, descVirt, dataBus := data.bus, dataVirt })
      release (.coherent xdmaDescSize descBus)
      pure (0, filled)

/-! ## What the card makes of it -/

/-- The bus shows the device what the test has put into its memory. -/
structure SelfTestMemory.VisibleIn (filled : SelfTestMemory)
    (memory : HostMemory) : Prop where
  desc : memory.coherent filled.descBus = some filled.descVirt
  data : ∀ (k : Nat) (byte : U8), filled.dataVirt[k]? = some byte →
    memory.read (filled.dataBus + BitVec.ofNat 64 k) = byte

/-- The engine finds the descriptor and the data as the test has left
them. -/
def SelfTestCalls.Placed (calls : SelfTestCalls) (host : Endian)
    (memory : HostMemory) : Prop :=
  ∀ (rc : Int) (filled : SelfTestMemory),
    (testH2c host calls).result = .ok (rc, some filled) →
      filled.VisibleIn memory

/-- The bytes 0, 1, 2 and so on. -/
def selfTestData : List U8 :=
  (List.range selfTestSize).map (BitVec.ofNat 8)

/-- Both allocations succeed. -/
def SelfTestCalls.granted (calls : SelfTestCalls) : Bool :=
  calls.desc.isSome && calls.data.isSome

def selfTestWrite : Write 64 U8 :=
  { base := 0
    values := selfTestData }

/-- The register accesses of a test that has its memory. -/
def selfTestAccesses (host : Endian) (descBus : U64)
    (status : Nat → U32) : List Access :=
  [.write .firstDescLo (cpuToLe32 host (pciDmaL descBus)),
    .write .firstDescHi (cpuToLe32 host (pciDmaH descBus)),
    .write .firstDescAdjacent (cpuToLe32 host 0),
    .write .control engineControlWord,
    .read .status (status 0),
    .read .status (status 1),
    .write .control 0,
    .read .status (status 2)]

theorem selfTestDesc_copies (dataBus : U64) (desc : XdmaDesc) :
    (selfTestDesc .little dataBus desc).copies .little =
      (AddressSpan.span dataBus selfTestSize).zip
        (AddressSpan.span 0 selfTestSize) := by
  have word : ∀ value : U32, deviceWord .little value = value := by
    intro value
    rw [deviceWord_eq_le32ToCpu]
    rfl
  have source :
      (selfTestDesc .little dataBus desc).source .little = dataBus := by
    rw [XdmaDesc.source, word, word]
    exact joinAddr_pciDma dataBus
  have destination :
      (selfTestDesc .little dataBus desc).destination .little = 0 := by
    rw [XdmaDesc.destination, word, word]
    exact joinAddr_pciDma 0
  have size :
      (selfTestDesc .little dataBus desc).size .little = selfTestSize := by
    rw [XdmaDesc.size, word]
    rfl
  rw [XdmaDesc.copies, source, destination, size]

section Visible

variable {memory : HostMemory} {descBus dataBus : U64} {desc : XdmaDesc}

/-- The engine stops at the first descriptor. -/
theorem selfTestDesc_followed
    (found : memory.coherent descBus =
      some (selfTestDesc .little dataBus desc)) :
    followChain .little memory.coherent chainLimit descBus =
      some ((selfTestDesc .little dataBus desc).copies .little) := by
  have stopped :
      (selfTestDesc .little dataBus desc).isStopped .little := by
    change deviceWord .little (descMagic ||| 0x13) &&& xdmaDescStopped ≠ 0
    decide
  have more : ∃ fuel, chainLimit = fuel + 1 := ⟨2 ^ 64 / xdmaDescSize - 1, rfl⟩
  obtain ⟨fuel, limit⟩ := more
  rw [limit, followChain, found, Option.bind_eq_bind, Option.bind_some,
    if_pos stopped]

theorem selfTestData_length : selfTestData.length = selfTestSize := by
  rw [selfTestData, List.length_map, List.length_range]

theorem selfTestData_getElem? {k : Nat} (inside : k < selfTestSize) :
    selfTestData[k]? = some (BitVec.ofNat 8 k) := by
  rw [selfTestData, List.getElem?_map, List.getElem?_range inside,
    Option.map_some]

theorem selfTest_stores
    (data : ∀ (k : Nat) (byte : U8), selfTestData[k]? = some byte →
      memory.read (dataBus + BitVec.ofNat 64 k) = byte) :
    ((selfTestDesc .little dataBus desc).copies .little).map
        (fun copy => (copy.2, memory.read copy.1)) =
      selfTestWrite.stores := by
  have bytes : (AddressSpan.span dataBus selfTestSize).map memory.read =
      selfTestData := by
    rw [AddressSpan.span, List.map_map, selfTestData]
    apply List.map_congr_left
    intro k member
    exact data k _ (selfTestData_getElem? (List.mem_range.mp member))
  have length : selfTestWrite.values.length = selfTestSize :=
    selfTestData_length
  rw [selfTestDesc_copies, Write.stores, length, ← List.zip_swap,
    List.map_map, selfTestWrite, ← bytes, List.zip_map_right]
  rfl

theorem selfTest_run
    (found : memory.coherent descBus =
      some (selfTestDesc .little dataBus desc))
    (data : ∀ (k : Nat) (byte : U8), selfTestData[k]? = some byte →
      memory.read (dataBus + BitVec.ofNat 64 k) = byte)
    (status : Nat → U32) (device : Device) :
    device.run .little memory (selfTestAccesses .little descBus status) =
      some
        { registers := (selfTestAccesses .little descBus status).foldl
            RegisterFile.apply device.registers
          memory := selfTestWrite.apply device.memory } := by
  have before : ∀ access ∈ (selfTestAccesses .little descBus status).take 3,
      ¬access.starts := by
    intro access member
    simp only [selfTestAccesses, List.take_succ_cons, List.take_zero,
      List.mem_cons, List.not_mem_nil, or_false] at member
    rcases member with rfl | rfl | rfl <;> exact Bool.false_ne_true
  have after : ∀ access ∈ (selfTestAccesses .little descBus status).drop 4,
      ¬access.starts := by
    intro access member
    simp only [selfTestAccesses, List.drop_succ_cons, List.drop_zero,
      List.mem_cons, List.not_mem_nil, or_false] at member
    rcases member with rfl | rfl | rfl | rfl <;> exact Bool.false_ne_true
  have starts : (Access.write .control engineControlWord).starts := by decide
  have names : ((((selfTestAccesses .little descBus status).take 3).foldl
      RegisterFile.apply device.registers).apply
        (.write .control engineControlWord)).firstDesc = descBus :=
    joinAddr_pciDma descBus
  have ran := Device.run_once .little memory device before starts after
    (names ▸ selfTestDesc_followed found)
  rw [selfTest_stores data] at ran
  exact ran

end Visible

/-! ## Every path -/

/-- Whatever the memory contained, the loop leaves the pattern. -/
theorem selfTestFill_eq (content : Nat → U8) :
    selfTestFill ((List.range selfTestSize).map content) =
      ⟨.ok selfTestData, []⟩ := by
  have length : ((List.range selfTestSize).map content).length =
      selfTestSize := by
    rw [List.length_map, List.length_range]
  generalize (List.range selfTestSize).map content = dataVirt at *
  have fits : 0 + selfTestSize ≤ dataVirt.length := by omega
  rw [selfTestFill, modifyRange_eq _ fits, Run.demand_some]
  congr 2
  apply List.ext_getElem?
  intro k
  by_cases inside : k < selfTestSize
  · rw [overRange_value_getElem? _ length.ge inside,
      selfTestData_getElem? inside]
  · rw [List.getElem?_eq_none (by rw [overRange_length]; omega),
      List.getElem?_eq_none (by rw [selfTestData_length]; omega)]

/-- With both allocations, the test fills its memory, starts the engine and
gives the memory back. -/
theorem testH2c_granted (host : Endian) (descBus : U64)
    (data : CoherentBytes) (status : Nat → U32) :
    testH2c host ⟨some descBus, some data, status⟩ =
      ⟨.ok (0, some
          { descBus
            descVirt := selfTestDesc host data.bus XdmaDesc.zero
            dataBus := data.bus
            dataVirt := selfTestData }),
        [.acquire (.coherent xdmaDescSize descBus),
          .acquire (.coherent selfTestSize data.bus)] ++
            (selfTestTransfer host descBus status).log ++
          [.release (.coherent selfTestSize data.bus),
            .release (.coherent xdmaDescSize descBus)]⟩ := by
  have transferred : selfTestTransfer host descBus status =
      ⟨.ok (), (selfTestTransfer host descBus status).log⟩ := rfl
  generalize (selfTestTransfer host descBus status).log = log at *
  simp [testH2c, selfTestFill_eq, transferred]

/-- What the test does, whatever is granted: it gives back what it took, and
with all its memory it stores the pattern, with one launch. -/
structure SelfTestPasses (calls : SelfTestCalls) (memory : HostMemory)
    (device : Device) : Prop where
  returns : ∃ filled, (testH2c .little calls).result = .ok (0, filled)
  balanced : ∀ resource,
    outstanding (testH2c .little calls).log resource = 0
  launches : (launches device.registers
      (accesses (testH2c .little calls).log)).map RegisterFile.firstDesc =
    if calls.granted then calls.desc.toList else []
  stores : (device.run .little memory
      (accesses (testH2c .little calls).log)).map Device.memory =
    some (replay device.memory
      (if calls.granted then [selfTestWrite] else []))

theorem testH2c_passes {calls : SelfTestCalls} {memory : HostMemory}
    (placed : calls.Placed .little memory) (device : Device) :
    SelfTestPasses calls memory device := by
  obtain ⟨desc, data, status⟩ := calls
  cases desc with
  | none => exact ⟨⟨none, rfl⟩, fun _ => rfl, rfl, rfl⟩
  | some descBus =>
      have descriptor := Event.change_cancels (.coherent xdmaDescSize descBus)
      cases data with
      | none =>
          refine ⟨⟨none, rfl⟩, ?_, rfl, rfl⟩
          intro resource
          have log : (testH2c .little ⟨some descBus, none, status⟩).log =
              [.acquire (.coherent xdmaDescSize descBus),
                .release (.coherent xdmaDescSize descBus)] := rfl
          rw [log, outstanding_cons, outstanding_cons, outstanding_nil,
            Int.add_zero]
          exact descriptor resource
      | some data =>
          have pattern :=
            Event.change_cancels (.coherent selfTestSize data.bus)
          have granted := testH2c_granted .little descBus data status
          have quiet : ∀ resource, outstanding
              (selfTestTransfer .little descBus status).log resource = 0 :=
            fun _ => rfl
          have touched : accesses (testH2c .little
              ⟨some descBus, some data, status⟩).log =
            selfTestAccesses .little descBus status := by
            rw [granted]
            rfl
          have visible := placed 0 _ (congrArg Run.result granted)
          have found : memory.coherent descBus = some
              (selfTestDesc .little data.bus XdmaDesc.zero) := visible.desc
          refine ⟨⟨_, congrArg Run.result granted⟩, ?_, ?_, ?_⟩
          · intro resource
            have first := descriptor resource
            have second := pattern resource
            rw [granted, outstanding_append, outstanding_append, quiet]
            simp only [outstanding_cons, outstanding_nil]
            omega
          · rw [touched]
            exact congrArg (fun bus => [bus]) (joinAddr_pciDma descBus)
          · rw [touched, selfTest_run found visible.data,
              Option.map_some, if_pos (show SelfTestCalls.granted
                ⟨some descBus, some data, status⟩ from rfl),
              replay_cons, replay_nil]

/-! ## A machine without an IOMMU -/

/-- Page 1 has the descriptor, page 2 the pattern. -/
def twoPages : SelfTestCalls :=
  { desc := some 0x1000
    data := some { bus := 0x2000, content := fun _ => 0xff }
    status := fun _ => 0 }

def patternMemory : HostMemory :=
  { physical := fun byte => BitVec.ofNat 8 byte.2
    translate := directByte
    coherent := fun _ => some (selfTestDesc .little 0x2000 XdmaDesc.zero) }

theorem patternMemory_read {k : Nat} (inside : k < selfTestSize) :
    patternMemory.read (0x2000 + BitVec.ofNat 64 k) = BitVec.ofNat 8 k := by
  have bounded : k < 128 := inside
  have address : (0x2000 + BitVec.ofNat 64 k).toNat = 0x2000 + k := by
    rw [BitVec.toNat_add, BitVec.toNat_ofNat]
    change (0x2000 + k % 2 ^ 64) % 2 ^ 64 = 0x2000 + k
    omega
  have offset : (0x2000 + k) % 4096 = k := by omega
  change BitVec.ofNat 8 ((0x2000 + BitVec.ofNat 64 k).toNat % 4096) = _
  rw [address, offset]

theorem testH2c_passes_twoPages :
    SelfTestPasses twoPages patternMemory blankDevice := by
  refine testH2c_passes ?_ blankDevice
  intro rc filled returned
  rw [twoPages, testH2c_granted] at returned
  cases returned
  refine ⟨rfl, ?_⟩
  intro k byte found
  have inside : k < selfTestSize :=
    selfTestData_length ▸ (List.getElem?_eq_some_iff.mp found).1
  rw [selfTestData_getElem? inside] at found
  cases found
  exact patternMemory_read inside

end Xpcie
