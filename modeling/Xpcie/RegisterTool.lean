import Xpcie.Library.CNumber
import Xpcie.Machine

/-!
# The register tool

`main` of `reg_rw.c` maps a device and reads or writes one register of it, as
its arguments say.  `testReg` of `test_xpcie.cpp` is the same function with a
smaller mapping, and as a function of a program it returns to a caller.
-/

namespace Xpcie

open CNumber

/-! ## The device behind the mapping -/

/-- A device on the bus: the bytes it answers a read with, in the order of
their addresses, and what an access makes of it. -/
structure BusDevice (State : Type) where
  read : State → U64 → Nat → List U8 × State
  write : State → U64 → List U8 → State
  read_length : ∀ state bus size, (read state bus size).1.length = size

/-- Where the device is in the process, and what is behind the first byte. -/
structure RegisterMapping where
  base : U64
  bus : U64
  deriving DecidableEq, Repr

/-- The bus address behind an access, if it is inside the mapping. -/
def RegisterMapping.resolve (mapping : RegisterMapping) (mapSize addr : U64)
    (size : Nat) : Option U64 :=
  if (addr - mapping.base).toNat + size ≤ mapSize.toNat then
    some (mapping.bus + (addr - mapping.base))
  else none

/-- The answers of the kernel to `open`, `mmap` and `munmap`. -/
structure ToolCalls where
  opened : Bool
  mmap : U64 → Option RegisterMapping
  munmapped : Bool

/-! ## Words of the host -/

/-- The bytes of an unsigned value in memory, from its least byte on. -/
def Endian.arrange (host : Endian) (bytes : List U8) : List U8 :=
  match host with
  | .little => bytes
  | .big => bytes.reverse

def hostBytes (host : Endian) (size : Nat) (value : U32) : List U8 :=
  host.arrange ((List.range size).map (byteOf value))

/-- A `uint8_t`, `uint16_t` or `uint32_t` in memory, as a `uint32_t`. -/
def hostWord (host : Endian) (bytes : List U8) : U32 :=
  let ordered := host.arrange bytes
  wordOf (ordered.getD 0 0) (ordered.getD 1 0) (ordered.getD 2 0)
    (ordered.getD 3 0)

/-- `__bswap_16`, of and to a `uint32_t`. -/
def bswap16 (value : U32) : U32 :=
  wordOf (byteOf value 1) (byteOf value 0) 0 0

/-- `ltohs` and `htols` -/
def ltohs (host : Endian) (value : U32) : U32 :=
  match host with
  | .little => value
  | .big => bswap16 value

/-- `ltohl` and `htoll` -/
def ltohl (host : Endian) (value : U32) : U32 :=
  match host with
  | .little => value
  | .big => swab32 value

/-- A case of the `switch` over `access_width`. -/
structure AccessCase where
  size : Nat
  /-- `ltoh` and `htol`; a byte is not converted. -/
  convert : Endian → U32 → U32
  readName : String
  writeName : String
  digits : Nat

def accessCase : Char → Option AccessCase
  | 'b' => some
      { size := 1
        convert := fun _ value => value
        readName := "8-bits"
        writeName := "8-bits"
        digits := 2 }
  | 'h' => some
      { size := 2
        convert := ltohs
        readName := "16-bit"
        writeName := "16-bits"
        digits := 4 }
  | 'w' => some
      { size := 4
        convert := ltohl
        readName := "32-bit"
        writeName := "32-bits"
        digits := 8 }
  | _ => none

/-! ## Arguments -/

def argument (argv : List (List Char)) (index : Nat) : List Char :=
  argv.getD index []

/-- `strtoul(argv[2], 0, 0)` -/
def targetOf (argv : List (List Char)) : U64 :=
  strtoul 64 (argument argv 2)

/-- `access_width` once it has been checked. -/
def accessWidth (argv : List (List Char)) : Char :=
  let given := if 4 ≤ argv.length then
      (argument argv 3).headD (Char.ofNat 0) |>.toLower
    else 'w'
  if given = 'b' ∨ given = 'h' ∨ given = 'w' then given else 'w'

/-- `strtoul(argv[4], 0, 0)`, kept in a `uint32_t`. -/
def writevalOf (argv : List (List Char)) : U32 :=
  (strtoul 64 (argument argv 4)).setWidth 32

/-! ## What is printed -/

/-- `%p` -/
def pointerText (addr : U64) : List Char :=
  if addr = 0 then "(nil)".toList else formatHex 1 addr.toNat

/-- `0x%08x` of `(unsigned int)target` -/
def targetText (argv : List (List Char)) : List Char :=
  formatHex 8 ((targetOf argv).setWidth 32).toNat

def usageText (argv : List (List Char)) : List Char :=
  "\nUsage:\t".toList ++ argument argv 0 ++
    " <device> <address> [[type] data]\n".toList ++
    "\tdevice  : character device to access\n".toList ++
    "\taddress : memory address to access\n".toList ++
    "\ttype    : access operation type : [b]yte, [h]alfword, [w]ord\n".toList ++
    "\tdata    : data to be written for a write\n\n".toList

def widthText (width : Char) : String :=
  if width = 'b' then "byte (8-bits)\n"
  else if width = 'h' then "half word (16-bits)\n"
  else "word (32-bits)\n"

/-- What is printed before the device is opened. -/
def argumentsText (argv : List (List Char)) : List Char :=
  "argc = ".toList ++ format 10 1 argv.length ++
    "\ndevice: ".toList ++ argument argv 1 ++
    "\naddress: ".toList ++ targetText argv ++
    "\naccess type: ".toList ++
    (if 4 ≤ argv.length then "write\n" else "read\n").toList ++
    (if 4 ≤ argv.length then "access width given.\n" else "").toList ++
    "access width: ".toList ++ (widthText (accessWidth argv)).toList

def openedText (argv : List (List Char)) : List Char :=
  "character device ".toList ++ argument argv 1 ++ " opened.\n".toList

def mappedText (mapping : RegisterMapping) : List Char :=
  "Memory mapped at address ".toList ++ pointerText mapping.base ++
    ".\n".toList

/-- The line of a read, up to the value. -/
def readLead (access : AccessCase) (argv : List (List Char))
    (virtAddr : U64) : List Char :=
  "Read ".toList ++ access.readName.toList ++ " value at address ".toList ++
    targetText argv ++ " (".toList ++ pointerText virtAddr

def readText (access : AccessCase) (argv : List (List Char)) (virtAddr : U64)
    (value : U32) : List Char :=
  readLead access argv virtAddr ++ "): ".toList ++
    formatHex access.digits value.toNat ++ "\n".toList

def writeText (access : AccessCase) (argv : List (List Char)) (virtAddr : U64)
    (value : U32) : List Char :=
  "Write ".toList ++ access.writeName.toList ++ " value ".toList ++
    formatHex access.digits value.toNat ++ " to ".toList ++ targetText argv ++
    " (0x".toList ++ pointerText virtAddr ++ ")\n".toList

/-! ## The function -/

inductive ToolError where
  | usage (text : List Char)
  /-- `FATAL`, which says where it was and what the error is. -/
  | fatal
  | illegal (width : Char)
  deriving DecidableEq, Repr

inductive ToolEnd where
  | returned (result : Int)
  | exited (status : Int) (error : ToolError)
  /-- Touched memory that is not the device's. -/
  | strayed
  deriving DecidableEq, Repr

structure ToolRun (State : Type) where
  device : State
  stdout : List Char
  ending : ToolEnd
  /-- Whether the descriptor and the mapping are left. -/
  fdOpen : Bool
  mapped : Bool

section Tool

variable {State : Type} (mapSize : U64) (host : Endian)
  (block : BusDevice State) (calls : ToolCalls)

/-- From the access to the end of the function. -/
def closeTool (device : State) (stdout : List Char) : ToolRun State :=
  if calls.munmapped then
    { device
      stdout
      ending := .returned 0
      fdOpen := false
      mapped := false }
  else
    { device
      stdout
      ending := .exited 1 .fatal
      fdOpen := true
      mapped := true }

/-- `argc <= 4` -/
def readCase (mapping : RegisterMapping) (argv : List (List Char))
    (device : State) (stdout : List Char) : ToolRun State :=
  let virtAddr := mapping.base + targetOf argv
  let stop (device : State) (stdout : List Char) (ending : ToolEnd) :=
    { device
      stdout
      ending
      fdOpen := true
      mapped := true }
  match accessCase (accessWidth argv) with
  | none => stop device stdout (.exited 2 (.illegal (accessWidth argv)))
  | some access =>
      match mapping.resolve mapSize virtAddr access.size with
      | none => stop device stdout .strayed
      | some bus =>
          let (bytes, device) := block.read device bus access.size
          let readResult := access.convert host (hostWord host bytes)
          let stdout := stdout ++ readText access argv virtAddr readResult
          -- a word is returned at once
          if accessWidth argv = 'w' then
            stop device stdout (.returned readResult.toInt)
          else closeTool calls device stdout

/-- `argc >= 5` -/
def writeCase (mapping : RegisterMapping) (argv : List (List Char))
    (device : State) (stdout : List Char) : ToolRun State :=
  let virtAddr := mapping.base + targetOf argv
  match accessCase (accessWidth argv) with
  | none => closeTool calls device stdout
  | some access =>
      let writeval := writevalOf argv
      let stdout := stdout ++ writeText access argv virtAddr writeval
      match mapping.resolve mapSize virtAddr access.size with
      | none =>
          { device
            stdout
            ending := .strayed
            fdOpen := true
            mapped := true }
      | some bus =>
          let bytes := hostBytes host access.size
            (access.convert host writeval)
          closeTool calls (block.write device bus bytes) stdout

/-- `main` and `testReg` -/
def regTool (argv : List (List Char)) (device : State) : ToolRun State :=
  let stop (stdout : List Char) (error : ToolError) (fdOpen : Bool) :=
    { device
      stdout
      ending := .exited 1 error
      fdOpen
      mapped := false }
  if argv.length < 3 then stop [] (.usage (usageText argv)) false
  else if ¬calls.opened then stop (argumentsText argv) .fatal false
  else
    match calls.mmap mapSize with
    | none => stop (argumentsText argv ++ openedText argv) .fatal true
    | some mapping =>
        let stdout := argumentsText argv ++ openedText argv ++
          mappedText mapping
        if argv.length ≤ 4 then
          readCase mapSize host block calls mapping argv device stdout
        else writeCase mapSize host block calls mapping argv device stdout

end Tool

/-- `MAP_SIZE` of `reg_rw.c`. -/
def regRwMapSize : U64 := 512 * 1024

/-- `MAP_SIZE` of `test_xpcie.cpp`. -/
def testRegMapSize : U64 := 64 * 1024

/-- `main` of `reg_rw.c`. -/
def regRw {State : Type} (host : Endian) (block : BusDevice State)
    (calls : ToolCalls) (argv : List (List Char)) (device : State) :
    ToolRun State :=
  regTool regRwMapSize host block calls argv device

def testReg {State : Type} (host : Endian) (block : BusDevice State)
    (calls : ToolCalls) (argv : List (List Char)) (device : State) :
    ToolRun State :=
  regTool testRegMapSize host block calls argv device

/-! ## What the switch does -/

theorem hostBytes_length (host : Endian) (size : Nat) (value : U32) :
    (hostBytes host size value).length = size := by
  cases host with
  | little => simp [hostBytes, Endian.arrange]
  | big => simp [hostBytes, Endian.arrange]

/-- What the cases have in common: the conversion makes the host's order that
of the device. -/
structure AccessCase.Converts (access : AccessCase) : Prop where
  positive : 0 < access.size
  small : access.size ≤ 4
  read : ∀ (host : Endian) (bytes : List U8), bytes.length = access.size →
    access.convert host (hostWord host bytes) = hostWord .little bytes
  write : ∀ (host : Endian) (value : U32),
    hostBytes host access.size (access.convert host value) =
      hostBytes .little access.size value

theorem byteOf_bswap16 (value : U32) :
    byteOf (bswap16 value) 0 = byteOf value 1 ∧
      byteOf (bswap16 value) 1 = byteOf value 0 := by
  obtain ⟨zero, one, _, _⟩ := byteOf_wordOf (byteOf value 1) (byteOf value 0)
    0 0
  exact ⟨zero, one⟩

theorem bswap16_wordOf (b0 b1 b2 b3 : U8) :
    bswap16 (wordOf b0 b1 b2 b3) = wordOf b1 b0 0 0 := by
  obtain ⟨zero, one, _, _⟩ := byteOf_wordOf b0 b1 b2 b3
  rw [bswap16, zero, one]

theorem swab32_wordOf (b0 b1 b2 b3 : U8) :
    swab32 (wordOf b0 b1 b2 b3) = wordOf b3 b2 b1 b0 := by
  obtain ⟨zero, one, two, three⟩ := byteOf_wordOf b0 b1 b2 b3
  rw [swab32, zero, one, two, three]

theorem byteOf_swab32 (value : U32) :
    byteOf (swab32 value) 0 = byteOf value 3 ∧
      byteOf (swab32 value) 1 = byteOf value 2 ∧
      byteOf (swab32 value) 2 = byteOf value 1 ∧
      byteOf (swab32 value) 3 = byteOf value 0 :=
  byteOf_wordOf (byteOf value 3) (byteOf value 2) (byteOf value 1)
    (byteOf value 0)

theorem accessCase_converts {width : Char} {access : AccessCase}
    (found : accessCase width = some access) : access.Converts := by
  unfold accessCase at found
  split at found
  · cases found
    refine ⟨by decide, by decide, ?_, ?_⟩
    · intro host bytes length
      obtain ⟨b0, rfl⟩ := List.length_eq_one_iff.mp length
      cases host with
      | little => rfl
      | big => rfl
    · intro host value
      cases host with
      | little => rfl
      | big => rfl
  · cases found
    refine ⟨by decide, by decide, ?_, ?_⟩
    · intro host bytes length
      obtain ⟨b0, b1, rfl⟩ := List.length_eq_two.mp length
      cases host with
      | little => rfl
      | big => exact bswap16_wordOf b1 b0 0 0
    · intro host value
      cases host with
      | little => rfl
      | big =>
          obtain ⟨zero, one⟩ := byteOf_bswap16 value
          change [byteOf (bswap16 value) 1, byteOf (bswap16 value) 0] =
            [byteOf value 0, byteOf value 1]
          rw [zero, one]
  · cases found
    refine ⟨by decide, by decide, ?_, ?_⟩
    · intro host bytes length
      obtain ⟨b0, b1, b2, b3, rfl⟩ := List.length_eq_four.mp length
      cases host with
      | little => rfl
      | big => exact swab32_wordOf b3 b2 b1 b0
    · intro host value
      cases host with
      | little => rfl
      | big =>
          obtain ⟨zero, one, two, three⟩ := byteOf_swab32 value
          change [byteOf (swab32 value) 3, byteOf (swab32 value) 2,
            byteOf (swab32 value) 1, byteOf (swab32 value) 0] =
              [byteOf value 0, byteOf value 1, byteOf value 2, byteOf value 3]
          rw [zero, one, two, three]
  · cases found

theorem byteOf_toNat (word : U32) (index : Nat) :
    (byteOf word index).toNat = word.toNat / 2 ^ (8 * index) % 2 ^ 8 := by
  rw [byteOf, BitVec.extractLsb'_toNat, Nat.shiftRight_eq_div_pow]

theorem wordOf_toNat (b0 b1 b2 b3 : U8) :
    (wordOf b0 b1 b2 b3).toNat = b3.toNat * 2 ^ 24 + b2.toNat * 2 ^ 16 +
      b1.toNat * 2 ^ 8 + b0.toNat := by
  have append : ∀ {width : Nat} (high : BitVec width) (low : U8),
      (high ++ low).toNat = high.toNat * 2 ^ 8 + low.toNat := by
    intro width high low
    rw [BitVec.toNat_append, ← Nat.shiftLeft_add_eq_or_of_lt low.isLt,
      Nat.shiftLeft_eq]
  rw [wordOf, append, append, append]
  omega

/-- A register holds the low bytes of the value stored in it. -/
theorem hostWord_hostBytes {width : Char} {access : AccessCase}
    (found : accessCase width = some access) (value : U32) :
    (hostWord .little (hostBytes .little access.size value)).toNat =
      value.toNat % 2 ^ (8 * access.size) := by
  have bound := value.isLt
  have zero : (0 : U8).toNat = 0 := rfl
  unfold accessCase at found
  split at found
  · cases found
    change (wordOf (byteOf value 0) 0 0 0).toNat = value.toNat % 2 ^ 8
    rw [wordOf_toNat, byteOf_toNat, zero]
    omega
  · cases found
    change (wordOf (byteOf value 0) (byteOf value 1) 0 0).toNat =
      value.toNat % 2 ^ 16
    rw [wordOf_toNat, byteOf_toNat, byteOf_toNat, zero]
    omega
  · cases found
    change (wordOf (byteOf value 0) (byteOf value 1) (byteOf value 2)
      (byteOf value 3)).toNat = value.toNat % 2 ^ 32
    rw [wordOf_byteOf, Nat.mod_eq_of_lt bound]
  · cases found

theorem accessCase_known (given : Char) :
    ∃ access, accessCase
      (if given = 'b' ∨ given = 'h' ∨ given = 'w' then given else 'w') =
        some access := by
  split
  · rename_i known
    rcases known with rfl | rfl | rfl
    · exact ⟨_, rfl⟩
    · exact ⟨_, rfl⟩
    · exact ⟨_, rfl⟩
  · exact ⟨_, rfl⟩

/-- The check leaves no width without a case. -/
theorem accessCase_accessWidth (argv : List (List Char)) :
    ∃ access, accessCase (accessWidth argv) = some access :=
  accessCase_known _

/-- Every byte of the access is inside the mapping. -/
def AccessCase.Inside (access : AccessCase) (mapSize target : U64) : Prop :=
  target.toNat + access.size ≤ mapSize.toNat

instance (access : AccessCase) (mapSize target : U64) :
    Decidable (access.Inside mapSize target) :=
  inferInstanceAs (Decidable (_ ≤ _))

theorem RegisterMapping.resolve_target (mapping : RegisterMapping)
    (mapSize target : U64) (access : AccessCase) :
    mapping.resolve mapSize (mapping.base + target) access.size =
      if access.Inside mapSize target then some (mapping.bus + target)
      else none := by
  have offset : mapping.base + target - mapping.base = target := by
    rw [BitVec.add_comm, BitVec.add_sub_cancel]
  rw [RegisterMapping.resolve, offset]
  rfl

/-! ## What a call can do -/

section Outcome

variable {State : Type} {mapSize : U64} {host : Endian}
  {block : BusDevice State} {calls : ToolCalls} {argv : List (List Char)}
  {device : State}

/-- The access that the arguments ask for. -/
structure Asks (mapSize : U64) (calls : ToolCalls) (argv : List (List Char))
    (access : AccessCase) (mapping : RegisterMapping) : Prop where
  enough : 3 ≤ argv.length
  opened : calls.opened
  mapped : calls.mmap mapSize = some mapping
  access : accessCase (accessWidth argv) = some access

/-- What is printed up to the access. -/
def prologue (argv : List (List Char)) (mapping : RegisterMapping) :
    List Char :=
  argumentsText argv ++ openedText argv ++ mappedText mapping

inductive ToolMoves (mapSize : U64) (host : Endian) (block : BusDevice State)
    (calls : ToolCalls) (argv : List (List Char)) (device : State) : Prop where
  | refused (stdout : List Char) (error : ToolError) (fdOpen : Bool)
      (missing : argv.length < 3 ∨ calls.opened = false ∨
        calls.mmap mapSize = none)
      (runs : regTool mapSize host block calls argv device =
        { device
          stdout
          ending := .exited 1 error
          fdOpen
          mapped := false })
  | strays (access : AccessCase) (mapping : RegisterMapping)
      (stdout : List Char) (asks : Asks mapSize calls argv access mapping)
      (outside : ¬access.Inside mapSize (targetOf argv))
      (runs : regTool mapSize host block calls argv device =
        { device
          stdout
          ending := .strayed
          fdOpen := true
          mapped := true })
  | reads (access : AccessCase) (mapping : RegisterMapping)
      (asks : Asks mapSize calls argv access mapping)
      (inside : access.Inside mapSize (targetOf argv))
      (few : argv.length ≤ 4) (answer : List U8 × State)
      (answers : block.read device (mapping.bus + targetOf argv)
        access.size = answer)
      (runs : regTool mapSize host block calls argv device =
        let value := hostWord .little answer.1
        let stdout := prologue argv mapping ++
          readText access argv (mapping.base + targetOf argv) value
        if accessWidth argv = 'w' then
          { device := answer.2
            stdout
            ending := .returned value.toInt
            fdOpen := true
            mapped := true }
        else closeTool calls answer.2 stdout)
  | writes (access : AccessCase) (mapping : RegisterMapping)
      (asks : Asks mapSize calls argv access mapping)
      (inside : access.Inside mapSize (targetOf argv))
      (many : 4 < argv.length)
      (runs : regTool mapSize host block calls argv device =
        closeTool calls
          (block.write device (mapping.bus + targetOf argv)
            (hostBytes .little access.size (writevalOf argv)))
          (prologue argv mapping ++
            writeText access argv (mapping.base + targetOf argv)
              (writevalOf argv)))

theorem regTool_moves (mapSize : U64) (host : Endian)
    (block : BusDevice State) (calls : ToolCalls) (argv : List (List Char))
    (device : State) : ToolMoves mapSize host block calls argv device := by
  obtain ⟨access, found⟩ := accessCase_accessWidth argv
  have converts := accessCase_converts found
  by_cases few : argv.length < 3
  · exact .refused _ _ _ (.inl few) (by rw [regTool, if_pos few])
  cases opened : calls.opened with
  | false =>
      exact .refused _ _ _ (.inr (.inl opened))
        (by rw [regTool, if_neg few, if_pos (by simp [opened])])
  | true =>
      cases mapped : calls.mmap mapSize with
      | none =>
          exact .refused (argumentsText argv ++ openedText argv) .fatal true
            (.inr (.inr mapped))
            (by rw [regTool, if_neg few, if_neg (by simp [opened]), mapped])
      | some mapping =>
          have asks : Asks mapSize calls argv access mapping :=
            ⟨Nat.le_of_not_lt few, opened, mapped, found⟩
          have resolves := mapping.resolve_target mapSize (targetOf argv)
            access
          have goesOn : regTool mapSize host block calls argv device =
              if argv.length ≤ 4 then
                readCase mapSize host block calls mapping argv device
                  (prologue argv mapping)
              else writeCase mapSize host block calls mapping argv device
                (prologue argv mapping) := by
            rw [regTool, if_neg few, if_neg (by simp [opened]), mapped]
            rfl
          by_cases inside : access.Inside mapSize (targetOf argv)
          · rw [if_pos inside] at resolves
            by_cases reading : argv.length ≤ 4
            · refine .reads access mapping asks inside reading _ rfl ?_
              have length := block.read_length device
                (mapping.bus + targetOf argv) access.size
              rw [goesOn, if_pos reading, readCase, found]
              dsimp only
              rw [resolves]
              dsimp only
              rw [converts.read host _ length]
            · refine .writes access mapping asks inside
                (Nat.lt_of_not_le reading) ?_
              rw [goesOn, if_neg reading, writeCase, found]
              dsimp only
              rw [resolves]
              dsimp only
              rw [converts.write host]
          · rw [if_neg inside] at resolves
            by_cases reading : argv.length ≤ 4
            · refine .strays access mapping (prologue argv mapping) asks
                inside ?_
              rw [goesOn, if_pos reading, readCase, found]
              dsimp only
              rw [resolves]
            · refine .strays access mapping (prologue argv mapping ++
                writeText access argv (mapping.base + targetOf argv)
                  (writevalOf argv)) asks inside ?_
              rw [goesOn, if_neg reading, writeCase, found]
              dsimp only
              rw [resolves]

theorem readCase_host (mapSize : U64) (host : Endian)
    (block : BusDevice State) (calls : ToolCalls) (mapping : RegisterMapping)
    (argv : List (List Char)) (device : State) (stdout : List Char) :
    readCase mapSize host block calls mapping argv device stdout =
      readCase mapSize .little block calls mapping argv device stdout := by
  obtain ⟨access, found⟩ := accessCase_accessWidth argv
  have converts := accessCase_converts found
  rw [readCase, readCase, found]
  dsimp only
  split
  · rfl
  · rename_i bus _
    have length := block.read_length device bus access.size
    rw [converts.read host _ length, converts.read .little _ length]

theorem writeCase_host (mapSize : U64) (host : Endian)
    (block : BusDevice State) (calls : ToolCalls) (mapping : RegisterMapping)
    (argv : List (List Char)) (device : State) (stdout : List Char) :
    writeCase mapSize host block calls mapping argv device stdout =
      writeCase mapSize .little block calls mapping argv device stdout := by
  obtain ⟨access, found⟩ := accessCase_accessWidth argv
  have converts := accessCase_converts found
  rw [writeCase, writeCase, found]
  dsimp only
  rw [converts.write host, converts.write .little]

/-- Neither the device nor the reader of the output can tell the hosts
apart. -/
theorem regTool_host_independent (mapSize : U64) (host : Endian)
    (block : BusDevice State) (calls : ToolCalls) (argv : List (List Char))
    (device : State) :
    regTool mapSize host block calls argv device =
      regTool mapSize .little block calls argv device := by
  rw [regTool, regTool]
  split
  · rfl
  · split
    · rfl
    · split
      · rfl
      · dsimp only
        rw [readCase_host mapSize host, writeCase_host mapSize host]

theorem closeTool_device (calls : ToolCalls) (device : State)
    (stdout : List Char) :
    (closeTool calls device stdout).device = device ∧
      (closeTool calls device stdout).stdout = stdout := by
  rw [closeTool]
  split
  · exact ⟨rfl, rfl⟩
  · exact ⟨rfl, rfl⟩

end Outcome

/-- The value that the line of a read ends with. -/
def shownValue (stdout : List Char) : U32 :=
  strtoul 32 (lastField stdout)

theorem shownValue_readText (front : List Char) (access : AccessCase)
    (argv : List (List Char)) (virtAddr : U64) (value : U32) :
    shownValue (front ++ readText access argv virtAddr value) = value := by
  have colon : "): ".toList = [')', ':', ' '] := by decide
  have newline : "\n".toList = ['\n'] := by decide
  have line : front ++ readText access argv virtAddr value =
      (front ++ readLead access argv virtAddr ++ [')', ':']) ++
        ' ' :: (formatHex access.digits value.toNat ++ ['\n']) := by
    rw [readText, colon, newline]
    simp only [List.append_assoc, List.cons_append, List.nil_append]
  have noBlank : ' ' ∉ formatHex access.digits value.toNat ++ ['\n'] := by
    intro member
    rcases List.mem_append.mp member with digits | newline
    · exact not_mem_formatHex _ _ digits
    · exact absurd (List.mem_singleton.mp newline) (by decide)
  have ends : ∀ char ∈ ['\n'].head?, digitIn 16 char = none := by
    intro char first
    rw [← Option.some.inj first]
    rfl
  rw [shownValue, line, lastField_append _ noBlank,
    strtoul_formatHex value.isLt access.digits ends, BitVec.ofNat_toNat,
    BitVec.setWidth_eq]

end Xpcie
