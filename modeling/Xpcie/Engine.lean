import Xpcie.Mapper
import Xpcie.Descriptor

/-!
# Programming the engine

`transfer_start` writes the address of the first descriptor, sets the engine
running, waits, and stops it.  The register file below is the device's side
of these accesses.
-/

namespace Xpcie

open EffectLog

/-- The fields of `struct xdma_transfer` that a write uses. -/
structure XdmaTransfer where
  descVirt : List XdmaDesc
  descBus : U64
  descAdjacent : Int
  descNum : Int
  sglNents : Nat
  sgm : SgMapping

def xdmaCtrlRunStop : U32 := 1 <<< 0
def xdmaCtrlIeDescStopped : U32 := 1 <<< 1
def xdmaCtrlIeDescAlignMismatch : U32 := 1 <<< 3
def xdmaCtrlIeMagicStopped : U32 := 1 <<< 4
def xdmaCtrlIeReadError : U32 := 0x1F <<< 9
def xdmaCtrlIeDescError : U32 := 0x1F <<< 19

def xdmaStatBusy : U32 := 1 <<< 0
def xdmaStatDescStopped : U32 := 1 <<< 1
def xdmaStatAlignMismatch : U32 := 1 <<< 3
def xdmaStatMagicStopped : U32 := 1 <<< 4
def xdmaStatReadError : U32 := 0x1F <<< 9
def xdmaStatDescError : U32 := 0x1F <<< 19

def writeRegister (value : U32) (register : Register) : Exec Unit :=
  Run.emit (.access (.write register value))

/-- The device answers with `value`. -/
def readRegister (register : Register) (value : U32) : Exec U32 := do
  Run.emit (.access (.read register value))
  pure value

def engineControlWord : U32 :=
  xdmaCtrlRunStop ||| xdmaCtrlIeReadError ||| xdmaCtrlIeDescError |||
    xdmaCtrlIeDescAlignMismatch ||| xdmaCtrlIeMagicStopped |||
    xdmaCtrlIeDescStopped

def engineStart (status : U32) : Exec Unit := do
  -- start the engine
  writeRegister engineControlWord .control
  -- dummy read of status register to flush all previous writes
  let _w ← readRegister .status status
  pure ()

def engineStop (status : U32) : Exec Unit := do
  -- stop the engine
  writeRegister 0 .control
  -- dummy read of status register to flush all previous writes
  let _w ← readRegister .status status
  pure ()

/-- `extra_adj` as `transfer_start` computes it. -/
def firstExtraAdj (descAdjacent : Int) : Int :=
  if descAdjacent > 0 then
    if descAdjacent - 1 > maxExtraAdj then maxExtraAdj else descAdjacent - 1
  else 0

theorem firstExtraAdj_eq {number : Nat} (positive : 0 < number) :
    firstExtraAdj number = (min (number - 1) 15 : Nat) := by
  unfold firstExtraAdj maxExtraAdj
  omega

/-- `status i` is what the device answers to the read number `i` of its
status register: before the transfer, after the start, after the wait and
after the stop. -/
def transferStart (host : Endian) (transfer : XdmaTransfer)
    (status : Nat → U32) : Exec Int := do
  let _value ← readRegister .status (status 0)
  writeRegister
    (cpuToLe32 host (BitVec.ofInt 32 (firstExtraAdj transfer.descAdjacent)))
    .firstDescAdjacent
  writeRegister (cpuToLe32 host (pciDmaL transfer.descBus)) .firstDescLo
  writeRegister (cpuToLe32 host (pciDmaH transfer.descBus)) .firstDescHi
  engineStart (status 1)
  Run.emit (.mdelay 2000)
  let _value ← readRegister .status (status 2)
  engineStop (status 3)
  pure 0

/-! ## The device's registers -/

structure RegisterFile where
  control : U32
  firstDescLo : U32
  firstDescHi : U32
  firstDescAdjacent : U32
  deriving DecidableEq, Repr

def idleRegisters : RegisterFile :=
  { control := 0
    firstDescLo := 0
    firstDescHi := 0
    firstDescAdjacent := 0 }

def RegisterFile.apply (registers : RegisterFile) : Access → RegisterFile
  | .read _ _ => registers
  | .write .control value => { registers with control := value }
  | .write .status _ => registers
  | .write .firstDescLo value => { registers with firstDescLo := value }
  | .write .firstDescHi value => { registers with firstDescHi := value }
  | .write .firstDescAdjacent value =>
      { registers with firstDescAdjacent := value }

/-- An access that sets the engine running. -/
def Access.starts : Access → Bool
  | .write .control value => value &&& xdmaCtrlRunStop != 0
  | _ => false

/-- The registers the engine finds each time it is set running. -/
def launches : RegisterFile → List Access → List RegisterFile
  | _, [] => []
  | registers, access :: later =>
      if access.starts then
        registers.apply access :: launches (registers.apply access) later
      else launches (registers.apply access) later

/-- The bus address at which the engine begins to read descriptors. -/
def RegisterFile.firstDesc (registers : RegisterFile) : U64 :=
  joinAddr registers.firstDescHi registers.firstDescLo

/-- The register accesses of one transfer, in program order. -/
def transferAccesses (host : Endian) (transfer : XdmaTransfer)
    (status : Nat → U32) : List Access :=
  [.read .status (status 0),
    .write .firstDescAdjacent (cpuToLe32 host
      (BitVec.ofInt 32 (firstExtraAdj transfer.descAdjacent))),
    .write .firstDescLo (cpuToLe32 host (pciDmaL transfer.descBus)),
    .write .firstDescHi (cpuToLe32 host (pciDmaH transfer.descBus)),
    .write .control engineControlWord,
    .read .status (status 1),
    .read .status (status 2),
    .write .control 0,
    .read .status (status 3)]

theorem transferStart_accesses (host : Endian) (transfer : XdmaTransfer)
    (status : Nat → U32) :
    accesses (transferStart host transfer status).log =
      transferAccesses host transfer status := rfl

theorem outstanding_transferStart (host : Endian) (transfer : XdmaTransfer)
    (status : Nat → U32) (resource : Resource) :
    outstanding (transferStart host transfer status).log resource = 0 := rfl

/-- A transfer sets the engine running once, at its own descriptors. -/
theorem launches_transferAccesses (transfer : XdmaTransfer)
    (status : Nat → U32) (registers : RegisterFile) :
    ∃ launched,
      launches registers (transferAccesses .little transfer status) =
        [launched] ∧ launched.firstDesc = transfer.descBus := by
  refine ⟨_, rfl, ?_⟩
  exact joinAddr_pciDma transfer.descBus

end Xpcie
