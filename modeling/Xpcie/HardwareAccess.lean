import Xpcie.Write
import Xpcie.Lifecycle
import Xpcie.Library.Runs

/-!
# When the hardware is there

File operations reach the device through `xpcie_dev` and the register
pointers, which probes set and nothing resets.  Whether they find the device
depends on the history of probes and removals only, and the second half of
this module keeps just that history.
-/

namespace Xpcie

open Runs

variable {Dev : Type}

/-- What the kernel may ask of the module: callbacks and file operations. -/
inductive Request (Dev : Type) where
  | lifecycle (callback : Callback Dev)
  | h2cWrite (call : WriteCall)
  | userMmap
  | h2cMmap

/-- File operations leave the static variables alone. -/
def Request.run [DecidableEq Dev] (system : System Dev) :
    Request Dev → System Dev
  | .lifecycle callback => callback.run system
  | .h2cWrite _ | .userMmap | .h2cMmap => system

/-- The character devices exist while the module is loaded. -/
def Request.Admitted (system : System Dev) : Request Dev → Prop
  | .lifecycle callback => callback.Admitted system
  | .h2cWrite call => system.loaded = true ∧ call.Admitted
  | .userMmap | .h2cMmap => system.loaded = true

/-! ## Safety -/

/-- `xpcie_dev` is this device, which is bound to the driver and enabled. -/
structure DeviceThere (system : System Dev) (dev : Dev) : Prop where
  known : system.xpcieDev = some dev
  bound : system.bound dev = true
  enabled : 0 < system.enabled dev

def System.pointer (system : System Dev) : RegisterBlock → Pointer
  | .engineRegsH2c => system.engineRegsH2c
  | .engineSgdmaRegs => system.engineSgdmaRegs

def Access.register : Access → Register
  | .read register _ | .write register _ => register

/-- The register lies inside a live mapping of BAR 1 of the device. -/
def RegisterThere (system : System Dev) (dev : Dev)
    (register : Register) : Prop :=
  ∃ (id : Nat) (mapping : Mapping Dev),
    (system.pointer register.block).base = some id ∧
      system.mappings[id]? = some mapping ∧
      id ∉ system.iounmaps.map Prod.snd ∧
      mapping.dev = dev ∧ mapping.bar = dmaBarIndex ∧
      (system.pointer register.block).offset + register.fieldOffset + 4 ≤
        mapping.length

/-- What one event of a write needs of the system. -/
def EventSafe (system : System Dev) : Event → Prop
  | .useDevice => ∃ dev, DeviceThere system dev
  | .access access => ∃ dev, DeviceThere system dev ∧
      RegisterThere system dev access.register
  | _ => True

/-- A request touches the hardware only while it is there.  Both `mmap`
operations read the resources of `xpcie_dev`. -/
def RequestSafe (host : Endian) (system : System Dev) :
    Request Dev → Prop
  | .lifecycle _ => True
  | .h2cWrite call => ∀ event ∈ (call.run host).log, EventSafe system event
  | .userMmap | .h2cMmap => ∃ dev, DeviceThere system dev

/-! ## The history of probes and removals -/

/-- The device of the last probe, if that probe succeeded and the device was
not removed since, with the length of its mapping of BAR 1, if there is one
and no device at all was removed since. -/
structure Service (Dev : Type) where
  dev : Dev
  mapped : Option Nat

/-- The length to which a probe maps BAR 1. -/
def mappedLength (calls : ProbeCalls) : Option Nat :=
  if calls.barLen dmaBarIndex ≠ 0 ∧ calls.pciIomap dmaBarIndex = true then
    some (min (calls.barLen dmaBarIndex) intMax)
  else none

def serve [DecidableEq Dev] (service : Option (Service Dev)) :
    Request Dev → Option (Service Dev)
  | .lifecycle (.init _) | .lifecycle (.exit _) => none
  | .lifecycle (.probe dev calls) =>
      if calls.pciEnableDevice = 0 ∧ calls.pciRequestRegions = 0 then
        some { dev, mapped := mappedLength calls }
      else none
  | .lifecycle (.remove dev) =>
      match service with
      | some served =>
          if served.dev = dev then none
          else some { served with mapped := none }
      | none => none
  | .h2cWrite _ | .userMmap | .h2cMmap => service

/-- Where the last register ends: `first_desc_adjacent` in the SGDMA block. -/
def registersEnd : Nat := 4 * targetSpacing + 4 * 34 + 4

/-- A device is in service when it is needed, and its BAR 1 is mapped up to
the last register when a write runs the engine. -/
def Served (service : Option (Service Dev)) : Request Dev → Prop
  | .lifecycle _ => True
  | .h2cWrite call =>
      (call.kernel.Pin call.buf call.count → service ≠ none) ∧
        (call.kernel.Succeed call.buf call.count →
          ∃ served length, service = some served ∧
            served.mapped = some length ∧ registersEnd ≤ length)
  | .userMmap | .h2cMmap => service ≠ none

/-! ## The history tells the state -/

/-- The module holds mappings of bound devices only, and no mapping was
unmapped before it was made. -/
structure BarsKnown (holder : Dev → Prop) (system : System Dev) :
    Prop where
  held : ∀ idx id, system.bar idx = some id →
    ∃ mapping, system.mappings[id]? = some mapping ∧ holder mapping.dev
  made : ∀ id ∈ system.iounmaps.map Prod.snd, id < system.mappings.length

/-- The register pointers lead into a live mapping of BAR 1 of the device. -/
def PointersLive (system : System Dev) (dev : Dev) (length : Nat) : Prop :=
  ∃ (id : Nat) (mapping : Mapping Dev),
    system.engineRegsH2c.base = some id ∧
      system.bar dmaBarIndex = some id ∧
      system.mappings[id]? = some mapping ∧
      id ∉ system.iounmaps.map Prod.snd ∧
      mapping.dev = dev ∧ mapping.bar = dmaBarIndex ∧
      mapping.length = length

/-- The register pointers lead into no live mapping of the device. -/
def PointersDead (system : System Dev) (dev : Dev) : Prop :=
  ∀ (id : Nat) (mapping : Mapping Dev),
    system.engineRegsH2c.base = some id →
    system.mappings[id]? = some mapping → mapping.dev = dev →
    id ∈ system.iounmaps.map Prod.snd

/-- Both register pointers were set from the same mapping. -/
structure PointersSet (system : System Dev) : Prop where
  base : system.engineSgdmaRegs.base = system.engineRegsH2c.base
  engineRegs : system.engineRegsH2c.offset = 0
  sgdmaRegs : system.engineSgdmaRegs.offset = 4 * targetSpacing

/-- What the history says of a device in service. -/
structure InService (system : System Dev) (served : Service Dev) :
    Prop where
  there : DeviceThere system served.dev
  pointers : PointersSet system
  mapped : match served.mapped with
    | some length => PointersLive system served.dev length
    | none => PointersDead system served.dev

/-- The system as the history describes it. -/
structure Describes (system : System Dev)
    (service : Option (Service Dev)) : Prop where
  bars : BarsKnown (fun dev => system.bound dev = true) system
  service : match service with
    | some served => InService system served
    | none => ∀ dev, ¬DeviceThere system dev

/-! ## Safety is a matter of history -/

section Agree

variable {system : System Dev} {service : Option (Service Dev)}

theorem DeviceThere.unique {dev other : Dev} (there : DeviceThere system dev)
    (otherThere : DeviceThere system other) : dev = other :=
  Option.some.inj (there.known.symm.trans otherThere.known)

theorem Describes.deviceThere_iff (describes : Describes system service) :
    (∃ dev, DeviceThere system dev) ↔ service ≠ none := by
  have known := describes.service
  cases service with
  | none => exact iff_of_false (fun ⟨dev, there⟩ => known dev there) (by simp)
  | some served => exact iff_of_true ⟨served.dev, known.there⟩ (by simp)

/-- A log is safe if it may name the device and make its accesses. -/
theorem forall_eventSafe_iff {log : List Event} :
    (∀ event ∈ log, EventSafe system event) ↔
      (Event.useDevice ∈ log → ∃ dev, DeviceThere system dev) ∧
        ∀ access ∈ accesses log, EventSafe system (.access access) := by
  have member : ∀ access, access ∈ accesses log ↔
      Event.access access ∈ log := by
    intro access
    rw [accesses, List.mem_filterMap]
    constructor
    · rintro ⟨event, inLog, same⟩
      cases event with
      | access other =>
          cases same
          exact inLog
      | _ => cases same
    · intro inLog
      exact ⟨_, inLog, rfl⟩
  constructor
  · intro safe
    exact ⟨safe .useDevice, fun access inLog =>
      safe _ ((member access).mp inLog)⟩
  · rintro ⟨device, registers⟩ event inLog
    cases event with
    | useDevice => exact device inLog
    | access access => exact registers access ((member access).mpr inLog)
    | _ => trivial

/-- The pointers lead to a register exactly when the mapping of BAR 1 is live
and long enough for it. -/
theorem InService.registerThere_iff {served : Service Dev}
    (inService : InService system served) (register : Register) :
    RegisterThere system served.dev register ↔
      ∃ length, served.mapped = some length ∧
        (system.pointer register.block).offset + register.fieldOffset + 4 ≤
          length := by
  have base : (system.pointer register.block).base =
      system.engineRegsH2c.base := by
    cases register with
    | control | status => rfl
    | firstDescLo | firstDescHi | firstDescAdjacent =>
        exact inService.pointers.base
  have mapped := inService.mapped
  rw [RegisterThere, base]
  cases length : served.mapped with
  | none =>
      rw [length] at mapped
      constructor
      · rintro ⟨id, mapping, pointed, found, live, own, _⟩
        exact absurd (mapped id mapping pointed found own) live
      · rintro ⟨_, none, _⟩
        cases none
  | some bytes =>
      rw [length] at mapped
      obtain ⟨id, mapping, pointed, _, found, live, own, bar, rfl⟩ := mapped
      constructor
      · rintro ⟨id', mapping', pointed', found', _, _, _, inside⟩
        rw [pointed] at pointed'
        cases pointed'
        rw [found] at found'
        cases found'
        exact ⟨_, rfl, inside⟩
      · rintro ⟨_, same, inside⟩
        cases same
        exact ⟨id, mapping, pointed, found, live, own, bar, inside⟩

/-- `first_desc_adjacent` is the register that needs the longest mapping. -/
theorem InService.register_le {served : Service Dev}
    (inService : InService system served) (register : Register) :
    (system.pointer register.block).offset + register.fieldOffset + 4 ≤
      registersEnd := by
  obtain ⟨_, engineRegs, sgdmaRegs⟩ := inService.pointers
  cases register with
  | control | status =>
      change system.engineRegsH2c.offset + _ + 4 ≤ registersEnd
      rw [engineRegs]
      decide
  | firstDescLo | firstDescHi | firstDescAdjacent =>
      change system.engineSgdmaRegs.offset + _ + 4 ≤ registersEnd
      rw [sgdmaRegs]
      decide

/-- The accesses of a transfer are safe when the mapping reaches far enough
for all of them. -/
theorem InService.transfer_safe_iff {served : Service Dev}
    (inService : InService system served) (host : Endian)
    (transfer : XdmaTransfer) (status : Nat → U32) :
    (∀ access ∈ transferAccesses host transfer status,
        EventSafe system (.access access)) ↔
      ∃ length, served.mapped = some length ∧ registersEnd ≤ length := by
  constructor
  · intro safe
    obtain ⟨dev, there, register⟩ := safe (.write .firstDescAdjacent
      (cpuToLe32 host
        (BitVec.ofInt 32 (firstExtraAdj transfer.descAdjacent))))
      (by simp [transferAccesses])
    rw [there.unique inService.there,
      inService.registerThere_iff] at register
    obtain ⟨length, mapped, inside⟩ := register
    refine ⟨length, mapped, ?_⟩
    change system.engineSgdmaRegs.offset + _ + 4 ≤ length at inside
    rw [inService.pointers.sgdmaRegs] at inside
    exact inside
  · rintro ⟨length, mapped, enough⟩ access _
    refine ⟨served.dev, inService.there,
      (inService.registerThere_iff access.register).mpr ⟨length, mapped, ?_⟩⟩
    exact Nat.le_trans (inService.register_le access.register) enough

/-- A request is safe exactly when the history serves it. -/
theorem Describes.requestSafe_iff (describes : Describes system service)
    {request : Request Dev} (admitted : request.Admitted system)
    (host : Endian) :
    RequestSafe host system request ↔ Served service request := by
  cases request with
  | lifecycle callback => exact Iff.rfl
  | userMmap | h2cMmap => exact describes.deviceThere_iff
  | h2cWrite call =>
      obtain ⟨_, callAdmitted⟩ := admitted
      rw [RequestSafe, forall_eventSafe_iff, describes.deviceThere_iff,
        callAdmitted.useDevice_mem_iff host, Served]
      apply and_congr_right
      intro named
      change (∀ access ∈ call.program host, _) ↔ _
      rcases callAdmitted.program_cases host with
        ⟨failed, _, none⟩ | ⟨succeed, transfer, _, program⟩
      · rw [none]
        exact iff_of_true (fun _ member => nomatch member)
          (fun succeed => absurd succeed failed)
      · obtain ⟨served, rfl⟩ :=
          Option.ne_none_iff_exists'.mp (named succeed.toPin)
        rw [program, describes.service.transfer_safe_iff]
        constructor
        · rintro ⟨length, mapped, enough⟩ _
          exact ⟨served, length, rfl, mapped, enough⟩
        · intro reaches
          obtain ⟨_, length, same, mapped, enough⟩ := reaches succeed
          cases same
          exact ⟨length, mapped, enough⟩

end Agree

end Xpcie
