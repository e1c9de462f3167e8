import Mathlib.Algebra.BigOperators.Group.List.Basic
import Mathlib.Algebra.Order.Ring.Int
import Mathlib.Data.List.FinRange

/-!
# The life of the module and of its devices

The module keeps what it knows of its device in static variables, one set for
all devices.  The system state joins these variables with what the kernel has
handed out: enabled devices, regions, BAR mappings and registrations.
-/

namespace Xpcie

/-- `XDMA_BAR_NUM` -/
abbrev xdmaBarNum : Nat := 2

/-- `INT_MAX` -/
def intMax : Nat := 2 ^ 31 - 1

def targetSpacing : Nat := 0x1000

/-- `USER_BAR_INDEX` and `DMA_BAR_INDEX` -/
def userBarIndex : Fin xdmaBarNum := 0
def dmaBarIndex : Fin xdmaBarNum := 1

/-- The character devices of the module. -/
inductive Chrdev where
  | user
  | h2c
  | c2h
  deriving DecidableEq, Repr

def Chrdev.minor : Chrdev → Int
  | .user => 1
  | .h2c => 2
  | .c2h => 3

/-- One mapping made by `pci_iomap`. -/
structure Mapping (Dev : Type) where
  dev : Dev
  bar : Fin xdmaBarNum
  length : Nat

/-- An `__iomem` address: a mapping, or NULL, and a byte offset into it. -/
structure Pointer where
  base : Option Nat
  offset : Nat
  deriving DecidableEq, Repr

def Pointer.null : Pointer :=
  { base := none
    offset := 0 }

/-- The static variables of the module and the kernel's side of them. -/
structure System (Dev : Type) where
  -- static variables of the module
  xpcieDev : Option Dev
  bar : Fin xdmaBarNum → Option Nat
  engineRegsH2c : Pointer
  engineSgdmaRegs : Pointer
  major : Chrdev → Int
  -- the kernel's view
  /-- The module is in the kernel, its initialisation having succeeded. -/
  loaded : Bool
  /-- The probe of the device returned 0, and it was not removed since. -/
  bound : Dev → Bool
  /-- The device's `enable_cnt`. -/
  enabled : Dev → Nat
  requested : Dev → Bool
  /-- All mappings ever made; a mapping is known by its place here. -/
  mappings : List (Mapping Dev)
  /-- All calls of `pci_iounmap`, as device and mapping. -/
  iounmaps : List (Dev × Nat)
  pciDriver : Bool
  chrdevs : List (Int × Chrdev)
  xpcieClass : Bool
  nodes : List (Int × Int)

/-- Before the module is loaded for the first time. -/
def System.initial (Dev : Type) : System Dev :=
  { xpcieDev := none
    bar := fun _ => none
    engineRegsH2c := .null
    engineSgdmaRegs := .null
    major := fun _ => 0
    loaded := false
    bound := fun _ => false
    enabled := fun _ => 0
    requested := fun _ => false
    mappings := []
    iounmaps := []
    pciDriver := false
    chrdevs := []
    xpcieClass := false
    nodes := [] }

variable {Dev : Type}

/-! ## BARs -/

/-- What the kernel answers during one probe. -/
structure ProbeCalls where
  pciEnableDevice : Int
  pciRequestRegions : Int
  barLen : Fin xdmaBarNum → Nat
  pciIomap : Fin xdmaBarNum → Bool

def mapSingleBar (dev : Dev) (calls : ProbeCalls) (idx : Fin xdmaBarNum)
    (system : System Dev) : Int × System Dev :=
  let barLen := calls.barLen idx
  -- do not map BARs with length 0
  if barLen = 0 then (0, system)
  else
    -- BAR size exceeds maximum desired mapping?
    let mapLen := if barLen > intMax then intMax else barLen
    if calls.pciIomap idx then
      (mapLen,
        { system with
          mappings := system.mappings ++
            [{ dev, bar := idx, length := mapLen }]
          bar := Function.update system.bar idx
            (some system.mappings.length) })
    else
      (-1, { system with bar := Function.update system.bar idx none })

/-- The result of `map_single_bar` is not looked at. -/
def mapBars (dev : Dev) (calls : ProbeCalls) (system : System Dev) :
    System Dev :=
  let system := (mapSingleBar dev calls userBarIndex system).2
  let system := (mapSingleBar dev calls dmaBarIndex system).2
  { system with
    engineRegsH2c :=
      { base := system.bar dmaBarIndex
        offset := 0 * targetSpacing }
    engineSgdmaRegs :=
      { base := system.bar dmaBarIndex
        offset := 4 * targetSpacing } }

def unmapBar (dev : Dev) (system : System Dev) (idx : Fin xdmaBarNum) :
    System Dev :=
  match system.bar idx with
  | some mapping =>
      { system with
        iounmaps := system.iounmaps ++ [(dev, mapping)]
        bar := Function.update system.bar idx none }
  | none => system

def unmapBars (dev : Dev) (system : System Dev) : System Dev :=
  (List.finRange xdmaBarNum).foldl (unmapBar dev) system

/-- The BAR is absent, its mapping fails, or a mapping is added. -/
theorem mapSingleBar_cases (dev : Dev) (calls : ProbeCalls)
    (idx : Fin xdmaBarNum) (system : System Dev) :
    (calls.barLen idx = 0 ∧ (mapSingleBar dev calls idx system).2 = system) ∨
      (calls.barLen idx ≠ 0 ∧ calls.pciIomap idx = false ∧
        (mapSingleBar dev calls idx system).2 =
          { system with bar := Function.update system.bar idx none }) ∨
      (calls.barLen idx ≠ 0 ∧ calls.pciIomap idx = true ∧
        (mapSingleBar dev calls idx system).2 =
          { system with
            mappings := system.mappings ++
              [{ dev
                 bar := idx
                 length := min (calls.barLen idx) intMax }]
            bar := Function.update system.bar idx
              (some system.mappings.length) }) := by
  unfold mapSingleBar
  by_cases absent : calls.barLen idx = 0
  · exact .inl ⟨absent, by rw [if_pos absent]⟩
  · cases mapped : calls.pciIomap idx with
    | false => exact .inr (.inl ⟨absent, rfl, by simp [absent]⟩)
    | true =>
        have limited : (if calls.barLen idx > intMax then intMax
            else calls.barLen idx) = min (calls.barLen idx) intMax := by
          split <;> omega
        exact .inr (.inr ⟨absent, rfl, by simp [absent, limited]⟩)

/-- Mapping BAR 0 leaves the place of BAR 1 and the earlier mappings alone. -/
theorem mapSingleBar_user (dev : Dev) (calls : ProbeCalls)
    (system : System Dev) :
    (mapSingleBar dev calls userBarIndex system).2.bar dmaBarIndex =
        system.bar dmaBarIndex ∧
      ∃ later, (mapSingleBar dev calls userBarIndex system).2.mappings =
        system.mappings ++ later := by
  have other : dmaBarIndex ≠ userBarIndex := by decide
  rcases mapSingleBar_cases dev calls userBarIndex system with
    ⟨_, same⟩ | ⟨_, _, failed⟩ | ⟨_, _, added⟩
  · rw [same]
    exact ⟨rfl, [], (List.append_nil _).symm⟩
  · rw [failed]
    exact ⟨Function.update_of_ne other none system.bar, [],
      (List.append_nil _).symm⟩
  · rw [added]
    exact ⟨Function.update_of_ne other (some system.mappings.length)
      system.bar, _, rfl⟩

/-- Mapping the BARs leaves all but mappings and pointers alone. -/
theorem mapBars_frame (dev : Dev) (calls : ProbeCalls)
    (system : System Dev) :
    ∃ bar mappings engineRegsH2c engineSgdmaRegs,
      mapBars dev calls system =
        { system with bar, mappings, engineRegsH2c, engineSgdmaRegs } := by
  have single : ∀ (idx : Fin xdmaBarNum) (system : System Dev),
      ∃ bar mappings, (mapSingleBar dev calls idx system).2 =
        { system with bar, mappings } := by
    intro idx system
    rcases mapSingleBar_cases dev calls idx system with
      ⟨_, same⟩ | ⟨_, _, failed⟩ | ⟨_, _, added⟩
    · exact ⟨_, _, same⟩
    · exact ⟨_, _, failed⟩
    · exact ⟨_, _, added⟩
  obtain ⟨bar, mappings, first⟩ := single userBarIndex system
  obtain ⟨bar', mappings', second⟩ := single dmaBarIndex
    { system with bar, mappings }
  rw [mapBars, first, second]
  exact ⟨_, _, _, _, rfl⟩

/-- A mapping keeps its place when others are made after it. -/
theorem mapping_append {mappings later : List (Mapping Dev)} {id : Nat}
    {mapping : Mapping Dev} (found : mappings[id]? = some mapping) :
    (mappings ++ later)[id]? = some mapping := by
  rw [List.getElem?_append_left (List.getElem?_eq_some_iff.mp found).1]
  exact found

/-- The mappings the module holds, by BAR. -/
def System.barIds (system : System Dev) : List Nat :=
  (List.finRange xdmaBarNum).filterMap system.bar

theorem System.mem_barIds {system : System Dev} {id : Nat} :
    id ∈ system.barIds ↔ ∃ idx, system.bar idx = some id := by
  simp [barIds]

theorem foldl_unmapBar (dev : Dev) {indices : List (Fin xdmaBarNum)}
    (nodup : indices.Nodup) (system : System Dev) :
    indices.foldl (unmapBar dev) system =
      { system with
        iounmaps := system.iounmaps ++
          (indices.filterMap system.bar).map fun id => (dev, id)
        bar := fun idx => if idx ∈ indices then none else system.bar idx } := by
  induction indices generalizing system with
  | nil => simp
  | cons idx indices induction =>
      obtain ⟨notLater, nodup⟩ := List.nodup_cons.mp nodup
      rw [List.foldl_cons, induction nodup]
      cases held : system.bar idx with
      | none =>
          have cleared : (fun other => if other ∈ indices then none
              else system.bar other) = fun other =>
                if other ∈ idx :: indices then none else system.bar other := by
            funext other
            by_cases here : other = idx
            · subst here
              simp [held]
            · simp [here]
          simp [unmapBar, held, cleared]
      | some id =>
          have later : indices.filterMap (Function.update system.bar idx none) =
              indices.filterMap system.bar := by
            apply List.filterMap_congr
            intro other member
            have different : other ≠ idx := by
              rintro rfl
              exact notLater member
            rw [Function.update_of_ne different]
          have cleared : (fun other => if other ∈ indices then none
              else Function.update system.bar idx none other) = fun other =>
                if other ∈ idx :: indices then none else system.bar other := by
            funext other
            by_cases here : other = idx
            · subst here
              simp
            · simp [here]
          simp [unmapBar, held, later, cleared]

/-- Every mapping held is given up in the name of `dev`. -/
theorem unmapBars_eq (dev : Dev) (system : System Dev) :
    unmapBars dev system =
      { system with
        iounmaps := system.iounmaps ++ system.barIds.map fun id => (dev, id)
        bar := fun _ => none } := by
  rw [unmapBars, foldl_unmapBar dev (List.nodup_finRange xdmaBarNum)]
  simp [System.barIds]

/-! ## Devices -/

section Devices

variable [DecidableEq Dev]

def xpcieProbe (dev : Dev) (calls : ProbeCalls) (system : System Dev) :
    Int × System Dev :=
  let system := { system with xpcieDev := some dev }
  let rc := calls.pciEnableDevice
  if rc ≠ 0 then (rc, system)
  else
    let system := { system with
      enabled := Function.update system.enabled dev (system.enabled dev + 1) }
    let rc := calls.pciRequestRegions
    if rc ≠ 0 then (rc, system)
    else
      let system := { system with
        requested := Function.update system.requested dev true }
      (rc, mapBars dev calls system)

def xpcieRemove (dev : Dev) (system : System Dev) : System Dev :=
  let system := unmapBars dev system
  { system with
    requested := Function.update system.requested dev false
    enabled := Function.update system.enabled dev (system.enabled dev - 1) }

/-- The PCI core offers a device to the driver. -/
def bindDevice (dev : Dev) (calls : ProbeCalls) (system : System Dev) :
    System Dev :=
  let (rc, system) := xpcieProbe dev calls system
  if rc = 0 then
    { system with bound := Function.update system.bound dev true }
  else system

/-- The PCI core takes a device away from the driver. -/
def unbindDevice (system : System Dev) (dev : Dev) : System Dev :=
  let system := xpcieRemove dev system
  { system with bound := Function.update system.bound dev false }

/-- Binding one device leaves the others bound. -/
theorem update_of_bound {bound : Dev → Bool} {dev other : Dev}
    (before : bound other = true) :
    Function.update bound dev true other = true := by
  by_cases same : other = dev
  · rw [same, Function.update_self]
  · rwa [Function.update_of_ne same]

/-- The device is enabled and its regions are requested. -/
def System.prepared (system : System Dev) (dev : Dev) : System Dev :=
  { system with
    xpcieDev := some dev
    enabled := Function.update system.enabled dev (system.enabled dev + 1)
    requested := Function.update system.requested dev true }

/-- A probe is refused at once, refused its regions, or binds the device. -/
theorem bindDevice_cases (dev : Dev) (calls : ProbeCalls)
    (system : System Dev) :
    (calls.pciEnableDevice ≠ 0 ∧
      bindDevice dev calls system = { system with xpcieDev := some dev }) ∨
    (calls.pciEnableDevice = 0 ∧ calls.pciRequestRegions ≠ 0 ∧
      bindDevice dev calls system =
        { system with
          xpcieDev := some dev
          enabled := Function.update system.enabled dev
            (system.enabled dev + 1) }) ∨
    (calls.pciEnableDevice = 0 ∧ calls.pciRequestRegions = 0 ∧
      bindDevice dev calls system =
        { mapBars dev calls (system.prepared dev) with
          bound := Function.update system.bound dev true }) := by
  by_cases enable : calls.pciEnableDevice = 0
  · by_cases regions : calls.pciRequestRegions = 0
    · obtain ⟨_, _, _, _, frame⟩ := mapBars_frame dev calls
        (system.prepared dev)
      refine .inr (.inr ⟨enable, regions, ?_⟩)
      rw [System.prepared] at frame ⊢
      simp [bindDevice, xpcieProbe, enable, regions, frame]
    · exact .inr (.inl ⟨enable, regions, by
        simp [bindDevice, xpcieProbe, enable, regions]⟩)
  · exact .inl ⟨enable, by simp [bindDevice, xpcieProbe, enable]⟩

/-- All that removing a device does. -/
theorem unbindDevice_eq (system : System Dev) (dev : Dev) :
    unbindDevice system dev =
      { system with
        iounmaps := system.iounmaps ++ system.barIds.map fun id => (dev, id)
        bar := fun _ => none
        requested := Function.update system.requested dev false
        enabled := Function.update system.enabled dev
          (system.enabled dev - 1)
        bound := Function.update system.bound dev false } := by
  rw [unbindDevice, xpcieRemove, unmapBars_eq]

theorem bar_unbindDevice (system : System Dev) (dev : Dev) :
    (unbindDevice system dev).bar = fun _ => none := by
  rw [unbindDevice_eq]

end Devices

/-! ## The module -/

/-- What the kernel answers during `xpcie_init`. -/
structure InitCalls where
  pciRegisterDriver : Int
  registerChrdev : Chrdev → Int
  classCreate : Bool
  deviceCreate : Chrdev → Bool

/-- `register_chrdev` with a dynamic major number. -/
def registerChrdev (calls : InitCalls) (chrdev : Chrdev)
    (system : System Dev) : System Dev :=
  { system with
    chrdevs := system.chrdevs ++ [(calls.registerChrdev chrdev, chrdev)]
    major := Function.update system.major chrdev
      (calls.registerChrdev chrdev) }

/-- `device_create`; its result is not looked at. -/
def deviceCreate (calls : InitCalls) (system : System Dev)
    (chrdev : Chrdev) : System Dev :=
  if calls.deviceCreate chrdev then
    { system with
      nodes := system.nodes ++ [(system.major chrdev, chrdev.minor)] }
  else system

def xpcieInit (calls : InitCalls) (system : System Dev) :
    Int × System Dev :=
  if calls.pciRegisterDriver ≠ 0 then (-1, system)
  else
    let system := { system with pciDriver := true }
    if calls.registerChrdev .user < 0 then (-1, system)
    else
      let system := registerChrdev calls .user system
      if calls.registerChrdev .h2c < 0 then (-1, system)
      else
        let system := registerChrdev calls .h2c system
        if calls.registerChrdev .c2h < 0 then (-1, system)
        else
          let system := registerChrdev calls .c2h system
          if ¬calls.classCreate then (-1, system)
          else
            let system := { system with xpcieClass := true }
            (0, [.user, .h2c, .c2h].foldl (deviceCreate calls) system)

theorem xpcieInit_refused {calls : InitCalls}
    (refused : calls.pciRegisterDriver ≠ 0) (system : System Dev) :
    xpcieInit calls system = (-1, system) :=
  if_pos refused

/-- The nodes for which `device_create` succeeds. -/
def createdNodes (calls : InitCalls) : List (Int × Int) :=
  ([Chrdev.user, .h2c, .c2h].filter fun chrdev =>
    calls.deviceCreate chrdev).map fun chrdev =>
      (calls.registerChrdev chrdev, chrdev.minor)

theorem foldl_deviceCreate (calls : InitCalls) (chrdevs : List Chrdev)
    (system : System Dev) :
    chrdevs.foldl (deviceCreate calls) system =
      { system with
        nodes := system.nodes ++
          (chrdevs.filter fun chrdev => calls.deviceCreate chrdev).map
            fun chrdev => (system.major chrdev, chrdev.minor) } := by
  induction chrdevs generalizing system with
  | nil => simp
  | cons chrdev chrdevs induction =>
      rw [List.foldl_cons, induction]
      cases created : calls.deviceCreate chrdev with
      | true => simp [deviceCreate, created]
      | false => simp [deviceCreate, created]

theorem xpcieInit_ok {calls : InitCalls}
    (registered : calls.pciRegisterDriver = 0)
    (chrdevs : ∀ chrdev, 0 ≤ calls.registerChrdev chrdev)
    (created : calls.classCreate = true) (system : System Dev) :
    xpcieInit calls system =
      (0, { system with
        pciDriver := true
        chrdevs := system.chrdevs ++
          [(calls.registerChrdev .user, .user),
            (calls.registerChrdev .h2c, .h2c),
            (calls.registerChrdev .c2h, .c2h)]
        major := calls.registerChrdev
        xpcieClass := true
        nodes := system.nodes ++ createdNodes calls }) := by
  have accepted : ∀ chrdev, ¬calls.registerChrdev chrdev < 0 :=
    fun chrdev => Int.not_lt.mpr (chrdevs chrdev)
  have major : Function.update (Function.update (Function.update system.major
      .user (calls.registerChrdev .user)) .h2c (calls.registerChrdev .h2c))
        .c2h (calls.registerChrdev .c2h) = calls.registerChrdev := by
    funext chrdev
    cases chrdev <;> rfl
  simp only [xpcieInit, registered, ne_eq, not_true, if_false, accepted,
    created, registerChrdev, foldl_deviceCreate, major, createdNodes]
  simp

/-- Initialisation touches neither devices nor mappings. -/
theorem xpcieInit_frame (calls : InitCalls) (system : System Dev) :
    ∃ pciDriver chrdevs major xpcieClass nodes,
      (xpcieInit calls system).2 =
        { system with pciDriver, chrdevs, major, xpcieClass, nodes } := by
  unfold xpcieInit
  split
  · exact ⟨_, _, _, _, _, rfl⟩
  · dsimp only
    split
    · exact ⟨_, _, _, _, _, rfl⟩
    · split
      · exact ⟨_, _, _, _, _, rfl⟩
      · split
        · exact ⟨_, _, _, _, _, rfl⟩
        · split
          · exact ⟨_, _, _, _, _, rfl⟩
          · rw [foldl_deviceCreate]
            exact ⟨_, _, _, _, _, rfl⟩

/-- The kernel loads a fresh image of the module and initialises it. -/
def loadModule (calls : InitCalls) (system : System Dev) : System Dev :=
  let (rc, system) := xpcieInit calls
    { system with
      xpcieDev := none
      bar := fun _ => none
      engineRegsH2c := .null
      engineSgdmaRegs := .null
      major := fun _ => 0 }
  { system with loaded := decide (rc = 0) }

def deviceDestroy (system : System Dev) (chrdev : Chrdev) : System Dev :=
  { system with
    nodes := system.nodes.filter
      (· ≠ (system.major chrdev, chrdev.minor)) }

def unregisterChrdev (system : System Dev) (chrdev : Chrdev) : System Dev :=
  { system with
    chrdevs := system.chrdevs.filter
      (· ≠ (system.major chrdev, chrdev)) }

section Unload

variable [DecidableEq Dev]

/-- The kernel's `pci_unregister_driver`: it unbinds the devices, in the
order given, and forgets the driver. -/
def pciUnregisterDriver (order : List Dev) (system : System Dev) :
    System Dev :=
  { order.foldl unbindDevice system with pciDriver := false }

theorem unbindAll_frame (order : List Dev) (system : System Dev) :
    ∃ bar iounmaps requested enabled bound,
      order.foldl unbindDevice system =
        { system with bar, iounmaps, requested, enabled, bound } := by
  induction order generalizing system with
  | nil => exact ⟨_, _, _, _, _, rfl⟩
  | cons dev order induction =>
      rw [List.foldl_cons, unbindDevice_eq]
      obtain ⟨_, _, _, _, _, frame⟩ := induction _
      rw [frame]
      exact ⟨_, _, _, _, _, rfl⟩

theorem bound_unbindAll {system : System Dev} {order : List Dev} {dev : Dev}
    (bound : (order.foldl unbindDevice system).bound dev = true) :
    system.bound dev = true ∧ dev ∉ order := by
  induction order generalizing system with
  | nil => exact ⟨bound, List.not_mem_nil⟩
  | cons first rest induction =>
      obtain ⟨before, notLater⟩ := induction bound
      rw [unbindDevice_eq] at before
      dsimp only at before
      by_cases same : dev = first
      · subst same
        rw [Function.update_self] at before
        cases before
      · rw [Function.update_of_ne same] at before
        rw [List.mem_cons, not_or]
        exact ⟨before, same, notLater⟩

/-- Once every bound device has been named, none is bound. -/
theorem unbound_unbindAll {system : System Dev} {order : List Dev}
    (complete : ∀ dev, dev ∈ order ↔ system.bound dev = true) (dev : Dev) :
    (order.foldl unbindDevice system).bound dev = false := by
  rw [← Bool.not_eq_true]
  intro bound
  obtain ⟨before, notListed⟩ := bound_unbindAll bound
  exact notListed ((complete dev).mpr before)

def xpcieExit (order : List Dev) (system : System Dev) : System Dev :=
  let system := [.user, .h2c, .c2h].foldl deviceDestroy system
  let system := { system with xpcieClass := false }
  let system := [.user, .h2c, .c2h].foldl unregisterChrdev system
  pciUnregisterDriver order system

def unloadModule (order : List Dev) (system : System Dev) : System Dev :=
  { xpcieExit order system with loaded := false }

/-- Unloading takes the registrations back and unbinds the devices. -/
theorem unloadModule_frame (order : List Dev) (system : System Dev) :
    ∃ chrdevs nodes, unloadModule order system =
      { order.foldl unbindDevice
          { system with
            chrdevs
            nodes
            xpcieClass := false } with
        pciDriver := false
        loaded := false } := by
  simp only [unloadModule, xpcieExit, pciUnregisterDriver, List.foldl_cons,
    List.foldl_nil, deviceDestroy, unregisterChrdev]
  exact ⟨_, _, rfl⟩

/-! ## Callbacks -/

/-- A call of the kernel into the module. -/
inductive Callback (Dev : Type) where
  | init (calls : InitCalls)
  | exit (order : List Dev)
  | probe (dev : Dev) (calls : ProbeCalls)
  | remove (dev : Dev)

def Callback.run (system : System Dev) : Callback Dev → System Dev
  | .init calls => loadModule calls system
  | .exit order => unloadModule order system
  | .probe dev calls => bindDevice dev calls system
  | .remove dev => unbindDevice system dev

end Unload

/-- The kernel makes this call in this state.  On exit `order` names the
bound devices, in the order in which they are unbound. -/
def Callback.Admitted (system : System Dev) : Callback Dev → Prop
  | .init _ => system.loaded = false
  | .exit order => system.loaded = true ∧ order.Nodup ∧
      ∀ dev, dev ∈ order ↔ system.bound dev = true
  | .probe dev _ => system.pciDriver = true ∧ system.bound dev = false
  | .remove dev => system.bound dev = true

/-! ## A kernel that grants everything -/

def grantedInit : InitCalls :=
  { pciRegisterDriver := 0
    registerChrdev := fun chrdev =>
      match chrdev with
      | .user => 240
      | .h2c => 241
      | .c2h => 242
    classCreate := true
    deviceCreate := fun _ => true }

def grantedProbe : ProbeCalls :=
  { pciEnableDevice := 0
    pciRequestRegions := 0
    barLen := fun _ => 65536
    pciIomap := fun _ => true }

end Xpcie
