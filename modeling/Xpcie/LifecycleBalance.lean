import Xpcie.Lifecycle
import Xpcie.Library.Runs

/-!
# Balance over the life of the module

Mappings, enablement, regions and registrations are given back in the same
measure as they are taken, as long as no callback takes one of the paths on
which the driver loses track of them.
-/

namespace Xpcie

open Runs

variable {Dev : Type}

/-! ## What balance means -/

/-- Mappings whose device is gone were unmapped, once and with that device. -/
structure MappingsReturned (system : System Dev) : Prop where
  once : (system.iounmaps.map Prod.snd).Nodup
  owner : ∀ call ∈ system.iounmaps,
    ∃ mapping, system.mappings[call.2]? = some mapping ∧
      mapping.dev = call.1
  returned : ∀ (id : Nat) mapping, system.mappings[id]? = some mapping →
    system.bound mapping.dev = false → (mapping.dev, id) ∈ system.iounmaps

/-- Nothing is enabled, requested or mapped. -/
structure NothingHeld (system : System Dev) : Prop where
  enabled : ∀ dev, system.enabled dev = 0
  requested : ∀ dev, system.requested dev = false
  mapped : ∀ (id : Nat) mapping, system.mappings[id]? = some mapping →
    id ∈ system.iounmaps.map Prod.snd

structure NothingRegistered (system : System Dev) : Prop where
  pciDriver : system.pciDriver = false
  chrdevs : system.chrdevs = []
  xpcieClass : system.xpcieClass = false
  nodes : system.nodes = []

/-- Enablement, region ownership and mappings are the same. -/
structure SameHoldings (before after : System Dev) : Prop where
  enabled : after.enabled = before.enabled
  requested : after.requested = before.requested
  mappings : after.mappings = before.mappings
  iounmaps : after.iounmaps = before.iounmaps

/-- All mappings the module holds belong to the device. -/
def HoldsOnly (system : System Dev) (dev : Dev) : Prop :=
  ∀ idx id mapping, system.bar idx = some id →
    system.mappings[id]? = some mapping → mapping.dev = dev

section Balance

variable [DecidableEq Dev]

/-- The balance after one callback. -/
structure Balanced (system : System Dev) (callback : Callback Dev) :
    Prop where
  returned : MappingsReturned (callback.run system)
  idle : (∀ dev, (callback.run system).bound dev = false) →
    NothingHeld (callback.run system)
  failedProbe : ∀ dev calls, callback = .probe dev calls →
    (xpcieProbe dev calls system).1 ≠ 0 →
      SameHoldings system (callback.run system)
  failedInit : ∀ calls, callback = .init calls →
    (callback.run system).loaded = false →
      NothingRegistered (callback.run system)
  exited : ∀ order, callback = .exit order →
    NothingRegistered (callback.run system)

/-! ## The paths that keep it -/

/-- The callback stays off the paths on which the driver loses track: an
initialisation that fails half-way, a probe refused its regions or about to
overwrite a mapping, a removal that finds mappings of another device. -/
def Callback.KeepsTrack (system : System Dev) : Callback Dev → Prop
  | .init calls => calls.pciRegisterDriver ≠ 0 ∨
      (∀ chrdev, 0 ≤ calls.registerChrdev chrdev) ∧ calls.classCreate = true
  | .exit order => ∀ dev rest, order = dev :: rest → HoldsOnly system dev
  | .probe _ calls => calls.pciEnableDevice ≠ 0 ∨
      calls.pciRequestRegions = 0 ∧
        ∀ idx, calls.barLen idx ≠ 0 → system.bar idx = none
  | .remove dev => HoldsOnly system dev

end Balance

/-! ## Mappings -/

/-- The module holds exactly the mappings not yet unmapped, each in one place
and for a device that `holder` admits. -/
structure BarsTracked (holder : Dev → Prop) (system : System Dev) :
    Prop where
  held : ∀ idx id, system.bar idx = some id →
    id ∉ system.iounmaps.map Prod.snd ∧
      ∃ mapping, system.mappings[id]? = some mapping ∧ holder mapping.dev
  apart : ∀ idx idx' id, system.bar idx = some id →
    system.bar idx' = some id → idx = idx'
  kept : ∀ (id : Nat) mapping, system.mappings[id]? = some mapping →
    id ∉ system.iounmaps.map Prod.snd → ∃ idx, system.bar idx = some id
  once : (system.iounmaps.map Prod.snd).Nodup
  owner : ∀ call ∈ system.iounmaps,
    ∃ mapping, system.mappings[call.2]? = some mapping ∧
      mapping.dev = call.1

section Bars

variable {holder : Dev → Prop} {system : System Dev}

/-- Only the mappings and the places that hold them matter. -/
theorem BarsTracked.congr {other : System Dev}
    (tracked : BarsTracked holder system) (bar : other.bar = system.bar)
    (mappings : other.mappings = system.mappings)
    (iounmaps : other.iounmaps = system.iounmaps) :
    BarsTracked holder other := by
  obtain ⟨held, apart, kept, once, owner⟩ := tracked
  constructor
  · rw [bar, mappings, iounmaps]
    exact held
  · rw [bar]
    exact apart
  · rw [bar, mappings, iounmaps]
    exact kept
  · rw [iounmaps]
    exact once
  · rw [mappings, iounmaps]
    exact owner

theorem BarsTracked.mono {wider : Dev → Prop}
    (tracked : BarsTracked holder system)
    (implies : ∀ dev, holder dev → wider dev) :
    BarsTracked wider system where
  held := by
    intro idx id place
    obtain ⟨mapped, mapping, found, holds⟩ := tracked.held idx id place
    exact ⟨mapped, mapping, found, implies mapping.dev holds⟩
  apart := tracked.apart
  kept := tracked.kept
  once := tracked.once
  owner := tracked.owner

/-- A mapping put into a place that was empty stays in sight. -/
theorem BarsTracked.mapSingleBar {dev : Dev} {calls : ProbeCalls}
    {idx : Fin xdmaBarNum} (tracked : BarsTracked holder system)
    (holds : holder dev)
    (empty : calls.barLen idx ≠ 0 → system.bar idx = none) :
    BarsTracked holder (mapSingleBar dev calls idx system).2 := by
  rcases mapSingleBar_cases dev calls idx system with
    ⟨_, same⟩ | ⟨present, _, failed⟩ | ⟨present, _, added⟩
  · rw [same]
    exact tracked
  · rw [failed]
    refine tracked.congr ?_ rfl rfl
    dsimp only
    rw [← empty present, Function.update_eq_self]
  · have fresh : system.mappings.length ∉ system.iounmaps.map Prod.snd := by
      intro member
      obtain ⟨call, called, same⟩ := List.mem_map.mp member
      obtain ⟨mapping, found, _⟩ := tracked.owner call called
      have inside := (List.getElem?_eq_some_iff.mp found).1
      omega
    have older : ∀ other id, system.bar other = some id →
        id < system.mappings.length := by
      intro other id place
      obtain ⟨_, mapping, found, _⟩ := tracked.held other id place
      exact (List.getElem?_eq_some_iff.mp found).1
    rw [added]
    constructor
    · intro other id place
      dsimp only at place ⊢
      by_cases here : other = idx
      · subst here
        rw [Function.update_self] at place
        cases place
        exact ⟨fresh, _, List.getElem?_concat_length, holds⟩
      · rw [Function.update_of_ne here] at place
        obtain ⟨mapped, mapping, found, held⟩ := tracked.held other id place
        exact ⟨mapped, mapping, mapping_append found, held⟩
    · intro first second id firstPlace secondPlace
      dsimp only at firstPlace secondPlace
      by_cases firstHere : first = idx
      · by_cases secondHere : second = idx
        · rw [firstHere, secondHere]
        · rw [firstHere, Function.update_self] at firstPlace
          rw [Function.update_of_ne secondHere] at secondPlace
          cases firstPlace
          exact absurd (older second _ secondPlace) (Nat.lt_irrefl _)
      · rw [Function.update_of_ne firstHere] at firstPlace
        by_cases secondHere : second = idx
        · rw [secondHere, Function.update_self] at secondPlace
          cases secondPlace
          exact absurd (older first _ firstPlace) (Nat.lt_irrefl _)
        · rw [Function.update_of_ne secondHere] at secondPlace
          exact tracked.apart first second id firstPlace secondPlace
    · intro id mapping found mapped
      dsimp only at found mapped ⊢
      rcases Nat.lt_or_ge id system.mappings.length with old | new
      · rw [List.getElem?_append_left old] at found
        obtain ⟨place, held⟩ := tracked.kept id mapping found mapped
        have elsewhere : place ≠ idx := by
          rintro rfl
          rw [empty present] at held
          cases held
        exact ⟨place, by rw [Function.update_of_ne elsewhere, held]⟩
      · have last := (List.getElem?_eq_some_iff.mp found).1
        simp only [List.length_append, List.length_singleton] at last
        obtain rfl : id = system.mappings.length := by omega
        exact ⟨idx, Function.update_self ..⟩
    · exact tracked.once
    · intro call called
      obtain ⟨mapping, found, owned⟩ := tracked.owner call called
      exact ⟨mapping, mapping_append found, owned⟩

theorem BarsTracked.mapBars {dev : Dev} {calls : ProbeCalls}
    (tracked : BarsTracked holder system) (holds : holder dev)
    (empty : ∀ idx, calls.barLen idx ≠ 0 → system.bar idx = none) :
    BarsTracked holder (mapBars dev calls system) := by
  have first := tracked.mapSingleBar holds (empty userBarIndex)
  have untouched := (mapSingleBar_user dev calls system).1
  have second := first.mapSingleBar holds
    (fun present => untouched.trans (empty dmaBarIndex present))
  exact second.congr rfl rfl rfl

/-- Giving up every mapping in the name of its own device. -/
theorem BarsTracked.unmapBars {dev : Dev}
    (tracked : BarsTracked holder system) (own : HoldsOnly system dev)
    (anyone : Dev → Prop) :
    BarsTracked anyone (unmapBars dev system) := by
  have ids : (system.iounmaps ++ system.barIds.map fun id =>
      (dev, id)).map Prod.snd =
        system.iounmaps.map Prod.snd ++ system.barIds := by
    simp [Function.comp_def]
  rw [unmapBars_eq]
  constructor
  · intro idx id place
    cases place
  · intro idx idx' id place
    cases place
  · intro id mapping found mapped
    dsimp only at found mapped
    rw [ids, List.mem_append, not_or] at mapped
    exact absurd (System.mem_barIds.mpr
      (tracked.kept id mapping found mapped.1)) mapped.2
  · dsimp only
    rw [ids]
    refine tracked.once.append ?_ ?_
    · exact (List.nodup_finRange xdmaBarNum).filterMap
        fun idx idx' id place place' => tracked.apart idx idx' id place place'
    · intro id mapped member
      obtain ⟨idx, place⟩ := System.mem_barIds.mp member
      exact (tracked.held idx id place).1 mapped
  · intro call called
    rcases List.mem_append.mp called with earlier | now
    · exact tracked.owner call earlier
    · obtain ⟨id, member, rfl⟩ := List.mem_map.mp now
      obtain ⟨idx, place⟩ := System.mem_barIds.mp member
      obtain ⟨_, mapping, found, _⟩ := tracked.held idx id place
      exact ⟨mapping, found, own idx id mapping place found⟩

end Bars

/-! ## Devices -/

section Devices

variable {system : System Dev}

/-- Exactly the bound devices hold something. -/
structure DevicesTracked (system : System Dev) : Prop where
  bars : BarsTracked (fun dev => system.bound dev = true) system
  enabled : ∀ dev, system.enabled dev = (system.bound dev).toNat
  requested : ∀ dev, system.requested dev = system.bound dev

theorem DevicesTracked.returned (tracked : DevicesTracked system) :
    MappingsReturned system where
  once := tracked.bars.once
  owner := tracked.bars.owner
  returned := by
    intro id mapping found unbound
    by_cases mapped : id ∈ system.iounmaps.map Prod.snd
    · obtain ⟨call, called, rfl⟩ := List.mem_map.mp mapped
      obtain ⟨same, found', owned⟩ := tracked.bars.owner call called
      rw [found] at found'
      cases found'
      rw [owned]
      exact called
    · obtain ⟨idx, place⟩ := tracked.bars.kept id mapping found mapped
      obtain ⟨_, same, found', bound⟩ := tracked.bars.held idx id place
      rw [found] at found'
      cases found'
      rw [unbound] at bound
      cases bound

theorem DevicesTracked.idle (tracked : DevicesTracked system)
    (unbound : ∀ dev, system.bound dev = false) : NothingHeld system where
  enabled := by
    intro dev
    rw [tracked.enabled, unbound]
    rfl
  requested := by
    intro dev
    rw [tracked.requested, unbound]
  mapped := by
    intro id mapping found
    exact List.mem_map.mpr ⟨_, tracked.returned.returned id mapping found
      (unbound mapping.dev), rfl⟩

theorem DevicesTracked.congr {other : System Dev}
    (tracked : DevicesTracked system) (bar : other.bar = system.bar)
    (mappings : other.mappings = system.mappings)
    (iounmaps : other.iounmaps = system.iounmaps)
    (bound : other.bound = system.bound)
    (enabled : other.enabled = system.enabled)
    (requested : other.requested = system.requested) :
    DevicesTracked other where
  bars := by
    rw [bound]
    exact tracked.bars.congr bar mappings iounmaps
  enabled := by
    rw [bound, enabled]
    exact tracked.enabled
  requested := by
    rw [bound, requested]
    exact tracked.requested

variable [DecidableEq Dev]

theorem DevicesTracked.unbindDevice {dev : Dev}
    (tracked : DevicesTracked system) (own : HoldsOnly system dev) :
    DevicesTracked (unbindDevice system dev) where
  bars := by
    have bars := tracked.bars.unmapBars own fun other =>
      Function.update system.bound dev false other = true
    rw [unmapBars_eq] at bars
    rw [unbindDevice_eq]
    exact bars.congr rfl rfl rfl
  enabled := by
    intro other
    rw [unbindDevice_eq]
    dsimp only
    by_cases same : other = dev
    · subst same
      rw [Function.update_self, Function.update_self, tracked.enabled]
      cases system.bound other <;> rfl
    · rw [Function.update_of_ne same, Function.update_of_ne same,
        tracked.enabled]
  requested := by
    intro other
    rw [unbindDevice_eq]
    dsimp only
    rw [funext tracked.requested]

theorem DevicesTracked.bindDevice {dev : Dev} {calls : ProbeCalls}
    (tracked : DevicesTracked system) (unbound : system.bound dev = false)
    (keeps : (Callback.probe dev calls).KeepsTrack system) :
    DevicesTracked (bindDevice dev calls system) := by
  rcases bindDevice_cases dev calls system with
    ⟨_, result⟩ | ⟨enable, regions, _⟩ | ⟨enable, _, result⟩
  · rw [result]
    exact tracked.congr rfl rfl rfl rfl rfl rfl
  · rcases keeps with refused | ⟨granted, _⟩
    · exact absurd enable refused
    · exact absurd granted regions
  · have empty : ∀ idx, calls.barLen idx ≠ 0 → system.bar idx = none := by
      rcases keeps with refused | ⟨_, empty⟩
      · exact absurd enable refused
      · exact empty
    have widened : BarsTracked
        (fun other => Function.update system.bound dev true other = true)
        system := tracked.bars.mono fun _ => update_of_bound
    have ready : BarsTracked
        (fun other => Function.update system.bound dev true other = true)
        (system.prepared dev) := widened.congr rfl rfl rfl
    have mapped := ready.mapBars
      (Function.update_self dev true system.bound) empty
    obtain ⟨_, _, _, _, frame⟩ := mapBars_frame dev calls
      (system.prepared dev)
    rw [frame] at mapped
    rw [result, frame]
    constructor
    · exact mapped.congr rfl rfl rfl
    · intro other
      change Function.update system.enabled dev (system.enabled dev + 1)
        other = (Function.update system.bound dev true other).toNat
      by_cases same : other = dev
      · subst same
        rw [Function.update_self, Function.update_self, tracked.enabled,
          unbound]
        rfl
      · rw [Function.update_of_ne same, Function.update_of_ne same,
          tracked.enabled]
    · intro other
      change Function.update system.requested dev true other =
        Function.update system.bound dev true other
      rw [funext tracked.requested]

theorem holdsOnly_unbindDevice (system : System Dev) (dev other : Dev) :
    HoldsOnly (unbindDevice system dev) other := by
  intro idx id mapping place
  rw [bar_unbindDevice] at place
  cases place

/-- Unbinding device after device keeps track when the first removal does. -/
theorem DevicesTracked.unbindAll {order : List Dev}
    (tracked : DevicesTracked system)
    (own : ∀ dev rest, order = dev :: rest → HoldsOnly system dev) :
    DevicesTracked (order.foldl Xpcie.unbindDevice system) := by
  induction order generalizing system with
  | nil => exact tracked
  | cons dev rest induction =>
      exact induction (tracked.unbindDevice (own dev rest rfl))
        fun next _ _ => holdsOnly_unbindDevice system dev next

end Devices

/-! ## The whole system -/

section System

variable {system : System Dev}

/-- The devices are tracked, and a module is registered whole or not at
all. -/
structure Tracked (system : System Dev) : Prop
    extends DevicesTracked system where
  driver : ∀ dev, system.bound dev = true → system.pciDriver = true
  unloaded : system.loaded = false → NothingRegistered system
  chrdevs : system.loaded = true → system.chrdevs =
    [(system.major .user, .user), (system.major .h2c, .h2c),
      (system.major .c2h, .c2h)]
  nodes : system.loaded = true → ∀ node ∈ system.nodes,
    ∃ chrdev, node = (system.major chrdev, Chrdev.minor chrdev)

theorem tracked_initial : Tracked (System.initial Dev) where
  bars :=
    { held := fun _ _ place => nomatch place
      apart := fun _ _ _ place => nomatch place
      kept := fun _ _ found => nomatch found
      once := List.nodup_nil
      owner := fun _ called => nomatch called }
  enabled := fun _ => rfl
  requested := fun _ => rfl
  driver := fun _ bound => nomatch bound
  unloaded := fun _ => ⟨rfl, rfl, rfl, rfl⟩
  chrdevs := fun loaded => nomatch loaded
  nodes := fun loaded => nomatch loaded

/-- Without a driver no device is bound, and the module holds no mapping. -/
theorem Tracked.unloaded_bars (tracked : Tracked system)
    (unloaded : system.loaded = false) :
    (∀ dev, system.bound dev = false) ∧ system.bar = fun _ => none := by
  have unbound : ∀ dev, system.bound dev = false := by
    intro dev
    rw [← Bool.not_eq_true]
    intro bound
    have driver := tracked.driver dev bound
    rw [(tracked.unloaded unloaded).pciDriver] at driver
    cases driver
  refine ⟨unbound, ?_⟩
  funext idx
  cases place : system.bar idx with
  | none => rfl
  | some id =>
      obtain ⟨_, mapping, _, bound⟩ := tracked.bars.held idx id place
      rw [unbound] at bound
      cases bound

theorem Tracked.loadModule {calls : InitCalls} (tracked : Tracked system)
    (unloaded : system.loaded = false)
    (keeps : calls.pciRegisterDriver ≠ 0 ∨
      (∀ chrdev, 0 ≤ calls.registerChrdev chrdev) ∧
        calls.classCreate = true) :
    Tracked (loadModule calls system) := by
  obtain ⟨unbound, empty⟩ := tracked.unloaded_bars unloaded
  obtain ⟨noDriver, noChrdevs, noClass, noNodes⟩ := tracked.unloaded unloaded
  by_cases registered : calls.pciRegisterDriver = 0
  · obtain ⟨chrdevs, created⟩ : (∀ chrdev,
        0 ≤ calls.registerChrdev chrdev) ∧ calls.classCreate = true := by
      rcases keeps with refused | granted
      · exact absurd registered refused
      · exact granted
    rw [Xpcie.loadModule, xpcieInit_ok registered chrdevs created]
    constructor
    · exact tracked.toDevicesTracked.congr empty.symm rfl rfl rfl rfl rfl
    · intro dev bound
      rfl
    · intro failed
      cases failed
    · intro loaded
      simp [noChrdevs]
    · intro loaded node member
      simp only [noNodes, List.nil_append, createdNodes] at member
      obtain ⟨chrdev, _, rfl⟩ := List.mem_map.mp member
      exact ⟨chrdev, rfl⟩
  · rw [Xpcie.loadModule, xpcieInit_refused registered]
    constructor
    · exact tracked.toDevicesTracked.congr empty.symm rfl rfl rfl rfl rfl
    · intro dev bound
      rw [unbound] at bound
      cases bound
    · intro _
      exact ⟨noDriver, noChrdevs, noClass, noNodes⟩
    · intro loaded
      cases loaded
    · intro loaded
      cases loaded

variable [DecidableEq Dev]

/-- The nodes and numbers that `xpcie_exit` gives back are all there are. -/
theorem Tracked.unloadModule_eq (tracked : Tracked system)
    (loaded : system.loaded = true) (order : List Dev) :
    unloadModule order system =
      { order.foldl unbindDevice
          { system with
            nodes := []
            xpcieClass := false
            chrdevs := [] } with
        pciDriver := false
        loaded := false } := by
  have noNodes : (((system.nodes.filter
      (· ≠ (system.major .user, Chrdev.minor .user))).filter
        (· ≠ (system.major .h2c, Chrdev.minor .h2c))).filter
          (· ≠ (system.major .c2h, Chrdev.minor .c2h))) = [] := by
    rw [List.filter_filter, List.filter_filter, List.filter_eq_nil_iff]
    intro node member
    obtain ⟨chrdev, rfl⟩ := tracked.nodes loaded node member
    cases chrdev <;> simp
  have noChrdevs : (((system.chrdevs.filter
      (· ≠ (system.major .user, Chrdev.user))).filter
        (· ≠ (system.major .h2c, Chrdev.h2c))).filter
          (· ≠ (system.major .c2h, Chrdev.c2h))) = [] := by
    rw [tracked.chrdevs loaded]
    simp
  simp only [Xpcie.unloadModule, xpcieExit, pciUnregisterDriver,
    List.foldl_cons, List.foldl_nil, deviceDestroy, unregisterChrdev,
    noNodes, noChrdevs]

/-- On exit nothing stays registered and every device is given up. -/
theorem Tracked.unloadModule {order : List Dev} (tracked : Tracked system)
    (loaded : system.loaded = true)
    (complete : ∀ dev, dev ∈ order ↔ system.bound dev = true)
    (own : ∀ dev rest, order = dev :: rest → HoldsOnly system dev) :
    Tracked (unloadModule order system) ∧
      NothingRegistered (unloadModule order system) := by
  rw [tracked.unloadModule_eq loaded order]
  let unregistered : System Dev :=
    { system with
      nodes := []
      xpcieClass := false
      chrdevs := [] }
  have before : DevicesTracked unregistered :=
    tracked.toDevicesTracked.congr rfl rfl rfl rfl rfl rfl
  have devices := before.unbindAll own
  have nobody : ∀ dev,
      (order.foldl Xpcie.unbindDevice unregistered).bound dev = false :=
    unbound_unbindAll complete
  obtain ⟨_, _, _, _, _, frame⟩ := unbindAll_frame order unregistered
  have nothing : NothingRegistered
      { order.foldl Xpcie.unbindDevice unregistered with
        pciDriver := false
        loaded := false } := by
    rw [frame]
    exact ⟨rfl, rfl, rfl, rfl⟩
  refine ⟨?_, nothing⟩
  constructor
  · exact devices.congr rfl rfl rfl rfl rfl rfl
  · intro dev still
    rw [nobody dev] at still
    cases still
  · intro _
    exact nothing
  · intro still
    cases still
  · intro still
    cases still

theorem Tracked.bindDevice {dev : Dev} {calls : ProbeCalls}
    (tracked : Tracked system) (registered : system.pciDriver = true)
    (unbound : system.bound dev = false)
    (keeps : (Callback.probe dev calls).KeepsTrack system) :
    Tracked (bindDevice dev calls system) := by
  have devices := tracked.toDevicesTracked.bindDevice unbound keeps
  have frame : ∃ xpcieDev bar mappings engineRegsH2c engineSgdmaRegs enabled
      requested bound, Xpcie.bindDevice dev calls system =
        { system with xpcieDev, bar, mappings, engineRegsH2c,
                      engineSgdmaRegs, enabled, requested, bound } := by
    rcases bindDevice_cases dev calls system with
      ⟨_, result⟩ | ⟨_, _, result⟩ | ⟨_, _, result⟩
    · exact ⟨_, _, _, _, _, _, _, _, result⟩
    · exact ⟨_, _, _, _, _, _, _, _, result⟩
    · obtain ⟨_, _, _, _, mapped⟩ := mapBars_frame dev calls
        (system.prepared dev)
      rw [mapped] at result
      exact ⟨_, _, _, _, _, _, _, _, result⟩
  obtain ⟨_, _, _, _, _, _, _, _, frame⟩ := frame
  refine ⟨devices, ?_, ?_, ?_, ?_⟩
  · intro other _
    rw [frame]
    exact registered
  · intro unloaded
    rw [frame] at unloaded
    have nothing := (tracked.unloaded unloaded).pciDriver
    rw [registered] at nothing
    cases nothing
  · rw [frame]
    exact tracked.chrdevs
  · rw [frame]
    exact tracked.nodes

theorem Tracked.unbindDevice {dev : Dev} (tracked : Tracked system)
    (own : HoldsOnly system dev) : Tracked (unbindDevice system dev) := by
  refine ⟨tracked.toDevicesTracked.unbindDevice own, ?_, ?_, ?_, ?_⟩
  · intro other bound
    rw [unbindDevice_eq] at bound ⊢
    dsimp only at bound ⊢
    by_cases same : other = dev
    · rw [same, Function.update_self] at bound
      cases bound
    · rw [Function.update_of_ne same] at bound
      exact tracked.driver other bound
  · intro unloaded
    rw [unbindDevice_eq] at unloaded ⊢
    obtain ⟨noDriver, noChrdevs, noClass, noNodes⟩ :=
      tracked.unloaded unloaded
    exact ⟨noDriver, noChrdevs, noClass, noNodes⟩
  · rw [unbindDevice_eq]
    exact tracked.chrdevs
  · rw [unbindDevice_eq]
    exact tracked.nodes

/-- A probe that keeps track and returns an error was refused at once. -/
theorem failedProbe_sameHoldings {dev : Dev} {calls : ProbeCalls}
    (keeps : (Callback.probe dev calls).KeepsTrack system)
    (failed : (xpcieProbe dev calls system).1 ≠ 0) :
    SameHoldings system (Xpcie.bindDevice dev calls system) := by
  rcases bindDevice_cases dev calls system with
    ⟨_, result⟩ | ⟨enable, regions, _⟩ | ⟨enable, regions, _⟩
  · rw [result]
    exact ⟨rfl, rfl, rfl, rfl⟩
  · rcases keeps with refused | ⟨granted, _⟩
    · exact absurd enable refused
    · exact absurd granted regions
  · exact absurd (by simp [xpcieProbe, enable, regions]) failed

theorem Tracked.step {callback : Callback Dev} (tracked : Tracked system)
    (admitted : callback.Admitted system)
    (keeps : callback.KeepsTrack system) :
    Tracked (callback.run system) := by
  cases callback with
  | init calls => exact tracked.loadModule admitted keeps
  | exit order =>
      obtain ⟨loaded, _, complete⟩ := admitted
      exact (tracked.unloadModule loaded complete keeps).1
  | probe dev calls =>
      exact tracked.bindDevice admitted.1 admitted.2 keeps
  | remove dev => exact tracked.unbindDevice keeps

/-- A callback that keeps track is balanced. -/
theorem Tracked.balanced {callback : Callback Dev}
    (tracked : Tracked system) (admitted : callback.Admitted system)
    (keeps : callback.KeepsTrack system) : Balanced system callback := by
  have after := tracked.step admitted keeps
  refine ⟨after.returned, after.idle, ?_, ?_, ?_⟩
  · rintro dev calls rfl failed
    exact failedProbe_sameHoldings keeps failed
  · rintro calls rfl failed
    exact after.unloaded failed
  · rintro order rfl
    obtain ⟨loaded, _, complete⟩ := admitted
    exact (tracked.unloadModule loaded complete keeps).2

end System

/-- In every run whose callbacks keep track, every callback is balanced. -/
theorem lifecycle_balanced [DecidableEq Dev] {callbacks : List (Callback Dev)}
    (admitted : Along Callback.run (fun system callback =>
      callback.Admitted system) (System.initial Dev) callbacks)
    (keeps : Along Callback.run (fun system callback =>
      callback.KeepsTrack system) (System.initial Dev) callbacks) :
    Along Callback.run Balanced (System.initial Dev) callbacks := by
  have tracked := Along.invariant
    (fun _ _ tracked both => Tracked.step tracked both.1 both.2)
    (admitted.and keeps) tracked_initial
  exact tracked.1.mono fun system callback all =>
    all.1.balanced all.2.1 all.2.2

/-! ## Two cards -/

/-- One card is plugged in and pulled, then another one stays until the
module is unloaded. -/
def cardAfterCard : List (Callback Bool) :=
  [.init grantedInit, .probe false grantedProbe, .remove false,
    .probe true grantedProbe, .exit [true]]

theorem lifecycle_balanced_cardAfterCard :
    Along Callback.run Balanced (System.initial Bool) cardAfterCard := by
  have numbers : ∀ chrdev, 0 ≤ grantedInit.registerChrdev chrdev := by
    intro chrdev
    cases chrdev <;> decide
  apply lifecycle_balanced
  · exact ⟨rfl, ⟨rfl, rfl⟩, rfl, ⟨rfl, rfl⟩,
      ⟨rfl, by decide, by decide⟩, trivial⟩
  · refine ⟨.inr ⟨numbers, rfl⟩, .inr ⟨rfl, fun _ _ => rfl⟩,
      Fin.forall_fin_two.mpr ⟨?_, ?_⟩,
      .inr ⟨rfl, fun idx _ => congrFun (bar_unbindDevice _ false) idx⟩, ?_,
      trivial⟩
    · rintro id mapping ⟨⟩ ⟨⟩
      rfl
    · rintro id mapping ⟨⟩ ⟨⟩
      rfl
    · rintro dev rest ⟨⟩
      refine Fin.forall_fin_two.mpr ⟨?_, ?_⟩
      · rintro id mapping ⟨⟩ ⟨⟩
        rfl
      · rintro id mapping ⟨⟩ ⟨⟩
        rfl

/-- A second card's mappings take the place of the first one's in `bar`, and
with the first card they are unmapped as its own. -/
theorem not_lifecycle_balanced_overwritten :
    ¬∀ callbacks : List (Callback Bool),
      Along Callback.run (fun system callback => callback.Admitted system)
        (System.initial Bool) callbacks →
      Along Callback.run Balanced (System.initial Bool) callbacks := by
  intro balanced
  have all := balanced
    [.init grantedInit, .probe false grantedProbe, .probe true grantedProbe,
      .remove false]
    ⟨rfl, ⟨rfl, rfl⟩, ⟨rfl, rfl⟩, rfl, trivial⟩
  have removed := all.2.2.2.1.returned
  obtain ⟨mapping, found, owner⟩ := removed.owner (false, 2) (by decide)
  cases found
  cases owner

end Xpcie
