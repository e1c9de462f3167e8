import Xpcie.HardwareAccess

/-!
# The history of the hardware, step by step

Every request that the kernel may make keeps the history true of the system.
So a run is safe exactly when its history serves each of its requests.
-/

namespace Xpcie

open Runs

variable {Dev : Type}

/-! ## Mappings -/

section Bars

variable {holder : Dev → Prop} {system : System Dev}

/-- Only the mappings and the places that hold them matter. -/
theorem BarsKnown.congr {other : System Dev}
    (known : BarsKnown holder system) (bar : other.bar = system.bar)
    (mappings : other.mappings = system.mappings)
    (iounmaps : other.iounmaps = system.iounmaps) :
    BarsKnown holder other := by
  obtain ⟨held, made⟩ := known
  constructor
  · rw [bar, mappings]
    exact held
  · rw [mappings, iounmaps]
    exact made

theorem BarsKnown.mono {wider : Dev → Prop}
    (known : BarsKnown holder system)
    (implies : ∀ dev, holder dev → wider dev) :
    BarsKnown wider system where
  held := by
    intro idx id place
    obtain ⟨mapping, found, holds⟩ := known.held idx id place
    exact ⟨mapping, found, implies mapping.dev holds⟩
  made := known.made

/-- Forgetting the mappings is no error here. -/
theorem BarsKnown.forget (known : BarsKnown holder system)
    {anyone : Dev → Prop} :
    BarsKnown anyone { system with bar := fun _ => none } where
  held := fun _ _ place => nomatch place
  made := known.made

theorem BarsKnown.mapSingleBar {dev : Dev} (calls : ProbeCalls)
    (idx : Fin xdmaBarNum) (known : BarsKnown holder system)
    (holds : holder dev) :
    BarsKnown holder (mapSingleBar dev calls idx system).2 := by
  obtain ⟨held, made⟩ := known
  rcases mapSingleBar_cases dev calls idx system with
    ⟨_, same⟩ | ⟨_, _, failed⟩ | ⟨_, _, added⟩
  · rw [same]
    exact ⟨held, made⟩
  · rw [failed]
    refine ⟨?_, made⟩
    intro other id place
    dsimp only at place
    by_cases here : other = idx
    · rw [here, Function.update_self] at place
      cases place
    · rw [Function.update_of_ne here] at place
      exact held other id place
  · rw [added]
    constructor
    · intro other id place
      dsimp only at place ⊢
      by_cases here : other = idx
      · rw [here, Function.update_self] at place
        cases place
        exact ⟨_, List.getElem?_concat_length, holds⟩
      · rw [Function.update_of_ne here] at place
        obtain ⟨mapping, found, holds⟩ := held other id place
        exact ⟨mapping, mapping_append found, holds⟩
    · intro id unmapped
      have earlier := made id unmapped
      simp only [List.length_append, List.length_singleton]
      omega

theorem BarsKnown.unmapBars (dev : Dev) (known : BarsKnown holder system)
    {anyone : Dev → Prop} : BarsKnown anyone (unmapBars dev system) := by
  rw [unmapBars_eq]
  constructor
  · intro idx id place
    cases place
  · intro id unmapped
    dsimp only at unmapped ⊢
    rw [List.map_append, List.mem_append] at unmapped
    rcases unmapped with earlier | now
    · exact known.made id earlier
    · obtain ⟨call, called, rfl⟩ := List.mem_map.mp now
      obtain ⟨held, member, rfl⟩ := List.mem_map.mp called
      obtain ⟨idx, place⟩ := System.mem_barIds.mp member
      obtain ⟨mapping, found, _⟩ := known.held idx held place
      exact (List.getElem?_eq_some_iff.mp found).1

theorem BarsKnown.mapBars {dev : Dev} (calls : ProbeCalls)
    (known : BarsKnown holder system) (holds : holder dev) :
    BarsKnown holder (mapBars dev calls system) :=
  ((known.mapSingleBar calls userBarIndex holds).mapSingleBar calls
    dmaBarIndex holds).congr rfl rfl rfl

end Bars

/-! ## The register pointers after a probe -/

theorem pointersSet_mapBars (dev : Dev) (calls : ProbeCalls)
    (system : System Dev) : PointersSet (mapBars dev calls system) :=
  ⟨rfl, rfl, rfl⟩

/-- The pointers of an unbound device lead into the mapping that its probe
makes, or into none of its mappings: what is left in `bar` belongs to a bound
device. -/
theorem pointers_mapBars {system : System Dev} {dev : Dev}
    (calls : ProbeCalls) {holder : Dev → Prop}
    (known : BarsKnown holder system) (stranger : ¬holder dev) :
    match mappedLength calls with
    | some length => PointersLive (mapBars dev calls system) dev length
    | none => PointersDead (mapBars dev calls system) dev := by
  have user := (known.mono fun _ => Or.inl).mapSingleBar calls userBarIndex
    (Or.inr (Eq.refl dev) : holder dev ∨ dev = dev)
  obtain ⟨place, later, mappings⟩ := mapSingleBar_user dev calls system
  rw [mappedLength, mapBars]
  generalize (mapSingleBar dev calls userBarIndex system).2 = middle at *
  rcases mapSingleBar_cases dev calls dmaBarIndex middle with
    ⟨absent, same⟩ | ⟨_, refused, failed⟩ | ⟨present, granted, added⟩
  · rw [if_neg (fun both => both.1 absent), same]
    intro id mapping pointed found own
    dsimp only at pointed found
    rw [place] at pointed
    obtain ⟨older, foundOlder, holds⟩ := known.held dmaBarIndex id pointed
    rw [mappings, mapping_append foundOlder] at found
    cases found
    rw [own] at holds
    exact absurd holds stranger
  · rw [if_neg (fun both => by simp [refused] at both), failed]
    intro id mapping pointed
    dsimp only at pointed
    rw [Function.update_self] at pointed
    cases pointed
  · rw [if_pos ⟨present, granted⟩, added]
    have place : Function.update middle.bar dmaBarIndex
        (some middle.mappings.length) dmaBarIndex =
          some middle.mappings.length := Function.update_self ..
    refine ⟨middle.mappings.length, _, place, place,
      List.getElem?_concat_length, ?_, rfl, rfl, rfl⟩
    intro unmapped
    exact absurd (user.made _ unmapped) (Nat.lt_irrefl _)

/-! ## Each request -/

section Step

variable {system : System Dev} {service : Option (Service Dev)}

theorem describes_initial : Describes (System.initial Dev) none where
  bars :=
    { held := fun _ _ place => nomatch place
      made := fun _ unmapped => nomatch unmapped }
  service := fun _ there => nomatch there.known

/-- A fresh image of the module knows no device. -/
theorem Describes.loadModule (describes : Describes system service)
    (calls : InitCalls) : Describes (loadModule calls system) none := by
  obtain ⟨_, _, _, _, _, frame⟩ := xpcieInit_frame calls
    { system with
      xpcieDev := none
      bar := fun _ => none
      engineRegsH2c := .null
      engineSgdmaRegs := .null
      major := fun _ => 0 }
  rw [Xpcie.loadModule]
  dsimp only
  rw [frame]
  constructor
  · exact describes.bars.forget.congr rfl rfl rfl
  · rintro dev ⟨known, _, _⟩
    cases known

variable [DecidableEq Dev]

theorem BarsKnown.unbindDevice {holder : Dev → Prop}
    (known : BarsKnown holder system) (dev : Dev) {anyone : Dev → Prop} :
    BarsKnown anyone (unbindDevice system dev) := by
  have unmapped : BarsKnown anyone (Xpcie.unmapBars dev system) :=
    known.unmapBars dev
  exact unmapped.congr rfl rfl rfl

theorem BarsKnown.unbindAll (order : List Dev)
    (known : BarsKnown (fun dev => system.bound dev = true) system) :
    BarsKnown
      (fun dev => (order.foldl Xpcie.unbindDevice system).bound dev = true)
      (order.foldl Xpcie.unbindDevice system) := by
  induction order generalizing system with
  | nil => exact known
  | cons dev order induction => exact induction (known.unbindDevice dev)

/-- On exit every device is taken away. -/
theorem Describes.unloadModule (describes : Describes system service)
    {order : List Dev}
    (complete : ∀ dev, dev ∈ order ↔ system.bound dev = true) :
    Describes (unloadModule order system) none := by
  obtain ⟨chrdevs, nodes, result⟩ := unloadModule_frame order system
  let unregistered : System Dev :=
    { system with
      chrdevs
      nodes
      xpcieClass := false }
  have before : BarsKnown (fun dev => unregistered.bound dev = true)
      unregistered := describes.bars.congr rfl rfl rfl
  have known := before.unbindAll order
  rw [result]
  refine ⟨known.congr rfl rfl rfl, ?_⟩
  have nobody : ∀ dev,
      (order.foldl Xpcie.unbindDevice unregistered).bound dev = false :=
    unbound_unbindAll complete
  rintro dev ⟨_, bound, _⟩
  rw [nobody dev] at bound
  cases bound

/-- A probe that succeeds puts its device into service, and one that fails
leaves `xpcie_dev` on a device that is not bound. -/
theorem Describes.bindDevice (describes : Describes system service)
    {dev : Dev} (unbound : system.bound dev = false) (calls : ProbeCalls) :
    Describes (bindDevice dev calls system)
      (serve service (.lifecycle (.probe dev calls))) := by
  have stranger : ¬system.bound dev = true := by
    rw [unbound]
    exact Bool.false_ne_true
  rcases bindDevice_cases dev calls system with
    ⟨refused, result⟩ | ⟨_, refused, result⟩ | ⟨enable, regions, result⟩
  · rw [result, serve, if_neg (fun both => refused both.1)]
    refine ⟨describes.bars.congr rfl rfl rfl, ?_⟩
    rintro other ⟨known, bound, _⟩
    cases known
    exact stranger bound
  · rw [result, serve, if_neg (fun both => refused both.2)]
    refine ⟨describes.bars.congr rfl rfl rfl, ?_⟩
    rintro other ⟨known, bound, _⟩
    cases known
    exact stranger bound
  · have known : BarsKnown (fun other => system.bound other = true)
        (system.prepared dev) := describes.bars.congr rfl rfl rfl
    have widened : BarsKnown
        (fun other => Function.update system.bound dev true other = true)
        (system.prepared dev) := known.mono fun _ => update_of_bound
    have bars := widened.mapBars calls
      (Function.update_self dev true system.bound)
    have set := pointersSet_mapBars dev calls (system.prepared dev)
    have pointers := pointers_mapBars calls known stranger
    obtain ⟨_, _, _, _, frame⟩ := mapBars_frame dev calls
      (system.prepared dev)
    rw [frame] at bars set pointers
    rw [result, frame, serve, if_pos ⟨enable, regions⟩]
    refine ⟨bars.congr rfl rfl rfl, ?_, ⟨set.base, set.engineRegs,
      set.sgdmaRegs⟩, pointers⟩
    refine ⟨rfl, Function.update_self .., ?_⟩
    change 0 < Function.update system.enabled dev (system.enabled dev + 1) dev
    rw [Function.update_self]
    exact Nat.succ_pos _

theorem DeviceThere.unbindDevice {served dev : Dev}
    (there : DeviceThere system served) (other : served ≠ dev) :
    DeviceThere (unbindDevice system dev) served := by
  obtain ⟨known, bound, enabled⟩ := there
  rw [unbindDevice_eq]
  constructor
  · exact known
  · dsimp only
    rw [Function.update_of_ne other]
    exact bound
  · dsimp only
    rw [Function.update_of_ne other]
    exact enabled

theorem PointersSet.unbindDevice (set : PointersSet system) (dev : Dev) :
    PointersSet (unbindDevice system dev) := by
  rw [unbindDevice_eq]
  exact ⟨set.base, set.engineRegs, set.sgdmaRegs⟩

/-- Whichever device is removed, the BARs are unmapped. -/
theorem pointersDead_unbindDevice {served : Dev} {mapped : Option Nat}
    (dev : Dev)
    (pointers : match mapped with
      | some length => PointersLive system served length
      | none => PointersDead system served) :
    PointersDead (unbindDevice system dev) served := by
  rw [unbindDevice_eq]
  intro id mapping pointed found own
  dsimp only at pointed found ⊢
  rw [List.map_append, List.mem_append]
  cases mapped with
  | none => exact .inl (pointers id mapping pointed found own)
  | some length =>
      obtain ⟨id', _, pointed', place, _⟩ := pointers
      rw [pointed] at pointed'
      cases pointed'
      refine .inr (List.mem_map.mpr ⟨(dev, id), ?_, rfl⟩)
      exact List.mem_map.mpr ⟨id, System.mem_barIds.mpr ⟨_, place⟩, rfl⟩

/-- A removal ends the service of its own device and unmaps the BARs of any
other. -/
theorem Describes.unbindDevice (describes : Describes system service)
    (dev : Dev) :
    Describes (unbindDevice system dev)
      (serve service (.lifecycle (.remove dev))) := by
  refine ⟨describes.bars.unbindDevice dev, ?_⟩
  have known := describes.service
  cases service with
  | none =>
      rintro other ⟨same, bound, enabled⟩
      rw [unbindDevice_eq] at same bound enabled
      dsimp only at same bound enabled
      by_cases own : other = dev
      · rw [own, Function.update_self] at bound
        cases bound
      · rw [Function.update_of_ne own] at bound enabled
        exact known other ⟨same, bound, enabled⟩
  | some served =>
      by_cases own : served.dev = dev
      · rw [serve, if_pos own]
        rintro other ⟨same, bound, _⟩
        rw [unbindDevice_eq] at same bound
        dsimp only at same bound
        rw [known.there.known] at same
        cases same
        rw [own, Function.update_self] at bound
        cases bound
      · rw [serve, if_neg own]
        obtain ⟨there, pointers, mapped⟩ := known
        exact ⟨there.unbindDevice own, pointers.unbindDevice dev,
          pointersDead_unbindDevice dev mapped⟩

/-- The history stays true of the system, whatever request comes next. -/
theorem Describes.step (describes : Describes system service)
    {request : Request Dev} (admitted : request.Admitted system) :
    Describes (request.run system) (serve service request) := by
  cases request with
  | lifecycle callback =>
      cases callback with
      | init calls => exact describes.loadModule calls
      | exit order => exact describes.unloadModule admitted.2.2
      | probe dev calls => exact describes.bindDevice admitted.2 calls
      | remove dev => exact describes.unbindDevice dev
  | h2cWrite _ | userMmap | h2cMmap => exact describes

end Step

/-- A run touches the hardware only while it is there exactly when every
`mmap`, and every write that pins its buffer, finds a device in service, and
every write that runs the engine finds BAR 1 mapped up to the last
register. -/
theorem requestsSafe_iff_served [DecidableEq Dev] (host : Endian)
    {requests : List (Request Dev)}
    (admitted : Along Request.run (fun system request =>
      request.Admitted system) (System.initial Dev) requests) :
    Along Request.run (RequestSafe host) (System.initial Dev) requests ↔
      Along serve Served none requests :=
  along_congr
    (fun _ _ _ describes admitted => describes.requestSafe_iff admitted host)
    (fun _ _ _ describes admitted _ => describes.step admitted)
    describes_initial admitted

/-! ## One card -/

/-- A card is plugged in, written to and mapped, and pulled. -/
def cardInUse : List (Request Unit) :=
  [.lifecycle (.init grantedInit), .lifecycle (.probe () grantedProbe),
    .h2cWrite oneByteWrite, .userMmap, .lifecycle (.remove ())]

theorem requestsSafe_iff_served_cardInUse :
    Along Request.run (RequestSafe .little) (System.initial Unit)
      cardInUse := by
  have admitted : Along Request.run (fun system request =>
      request.Admitted system) (System.initial Unit) cardInUse :=
    ⟨rfl, ⟨rfl, rfl⟩, ⟨rfl, by decide, by decide⟩, rfl, rfl, trivial⟩
  have inService : serve (serve none (.lifecycle (.init grantedInit)))
      (.lifecycle (.probe () grantedProbe)) =
        some { dev := (), mapped := some 65536 } := rfl
  refine (requestsSafe_iff_served .little admitted).mpr
    ⟨trivial, trivial, ?_⟩
  rw [inService]
  refine ⟨⟨fun _ => Option.some_ne_none _, fun _ => ?_⟩,
    Option.some_ne_none _, trivial, trivial⟩
  exact ⟨_, 65536, rfl, rfl, by decide⟩

/-- The user device is mapped after the card was pulled. -/
theorem not_requestsSafe_pulled :
    ¬∀ (host : Endian) (requests : List (Request Unit)),
      Along Request.run (fun system request => request.Admitted system)
        (System.initial Unit) requests →
      Along Request.run (RequestSafe host) (System.initial Unit)
        requests := by
  intro safe
  have run := safe .little
    [.lifecycle (.init grantedInit), .lifecycle (.probe () grantedProbe),
      .lifecycle (.remove ()), .userMmap]
    ⟨rfl, ⟨rfl, rfl⟩, rfl, rfl, trivial⟩
  obtain ⟨dev, _, bound, _⟩ := run.2.2.2.1
  cases bound

end Xpcie
