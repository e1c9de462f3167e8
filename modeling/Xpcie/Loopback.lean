import Xpcie.DeviceStore

/-!
# Out to the card and back

The functions that make a descriptor list serve both directions.  A list for
the device gathers the scatterlist's bytes into the card; one from the device
scatters the card's bytes over its scatterlist.  The descriptors lie in
coherent memory, away from the data.
-/

namespace Xpcie

open EffectLog ByteStore

/-- The data an engine reaches: by bus address, and on the card. -/
structure Memories where
  bus : U64 → U8
  card : U64 → U8

/-- The byte moves of one transfer.  What is read and what is written lie on
different sides, so no move meets another's result. -/
def Memories.carry (memories : Memories) (dirToDev : Int)
    (moves : List (U64 × U64)) : Memories :=
  if dirToDev ≠ 0 then
    { memories with
      card := overwrite memories.card
        (moves.map fun move => (move.2, memories.bus move.1)) }
  else
    { memories with
      bus := overwrite memories.bus
        (moves.map fun move => (move.2, memories.card move.1)) }

/-- What a descriptor list is made from. -/
structure TransferRequest where
  sgl : List DmaSegment
  epAddr : U64
  flags : BuildFlags
  grant : Coherent

namespace TransferRequest

/-- The bytes of the scatterlist, in order. -/
def busSpan (request : TransferRequest) : List U64 :=
  request.sgl.flatMap DmaSegment.span

def total (request : TransferRequest) : Nat :=
  groupBytes request.sgl

/-- The list is set up, and the engine follows it to its end. -/
def run (host : Endian) (request : TransferRequest) (memories : Memories) :
    Option Memories :=
  match (h2cDescriptors host (some request.grant) request.sgl request.epAddr
    request.flags).result with
  | .error _ => none
  | .ok (descVirt, descBus, _) =>
      (followChain host (coherentRead descBus descVirt) descVirt.length
        descBus).map (memories.carry request.flags.dirToDev)

/-- A mapped scatterlist, and end-point addresses that follow the data. -/
structure Mapped (request : TransferRequest) : Prop where
  nonempty : request.sgl ≠ []
  positive : ∀ entry ∈ request.sgl, 0 < entry.len.toNat
  small : request.total < 2 ^ 32
  increments : request.flags.Increments

end TransferRequest

/-! ## The list for the other direction -/

section Back

variable (host : Endian) (grant : Coherent) (sgl : List DmaSegment)
  (epAddr : U64) (flags : BuildFlags)

theorem Block.store_copies_back (block : Block) (desc : XdmaDesc) :
    (block.store host 0 desc).copies host = block.copies.map Prod.swap := by
  rw [Block.copies, List.zip_swap]
  simp [Block.store, xdmaDescSet, XdmaDesc.copies, XdmaDesc.source,
    XdmaDesc.destination, XdmaDesc.size]

theorem setUpList_copies_back (fromDevice : flags.dirToDev = 0) :
    ((setUpList host grant sgl epAddr flags).take
        (transferBlocks flags epAddr sgl).length).flatMap
          (XdmaDesc.copies host) =
      ((transferBlocks flags epAddr sgl).flatMap Block.copies).map
        Prod.swap := by
  have each : ((setUpList host grant sgl epAddr flags).take
      (transferBlocks flags epAddr sgl).length).map (XdmaDesc.copies host) =
        (transferBlocks flags epAddr sgl).map fun block =>
          block.copies.map Prod.swap := by
    apply List.ext_getElem?
    intro i
    rw [List.getElem?_map, List.getElem?_map, List.getElem?_take]
    by_cases inside : i < (transferBlocks flags epAddr sgl).length
    · have found := List.getElem?_eq_getElem inside
      rw [if_pos inside, setUpList_getElem? host grant sgl epAddr flags found,
        found, Option.map_some, Option.map_some, setUpDesc, fromDevice,
        Block.store_copies_back]
    · rw [if_neg inside, List.getElem?_eq_none (by omega)]
      rfl
  rw [List.flatMap_def, each, ← List.flatMap_def, List.map_flatMap]

theorem setUpList_followed_back (nonempty : sgl ≠ [])
    (fromDevice : flags.dirToDev = 0) (increments : flags.Increments)
    (small : groupBytes sgl < 2 ^ 32)
    (fits : xdmaDescSize * sgl.length ≤ 2 ^ 64) :
    followChain host
        (coherentRead grant.bus (setUpList host grant sgl epAddr flags))
        (transferBlocks flags epAddr sgl).length grant.bus =
      some ((AddressSpan.span epAddr (groupBytes sgl)).zip
        (sgl.flatMap DmaSegment.span)) := by
  have blocks := transferBlocks_length_pos flags epAddr nonempty
  have chained := setUpList_chained host grant sgl epAddr flags nonempty
  have count : (transferBlocks flags epAddr sgl).length - 1 + 1 =
      (transferBlocks flags epAddr sgl).length := by omega
  have followed := chained.follow (by rw [setUpList_length]; exact fits)
    (Nat.zero_add _)
  have first : descAddr grant.bus 0 = grant.bus := by simp [descAddr]
  rw [count, first, List.drop_zero,
    setUpList_copies_back host grant sgl epAddr flags fromDevice,
    transferBlocks_copies increments epAddr small, List.zip_swap] at followed
  exact followed

end Back

/-! ## One transfer -/

namespace TransferRequest

variable {request : TransferRequest}

theorem Mapped.fits (mapped : request.Mapped) :
    xdmaDescSize * request.sgl.length ≤ 2 ^ 64 := by
  have entries := length_le_groupBytes mapped.positive
  have small := mapped.small
  unfold total at small
  unfold xdmaDescSize
  omega

theorem Mapped.run_eq (mapped : request.Mapped) (host : Endian)
    (memories : Memories) {moves : List (U64 × U64)}
    (followed : followChain host
      (coherentRead request.grant.bus (setUpList host request.grant
        request.sgl request.epAddr request.flags))
      (transferBlocks request.flags request.epAddr request.sgl).length
      request.grant.bus = some moves) :
    request.run host memories =
      some (memories.carry request.flags.dirToDev moves) := by
  have enough := transferBlocks_length_le request.flags request.epAddr
    request.sgl
  rw [run, h2cDescriptors_eq host request.grant request.sgl request.epAddr
    request.flags mapped.nonempty]
  dsimp only
  rw [setUpList_length, followChain_mono followed enough]
  rfl

@[simp] theorem busSpan_length (request : TransferRequest) :
    request.busSpan.length = request.total :=
  span_length_sum request.sgl

/-- What a transfer to the device stores on the card. -/
def gathered (request : TransferRequest) (memories : Memories) :
    Write 64 U8 :=
  { base := request.epAddr
    values := request.busSpan.map memories.bus }

theorem Mapped.run_toDevice (mapped : request.Mapped)
    (toDevice : request.flags.dirToDev ≠ 0) (host : Endian)
    (memories : Memories) :
    request.run host memories =
      some
        { memories with
          card := (request.gathered memories).apply memories.card } := by
  rw [mapped.run_eq host memories
    (setUpList_followed host request.grant request.sgl request.epAddr
      request.flags mapped.nonempty toDevice mapped.increments mapped.small
      mapped.fits), Memories.carry, if_pos toDevice, Write.apply,
    Write.stores, gathered, List.length_map, busSpan_length,
    List.zip_map_right, ← List.zip_swap, List.map_map]
  rfl

theorem Mapped.run_fromDevice (mapped : request.Mapped)
    (fromDevice : request.flags.dirToDev = 0) (host : Endian)
    (memories : Memories) :
    request.run host memories =
      some
        { memories with
          bus := overwrite memories.bus
            (request.busSpan.zip
              ((AddressSpan.span request.epAddr request.total).map
                memories.card)) } := by
  rw [mapped.run_eq host memories
    (setUpList_followed_back host request.grant request.sgl request.epAddr
      request.flags mapped.nonempty fromDevice mapped.increments mapped.small
      mapped.fits), Memories.carry, if_neg (not_not_intro fromDevice),
    List.zip_map_right, ← List.zip_swap, List.map_map]
  rfl

end TransferRequest

/-! ## Both -/

/-- What comes back: the card keeps what it was sent, nothing is written
beside the second scatterlist, and the bytes arrive in order unless two of
them are sent to one place. -/
structure ComesBack (outward back : TransferRequest) (sent : Memories)
    (between : U64 → U8) (final : Memories) : Prop where
  card : final.card = (outward.gathered sent).apply sent.card
  beside : ∀ address ∉ back.busSpan, final.bus address = between address
  arrives : back.busSpan.map final.bus = outward.busSpan.map sent.bus ↔
    Agree back.busSpan (outward.busSpan.map sent.bus)

/-- A buffer that is sent to the card and fetched again, through scatterlists
and descriptor lists that need not resemble each other, is what it was;
whatever becomes of the host's memory in between. -/
theorem loopback {outward back : TransferRequest} (outMapped : outward.Mapped)
    (backMapped : back.Mapped) (toDevice : outward.flags.dirToDev ≠ 0)
    (fromDevice : back.flags.dirToDev = 0)
    (place : back.epAddr = outward.epAddr)
    (total : back.total = outward.total) (host : Endian)
    (sent : Memories) (between : U64 → U8) :
    ∃ stored final, outward.run host sent = some stored ∧
      back.run host { stored with bus := between } = some final ∧
      ComesBack outward back sent between final := by
  have fits : (outward.gathered sent).Fits := by
    have small := outMapped.small
    rw [Write.Fits, TransferRequest.gathered, List.length_map,
      TransferRequest.busSpan_length]
    omega
  have read := Write.map_apply_span sent.card fits
  simp only [TransferRequest.gathered, List.length_map,
    TransferRequest.busSpan_length] at read
  refine ⟨_, _, outMapped.run_toDevice toDevice host sent,
    backMapped.run_fromDevice fromDevice host _, rfl, ?_, ?_⟩
  · intro address outside
    apply overwrite_of_away
    intro store member here
    apply outside
    rw [← here]
    exact (List.of_mem_zip member).1
  · dsimp only
    rw [place, total]
    simp only [TransferRequest.gathered]
    rw [read]
    apply map_overwrite_zip
    rw [List.length_map, TransferRequest.busSpan_length,
      TransferRequest.busSpan_length, total]

/-- One byte on each of two pages. -/
def scatteredRequest : TransferRequest where
  sgl := [⟨0x1fff, 1⟩, ⟨0x4000, 1⟩]
  epAddr := 0x100
  flags := h2cFlags
  grant :=
    { bus := 0x10000
      content := fun _ => ⟨0, 0, 0, 0, 0, 0, 0, 0⟩ }

/-- Two bytes in one place, fetched by one descriptor for each entry. -/
def compactRequest : TransferRequest where
  sgl := [⟨0x7000, 1⟩, ⟨0x7001, 1⟩]
  epAddr := 0x100
  flags := { dirToDev := 0, nonIncrAddr := 1, forceNewDesc := 1, userspace := 0 }
  grant :=
    { bus := 0x20000
      content := fun _ => ⟨0, 0, 0, 0, 0, 0, 0, 0⟩ }

theorem scatteredRequest_mapped : scatteredRequest.Mapped where
  nonempty := List.cons_ne_nil _ _
  positive := by decide
  small := by decide
  increments := Or.inr rfl

theorem compactRequest_mapped : compactRequest.Mapped where
  nonempty := List.cons_ne_nil _ _
  positive := by decide
  small := by decide
  increments := Or.inl rfl

theorem loopback_scattered :
    ∃ stored final,
      scatteredRequest.run .big ⟨fun addr => addr.setWidth 8, fun _ => 0⟩ =
        some stored ∧
      compactRequest.run .big { stored with bus := fun _ => 0 } =
        some final ∧
      ComesBack scatteredRequest compactRequest
        ⟨fun addr => addr.setWidth 8, fun _ => 0⟩ (fun _ => 0) final :=
  loopback scatteredRequest_mapped compactRequest_mapped
    (show h2cFlags.dirToDev ≠ 0 by decide) rfl rfl rfl .big _ _

end Xpcie
