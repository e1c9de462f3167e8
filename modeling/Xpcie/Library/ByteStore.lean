import Mathlib.Algebra.Order.Ring.Int
import Mathlib.Data.List.Pairwise
import Mathlib.Data.List.Perm.Basic
import Mathlib.Logic.Function.Basic
import Xpcie.Library.AddressSpan

/-!
# Byte stores

A store holds a value at every address.  A write puts a list of values at
consecutive addresses, in the modular arithmetic of the address width.  What
a store holds after any number of writes is decided, address by address, by
the newest write that covers the address.
-/

namespace ByteStore

open AddressSpan

variable {Address Value : Type}

/-- Single stores, carried out in order. -/
def overwrite [DecidableEq Address] (memory : Address → Value)
    (stores : List (Address × Value)) : Address → Value :=
  stores.foldl
    (fun memory store => Function.update memory store.1 store.2) memory

section Overwrite

variable [DecidableEq Address] (memory : Address → Value)

@[simp] theorem overwrite_nil : overwrite memory [] = memory := rfl

@[simp] theorem overwrite_cons (store : Address × Value)
    (stores : List (Address × Value)) :
    overwrite memory (store :: stores) =
      overwrite (Function.update memory store.1 store.2) stores := rfl

@[simp] theorem overwrite_append (earlier later : List (Address × Value)) :
    overwrite memory (earlier ++ later) =
      overwrite (overwrite memory earlier) later :=
  List.foldl_append

/-- What an address holds was stored there, or was there before. -/
theorem overwrite_cases (stores : List (Address × Value))
    (address : Address) :
    (address, overwrite memory stores address) ∈ stores ∨
      (∀ store ∈ stores, store.1 ≠ address) ∧
        overwrite memory stores address = memory address := by
  induction stores generalizing memory with
  | nil => exact Or.inr ⟨nofun, rfl⟩
  | cons store stores induction =>
      rw [overwrite_cons]
      rcases induction (Function.update memory store.1 store.2) with
        stored | ⟨away, kept⟩
      · exact Or.inl (List.mem_cons_of_mem store stored)
      · rw [kept]
        by_cases here : address = store.1
        · subst here
          rw [Function.update_self]
          exact Or.inl List.mem_cons_self
        · rw [Function.update_of_ne here]
          refine Or.inr ⟨?_, rfl⟩
          intro other member
          rcases List.mem_cons.mp member with rfl | later
          · exact Ne.symm here
          · exact away other later

theorem overwrite_of_away {stores : List (Address × Value)}
    {address : Address} (away : ∀ store ∈ stores, store.1 ≠ address) :
    overwrite memory stores address = memory address := by
  rcases overwrite_cases memory stores address with stored | ⟨_, kept⟩
  · exact absurd rfl (away _ stored)
  · exact kept

end Overwrite

/-! ## Scattered stores -/

section Scatter

/-- An address that is met twice is met with the same value. -/
def Agree (addresses : List Address) (values : List Value) : Prop :=
  ∀ first ∈ addresses.zip values, ∀ second ∈ addresses.zip values,
    first.1 = second.1 → first.2 = second.2

theorem agree_map (read : Address → Value) (addresses : List Address) :
    Agree addresses (addresses.map read) := by
  have paired : addresses.zip (addresses.map read) =
      addresses.map fun address => (address, read address) := by
    have both : (addresses.map id).zip (addresses.map read) =
        addresses.map fun address => (id address, read address) :=
      List.zip_map'
    rwa [List.map_id] at both
  have each : ∀ store ∈ addresses.zip (addresses.map read),
      store.2 = read store.1 := by
    intro store member
    rw [paired] at member
    obtain ⟨address, _, rfl⟩ := List.mem_map.mp member
    rfl
  intro first firstMember second secondMember same
  rw [each first firstMember, each second secondMember, same]

variable [DecidableEq Address]

/-- All the values are found again exactly when none of them overwrites a
different one. -/
theorem map_overwrite_zip (memory : Address → Value)
    {addresses : List Address} {values : List Value}
    (lengths : addresses.length = values.length) :
    addresses.map (overwrite memory (addresses.zip values)) = values ↔
      Agree addresses values := by
  constructor
  · intro found
    rw [← found]
    exact agree_map _ addresses
  · intro agree
    apply List.ext_getElem
    · rw [List.length_map, lengths]
    · intro k inside small
      rw [List.length_map] at inside
      rw [List.getElem_map]
      have pair : (addresses[k], values[k]) ∈ addresses.zip values := by
        have place : k < (addresses.zip values).length := by
          rw [List.length_zip]
          exact Nat.lt_min.mpr ⟨inside, small⟩
        have member := List.getElem_mem place
        rwa [List.getElem_zip] at member
      rcases overwrite_cases memory (addresses.zip values) addresses[k] with
        stored | ⟨away, _⟩
      · exact agree _ stored _ pair rfl
      · exact absurd rfl (away _ pair)

end Scatter

variable {width : Nat}

/-- Values for consecutive addresses, from `base` on. -/
structure Write (width : Nat) (Value : Type) where
  base : BitVec width
  values : List Value

namespace Write

def stores (write : Write width Value) : List (BitVec width × Value) :=
  (span write.base write.values.length).zip write.values

def apply (memory : BitVec width → Value) (write : Write width Value) :
    BitVec width → Value :=
  overwrite memory write.stores

/-- The value a write has for an address. -/
def at? (write : Write width Value) (address : BitVec width) :
    Option Value :=
  write.values[(address - write.base).toNat]?

def Covers (write : Write width Value) (address : BitVec width) : Prop :=
  (address - write.base).toNat < write.values.length

/-- The write does not run into its own beginning. -/
def Fits (write : Write width Value) : Prop :=
  write.values.length ≤ 2 ^ width

/-- No address is covered by both. -/
def Apart (first second : Write width Value) : Prop :=
  ∀ address, first.Covers address → ¬second.Covers address

instance : Std.Symm (@Apart Value width) where
  symm _ _ apart address covered both := apart address both covered

variable {write first second : Write width Value} {address : BitVec width}

theorem at?_eq_none : write.at? address = none ↔ ¬write.Covers address := by
  rw [at?, Covers, List.getElem?_eq_none_iff, Nat.not_lt]

theorem stores_append (base : BitVec width) (front rest : List Value) :
    (Write.mk base (front ++ rest)).stores =
      (Write.mk base front).stores ++
        (Write.mk (base + BitVec.ofNat width front.length) rest).stores := by
  rw [stores, List.length_append, span_add,
    List.zip_append (span_length base front.length)]
  rfl

/-- Writing a list is writing its front and then the rest behind it. -/
theorem apply_append (memory : BitVec width → Value) (base : BitVec width)
    (front rest : List Value) :
    apply memory ⟨base, front ++ rest⟩ =
      apply (apply memory ⟨base, front⟩)
        ⟨base + BitVec.ofNat width front.length, rest⟩ := by
  rw [apply, stores_append, overwrite_append]
  rfl

theorem apply_singleton (memory : BitVec width → Value)
    (base : BitVec width) (value : Value) :
    apply memory ⟨base, [value]⟩ = Function.update memory base value := by
  simp [apply, stores, span]

/-- Seen from the next address, an address is one nearer, unless it is the
base itself. -/
theorem sub_succ_toNat {base address : BitVec width} (away : address ≠ base) :
    (address - base).toNat =
      (address - (base + BitVec.ofNat width 1)).toNat + 1 := by
  have step : address - (base + BitVec.ofNat width 1) =
      address - base - BitVec.ofNat width 1 := by
    simp only [BitVec.sub_eq_add_neg, BitVec.neg_add, BitVec.add_assoc]
  have apart : (address - base).toNat ≠ 0 := by
    intro zero
    have difference : address - base = BitVec.ofNat width 0 :=
      BitVec.eq_of_toNat_eq (by simpa using zero)
    apply away
    rw [BitVec.sub_eq_iff_eq_add.mp difference, BitVec.zero_add]
  have bound := (address - base).isLt
  rw [step]
  generalize address - base = distance at apart bound
  rw [BitVec.toNat_sub, BitVec.toNat_ofNat,
    Nat.mod_eq_of_lt (show 1 < 2 ^ width by omega),
    show 2 ^ width - 1 + distance.toNat =
      2 ^ width + (distance.toNat - 1) by omega,
    Nat.add_mod_left, Nat.mod_eq_of_lt (by omega)]
  omega

/-- A list that fits behind `base` does not come round to it. -/
theorem le_sub_succ_toNat {base : BitVec width} {length : Nat}
    (fits : length + 1 ≤ 2 ^ width) :
    length ≤ (base - (base + BitVec.ofNat width 1)).toNat := by
  rcases Nat.eq_zero_or_pos length with zero | positive
  · omega
  · have step : base - (base + BitVec.ofNat width 1) =
        BitVec.ofNat width 0 - BitVec.ofNat width 1 := by
      simp only [BitVec.sub_eq_add_neg, BitVec.neg_add, ← BitVec.add_assoc,
        BitVec.add_right_neg]
    rw [step, BitVec.toNat_sub, BitVec.toNat_ofNat, BitVec.toNat_ofNat,
      Nat.mod_eq_of_lt (show 1 < 2 ^ width by omega), Nat.zero_mod,
      Nat.add_zero, Nat.mod_eq_of_lt (by omega)]
    omega

theorem apply_eq (memory : BitVec width → Value) (fits : write.Fits)
    (address : BitVec width) :
    write.apply memory address = (write.at? address).getD (memory address) := by
  obtain ⟨base, values⟩ := write
  change values.length ≤ 2 ^ width at fits
  change _ = (values[(address - base).toNat]?).getD (memory address)
  induction values generalizing base memory with
  | nil => rfl
  | cons value rest induction =>
      rw [List.length_cons] at fits
      have first := apply_append memory base [value] rest
      rw [List.singleton_append] at first
      rw [first, apply_singleton, induction _ _ (by omega),
        List.length_singleton]
      by_cases here : address = base
      · subst here
        rw [List.getElem?_eq_none (le_sub_succ_toNat fits)]
        simp
      · rw [sub_succ_toNat here, List.getElem?_cons_succ,
          Function.update_of_ne here]

theorem apply_of_not_covers (memory : BitVec width → Value)
    (fits : write.Fits) (outside : ¬write.Covers address) :
    write.apply memory address = memory address := by
  rw [apply_eq memory fits, at?_eq_none.mpr outside, Option.getD_none]

theorem at?_offset (write : Write width Value) {k : Nat}
    (small : k < 2 ^ width) :
    write.at? (write.base + BitVec.ofNat width k) = write.values[k]? := by
  have offset : write.base + BitVec.ofNat width k - write.base =
      BitVec.ofNat width k := by
    rw [BitVec.add_comm, BitVec.add_sub_cancel]
  rw [at?, offset, BitVec.toNat_ofNat, Nat.mod_eq_of_lt small]

/-- What was written is read back. -/
theorem map_apply_span (memory : BitVec width → Value)
    (fits : write.Fits) :
    (span write.base write.values.length).map (write.apply memory) =
      write.values := by
  apply List.ext_getElem
  · rw [List.length_map, span_length]
  · intro k inside small
    have found := write.at?_offset (Nat.lt_of_lt_of_le small fits)
    rw [List.getElem?_eq_getElem small] at found
    rw [List.getElem_map, apply_eq memory fits]
    simp only [span, List.getElem_map, List.getElem_range]
    rw [found, Option.getD_some]

/-- Writes that share no address may be exchanged. -/
theorem apply_comm (memory : BitVec width → Value)
    (firstFits : first.Fits) (secondFits : second.Fits)
    (apart : first.Apart second) :
    second.apply (first.apply memory) = first.apply (second.apply memory) := by
  funext address
  by_cases covered : first.Covers address
  · rw [apply_of_not_covers _ secondFits (apart address covered),
      apply_eq _ firstFits, apply_eq _ firstFits,
      apply_of_not_covers _ secondFits (apart address covered)]
  · rw [apply_of_not_covers _ firstFits covered, apply_eq _ secondFits,
      apply_eq _ secondFits, apply_of_not_covers _ firstFits covered]

/-- A write forgets an earlier one inside it. -/
theorem apply_absorb (memory : BitVec width → Value)
    (firstFits : first.Fits) (secondFits : second.Fits)
    (within : ∀ address, first.Covers address → second.Covers address) :
    second.apply (first.apply memory) = second.apply memory := by
  funext address
  rw [apply_eq _ secondFits, apply_eq _ secondFits]
  cases found : second.at? address with
  | some value => rfl
  | none =>
      have outside := at?_eq_none.mp found
      rw [apply_of_not_covers _ firstFits fun covered =>
        outside (within address covered)]

end Write

/-! ## Histories -/

/-- Writes carried out in order. -/
def replay (memory : BitVec width → Value)
    (writes : List (Write width Value)) : BitVec width → Value :=
  writes.foldl Write.apply memory

/-- The value the newest write that covers an address has for it. -/
def newest (writes : List (Write width Value)) (address : BitVec width) :
    Option Value :=
  writes.reverse.findSome? fun write => write.at? address

section Replay

variable (memory : BitVec width → Value)

@[simp] theorem replay_nil :
    replay memory ([] : List (Write width Value)) = memory := rfl

@[simp] theorem replay_cons (write : Write width Value)
    (writes : List (Write width Value)) :
    replay memory (write :: writes) = replay (write.apply memory) writes := rfl

@[simp] theorem replay_append (earlier later : List (Write width Value)) :
    replay memory (earlier ++ later) =
      replay (replay memory earlier) later :=
  List.foldl_append

/-- The newest covering write decides. -/
theorem replay_eq {writes : List (Write width Value)}
    (fit : ∀ write ∈ writes, write.Fits) (address : BitVec width) :
    replay memory writes address =
      (newest writes address).getD (memory address) := by
  induction writes generalizing memory with
  | nil => rfl
  | cons write later induction =>
      rw [replay_cons, induction _ fun other member =>
          fit other (List.mem_cons_of_mem write member),
        Write.apply_eq memory (fit write List.mem_cons_self), newest, newest,
        List.reverse_cons, List.findSome?_append]
      cases later.reverse.findSome? fun write => write.at? address with
      | some value => rfl
      | none => simp

/-- A write forgets all the earlier ones inside it. -/
theorem apply_replay {writes : List (Write width Value)}
    {last : Write width Value} (fit : ∀ write ∈ writes, write.Fits)
    (lastFits : last.Fits)
    (within : ∀ write ∈ writes, ∀ address,
      write.Covers address → last.Covers address) :
    last.apply (replay memory writes) = last.apply memory := by
  induction writes generalizing memory with
  | nil => rfl
  | cons write later induction =>
      rw [replay_cons, induction _
          (fun other member => fit other (List.mem_cons_of_mem write member))
          (fun other member =>
            within other (List.mem_cons_of_mem write member))]
      exact Write.apply_absorb memory (fit write List.mem_cons_self) lastFits
        (within write List.mem_cons_self)

@[simp] theorem newest_append (earlier later : List (Write width Value))
    (address : BitVec width) :
    newest (earlier ++ later) address =
      (newest later address).or (newest earlier address) := by
  rw [newest, List.reverse_append, List.findSome?_append]
  rfl

theorem newest_eq_none {writes : List (Write width Value)}
    {address : BitVec width}
    (outside : ∀ write ∈ writes, ¬write.Covers address) :
    newest writes address = none := by
  rw [newest, List.findSome?_eq_none_iff]
  intro write member
  exact Write.at?_eq_none.mpr (outside write (List.mem_reverse.mp member))

/-- Writes that share no address may be carried out in any order. -/
theorem replay_perm {writes shuffled : List (Write width Value)}
    (permutation : writes.Perm shuffled)
    (fit : ∀ write ∈ writes, write.Fits)
    (apart : writes.Pairwise fun first second => first.Apart second) :
    replay memory writes = replay memory shuffled := by
  apply permutation.foldl_eq'
  intro first firstMember second secondMember memory
  by_cases same : first = second
  · rw [same]
  · exact Write.apply_comm memory (fit first firstMember)
      (fit second secondMember)
      (apart.forall firstMember secondMember same)

/-- Consecutive writes from `base` on, one for each piece. -/
def pieces (base : BitVec width) : List (List Value) → List (Write width Value)
  | [] => []
  | piece :: later =>
      ⟨base, piece⟩ :: pieces (base + BitVec.ofNat width piece.length) later

/-- Writing the pieces one behind the other is writing the whole. -/
theorem replay_pieces (base : BitVec width) (parts : List (List Value)) :
    replay memory (pieces base parts) =
      Write.apply memory ⟨base, parts.flatten⟩ := by
  induction parts generalizing memory base with
  | nil => rfl
  | cons piece later induction =>
      rw [pieces, replay_cons, induction, List.flatten_cons,
        Write.apply_append]

end Replay

end ByteStore
