import Mathlib.Data.List.Basic

/-!
# Checked updates of an array

An array is a list whose length never changes.  Every update names its
position, and one outside the array has no result.
-/

namespace BoundedArray

variable {α : Type}

def modifyAt (items : List α) (index : Nat) (update : α → α) :
    Option (List α) :=
  if index < items.length then some (items.modify index update) else none

/-- Update the `count` positions from `start` on, in increasing order. -/
def modifyRange (update : Nat → α → α) :
    Nat → Nat → List α → Option (List α)
  | _, 0, items => some items
  | start, count + 1, items => do
      let updated ← modifyAt items start (update start)
      modifyRange update (start + 1) count updated

/-- The effect of `modifyRange` on an array that is long enough. -/
def overRange (update : Nat → α → α) (start count : Nat)
    (items : List α) : List α :=
  items.mapIdx fun index item =>
    if start ≤ index ∧ index < start + count then update index item else item

@[simp] theorem overRange_length (update : Nat → α → α)
    (start count : Nat) (items : List α) :
    (overRange update start count items).length = items.length := by
  simp [overRange]

theorem overRange_getElem? (update : Nat → α → α)
    (start count : Nat) (items : List α) (index : Nat) :
    (overRange update start count items)[index]? =
      if start ≤ index ∧ index < start + count then
        items[index]?.map (update index) else items[index]? := by
  simp only [overRange, List.getElem?_mapIdx]
  split <;> simp

/-- The first `count` positions hold what was written there. -/
theorem overRange_value_getElem? (value : Nat → α) {count : Nat}
    {items : List α} (fits : count ≤ items.length) {index : Nat}
    (inside : index < count) :
    (overRange (fun index _ => value index) 0 count items)[index]? =
      some (value index) := by
  have covered : 0 ≤ index ∧ index < 0 + count := by omega
  rw [overRange_getElem?, if_pos covered,
    List.getElem?_eq_getElem (by omega), Option.map_some]

/-- Writing what is everywhere already changes nothing. -/
theorem overRange_replicate (value : α) (start count length : Nat) :
    overRange (fun _ _ => value) start count (List.replicate length value) =
      List.replicate length value := by
  apply List.ext_getElem?
  intro index
  rw [overRange_getElem?]
  split
  · by_cases inside : index < length
    · simp [inside]
    · simp [inside]
  · rfl

/-- Writing over a range forgets what was written inside it before. -/
theorem overRange_absorb (value : Nat → α) (earlier : Nat → α → α)
    {start count inner before : Nat} (items : List α)
    (lower : start ≤ inner) (upper : inner + before ≤ start + count) :
    overRange (fun index _ => value index) start count
        (overRange earlier inner before items) =
      overRange (fun index _ => value index) start count items := by
  apply List.ext_getElem?
  intro index
  simp only [overRange_getElem?]
  by_cases inside : start ≤ index ∧ index < start + count
  · rw [if_pos inside, if_pos inside]
    split
    · simp [Function.comp_def]
    · rfl
  · have outside : ¬(inner ≤ index ∧ index < inner + before) := by omega
    rw [if_neg inside, if_neg inside, if_neg outside]

theorem modifyAt_of_lt {items : List α} {index : Nat}
    (inside : index < items.length) (update : α → α) :
    modifyAt items index update = some (items.modify index update) :=
  if_pos inside

theorem modifyRange_eq (update : Nat → α → α)
    {start count : Nat} {items : List α}
    (fits : start + count ≤ items.length) :
    modifyRange update start count items =
      some (overRange update start count items) := by
  induction count generalizing start items with
  | zero =>
      simp only [modifyRange, Option.some.injEq]
      apply List.ext_getElem?
      intro index
      have outside : ¬(start ≤ index ∧ index < start + 0) := by omega
      rw [overRange_getElem?, if_neg outside]
  | succ count induction =>
      have inside : start < items.length := by omega
      have restFits :
          start + 1 + count ≤ (items.modify start (update start)).length := by
        simpa using (by omega : start + 1 + count ≤ items.length)
      simp only [modifyRange, modifyAt_of_lt inside, Option.bind_eq_bind,
        Option.bind_some, induction restFits, Option.some.injEq]
      apply List.ext_getElem?
      intro index
      simp only [overRange_getElem?, List.getElem?_modify]
      by_cases here : start = index
      · subst here
        have notLater : ¬(start + 1 ≤ start ∧ start < start + 1 + count) := by
          omega
        have covered : start ≤ start ∧ start < start + (count + 1) := by omega
        rw [if_neg notLater, if_pos covered]
        simp
      · by_cases later : start + 1 ≤ index ∧ index < start + 1 + count
        · have covered : start ≤ index ∧ index < start + (count + 1) := by
            omega
          rw [if_pos later, if_pos covered]
          simp [here]
        · have uncovered :
              ¬(start ≤ index ∧ index < start + (count + 1)) := by omega
          rw [if_neg later, if_neg uncovered]
          simp [here]

theorem of_modifyAt_eq_some {items updated : List α} {index : Nat}
    {update : α → α} (result : modifyAt items index update = some updated) :
    index < items.length ∧ updated = items.modify index update := by
  rw [modifyAt] at result
  split at result
  case isTrue inside => exact ⟨inside, (Option.some.inj result).symm⟩
  case isFalse outside => cases result

/-- Where an item found after an update comes from. -/
theorem getElem?_of_modifyAt {items updated : List α} {index i : Nat}
    {update : α → α} {item : α}
    (result : modifyAt items index update = some updated)
    (found : updated[i]? = some item) :
    ∃ old, items[i]? = some old ∧
      item = if index = i then update old else old := by
  obtain ⟨_, rfl⟩ := of_modifyAt_eq_some result
  rw [List.getElem?_modify, Option.map_eq_map] at found
  obtain ⟨old, before, rfl⟩ := Option.map_eq_some_iff.mp found
  refine ⟨old, before, ?_⟩
  split
  · rfl
  · rfl

/-- A range that was updated was inside the array. -/
theorem of_modifyRange_eq_some {update : Nat → α → α} {start count : Nat}
    {items updated : List α} (positive : 0 < count)
    (result : modifyRange update start count items = some updated) :
    start + count ≤ items.length := by
  induction count generalizing start items with
  | zero => cases positive
  | succ count induction =>
      obtain ⟨next, first, rest⟩ := Option.bind_eq_some_iff.mp result
      obtain ⟨inside, rfl⟩ := of_modifyAt_eq_some first
      rcases Nat.eq_zero_or_pos count with rfl | several
      · exact inside
      · have later := induction several rest
        rw [List.length_modify] at later
        omega

/-! ## What holds of the first items -/

/-- Of the first `count` positions, those inside the array hold an item that
satisfies `holds`. -/
def AllBelow (holds : α → Prop) (count : Nat) (items : List α) : Prop :=
  ∀ i < count, ∀ item, items[i]? = some item → holds item

section AllBelow

variable {holds : α → Prop} {count : Nat} {items next : List α}
  {update : α → α}

theorem AllBelow.zero (holds : α → Prop) (items : List α) :
    AllBelow holds 0 items := by
  intro i inside
  cases inside

theorem AllBelow.take (all : AllBelow holds count items) :
    ∀ item ∈ items.take count, holds item := by
  intro item member
  obtain ⟨i, found⟩ := List.getElem?_of_mem member
  rw [List.getElem?_take] at found
  split at found
  case isTrue inside => exact all i inside item found
  case isFalse outside => cases found

/-- An update that keeps the property may happen anywhere. -/
theorem AllBelow.modifyAt {index : Nat} (all : AllBelow holds count items)
    (keeps : ∀ item, holds item → holds (update item))
    (updated : modifyAt items index update = some next) :
    AllBelow holds count next := by
  intro i inside item found
  obtain ⟨old, before, rfl⟩ := getElem?_of_modifyAt updated found
  have oldHolds := all i inside old before
  split
  · exact keeps old oldHolds
  · exact oldHolds

/-- An update that establishes the property at the next position takes that
position in. -/
theorem AllBelow.extend (all : AllBelow holds count items)
    (sets : ∀ item, holds (update item))
    (updated : BoundedArray.modifyAt items count update = some next) :
    AllBelow holds (count + 1) next := by
  intro i inside item found
  obtain ⟨old, before, rfl⟩ := getElem?_of_modifyAt updated found
  split
  case isTrue here => exact sets old
  case isFalse other => exact all i (by omega) old before

end AllBelow

end BoundedArray
