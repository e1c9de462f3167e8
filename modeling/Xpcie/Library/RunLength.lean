import Mathlib.Data.List.Basic

/-!
# Runs of equal items

A list can be written down as the first item of each run of equal items, with
its position and a mark when the run goes on.  How far it goes is not written:
the position of the next run tells it, or the end of the list.
-/

namespace RunLength

variable {α : Type}

/-- The first item of a run, and whether it is repeated. -/
structure Head (α : Type) where
  index : Nat
  item : α
  repeated : Bool
  deriving DecidableEq, Repr

/-- One pass that looks one item back and one item ahead. -/
def heads [DecidableEq α] (previous : Option α) (index : Nat) :
    List α → List (Head α)
  | [] => []
  | item :: rest =>
      if previous = some item then heads (some item) (index + 1) rest
      else
        { index, item, repeated := decide (rest.head? = some item) } ::
          heads (some item) (index + 1) rest

/-- The heads of a list, run by run. -/
inductive RunsAt : Nat → List α → List (Head α) → Prop
  | nil (index : Nat) : RunsAt index [] []
  | cons {index count : Nat} {item : α} {rest : List α}
      {later : List (Head α)} (ends : rest.head? ≠ some item)
      (others : RunsAt (index + (count + 1)) rest later) :
      RunsAt index (List.replicate (count + 1) item ++ rest)
        ({ index, item, repeated := decide (0 < count) } :: later)

/-- `later` are the heads of `items`, when a run of `previous` is open. -/
def ContinuesAt (previous : α) (index : Nat) (items : List α)
    (later : List (Head α)) : Prop :=
  ∃ count rest, items = List.replicate count previous ++ rest ∧
    rest.head? ≠ some previous ∧ RunsAt (index + count) rest later

/-- An item that differs from the one before it begins a run. -/
theorem ContinuesAt.begin [DecidableEq α] {previous : Option α} {item : α}
    {index : Nat} {items : List α} (other : ¬previous = some item)
    (continues : ContinuesAt item (index + 1) items
      (heads (some item) (index + 1) items)) :
    RunsAt index (item :: items) (heads previous index (item :: items)) := by
  obtain ⟨count, rest, split, ends, runs⟩ := continues
  have position : index + 1 + count = index + (count + 1) := by omega
  have goesOn : (items.head? = some item) = (0 < count) := by
    cases count with
    | zero =>
        rw [split, List.replicate_zero, List.nil_append]
        exact propext (iff_of_false ends (Nat.lt_irrefl 0))
    | succ count =>
        rw [split, List.replicate_succ]
        exact propext (iff_of_true rfl (Nat.succ_pos count))
  have whole : item :: items = List.replicate (count + 1) item ++ rest := by
    rw [split]
    rfl
  rw [position] at runs
  rw [heads, if_neg other]
  simp only [goesOn]
  rw [whole]
  exact .cons ends runs

theorem heads_continuesAt [DecidableEq α] (previous : α) (index : Nat)
    (items : List α) :
    ContinuesAt previous index items (heads (some previous) index items) := by
  induction items generalizing previous index with
  | nil => exact ⟨0, [], rfl, nofun, .nil index⟩
  | cons item items induction =>
      by_cases same : previous = item
      · subst same
        obtain ⟨count, rest, split, ends, runs⟩ :=
          induction previous (index + 1)
        have position : index + 1 + count = index + (count + 1) := by omega
        refine ⟨count + 1, rest, ?_, ends, ?_⟩
        · rw [split]
          rfl
        · rw [heads, if_pos rfl, ← position]
          exact runs
      · have other : ¬some previous = some item :=
          fun equal => same (Option.some.inj equal)
        have runs := ContinuesAt.begin other (induction item (index + 1))
        refine ⟨0, item :: items, rfl, ?_, runs⟩
        intro starts
        exact other starts.symm

/-- The pass finds every run. -/
theorem heads_runsAt [DecidableEq α] (index : Nat) (items : List α) :
    RunsAt index items (heads none index items) := by
  cases items with
  | nil => exact .nil index
  | cons item items =>
      exact ContinuesAt.begin nofun
        (heads_continuesAt item (index + 1) items)

variable {index : Nat} {items : List α} {runs : List (Head α)}

theorem RunsAt.le_index (written : RunsAt index items runs) :
    ∀ head ∈ runs, index ≤ head.index := by
  induction written with
  | nil index =>
      intro head member
      cases member
  | cons ends others induction =>
      intro head member
      rcases List.mem_cons.mp member with rfl | later
      · exact Nat.le_refl _
      · have beyond := induction head later
        omega

/-- The first head stands where the list begins. -/
theorem RunsAt.head_index (written : RunsAt index items runs)
    (nonempty : items ≠ []) : runs.head?.map Head.index = some index := by
  cases written with
  | nil => exact absurd rfl nonempty
  | cons ends others => rfl

theorem RunsAt.eq_nil (written : RunsAt index [] runs) : runs = [] := by
  generalize none : ([] : List α) = items at written
  cases written with
  | nil => rfl
  | cons ends others => cases none

/-- An item is marked exactly when the one after it has no head. -/
theorem RunsAt.repeated_iff (written : RunsAt index items runs) :
    ∀ head ∈ runs, head.repeated = true ↔
      head.index + 1 < index + items.length ∧
        ∀ other ∈ runs, other.index ≠ head.index + 1 := by
  induction written with
  | nil index =>
      intro head member
      cases member
  | @cons index count item rest later ends others induction =>
      have beyond := others.le_index
      intro head member
      rw [List.length_append, List.length_replicate]
      rcases List.mem_cons.mp member with rfl | laterMember
      · change decide (0 < count) = true ↔ index + 1 < _ ∧
          ∀ other : Head α, other ∈ _ → other.index ≠ index + 1
        rw [decide_eq_true_iff]
        constructor
        · intro repeats
          refine ⟨by omega, ?_⟩
          intro other otherMember
          rcases List.mem_cons.mp otherMember with rfl | inLater
          · exact Nat.ne_of_lt (Nat.lt_succ_self _)
          · have follows := beyond other inLater
            omega
        · rintro ⟨inside, alone⟩
          by_contra single
          -- Without a repetition the next run begins right here.
          have nonempty : rest ≠ [] := by
            rintro rfl
            rw [List.length_nil] at inside
            omega
          obtain ⟨next, first, position⟩ :=
            Option.map_eq_some_iff.mp (others.head_index nonempty)
          have inLater := List.mem_of_mem_head? first
          have apart := alone next (List.mem_cons_of_mem _ inLater)
          omega
      · have follows := beyond head laterMember
        have bound : index + (count + 1 + rest.length) =
            index + (count + 1) + rest.length := by omega
        rw [induction head laterMember, bound]
        apply and_congr_right
        intro _
        constructor
        · intro alone other otherMember
          rcases List.mem_cons.mp otherMember with rfl | inLater
          · intro equal
            dsimp only at equal
            omega
          · exact alone other inLater
        · intro alone other inLater
          exact alone other (List.mem_cons_of_mem _ inLater)

/-- A marked item is found twice, one time after the other. -/
theorem RunsAt.repeated_item (written : RunsAt index items runs) :
    ∀ head ∈ runs, head.repeated = true →
      ∃ k, head.index = index + k ∧ items[k]? = some head.item ∧
        items[k + 1]? = some head.item := by
  induction written with
  | nil index =>
      intro head member
      cases member
  | @cons index count item rest later ends others induction =>
      intro head member repeated
      rcases List.mem_cons.mp member with rfl | laterMember
      · have repeats : 0 < count := of_decide_eq_true repeated
        obtain ⟨more, rfl⟩ := Nat.exists_eq_succ_of_ne_zero
          (Nat.ne_of_gt repeats)
        exact ⟨0, rfl, rfl, rfl⟩
      · obtain ⟨k, position, here, next⟩ :=
          induction head laterMember repeated
        have shift : ∀ i, (List.replicate (count + 1) item ++ rest)[
            count + 1 + i]? = rest[i]? := by
          intro i
          rw [List.getElem?_append_right (by simp), List.length_replicate,
            Nat.add_sub_cancel_left]
        refine ⟨count + 1 + k, by omega, ?_, ?_⟩
        · rw [shift]
          exact here
        · rw [Nat.add_assoc, shift]
          exact next

end RunLength
