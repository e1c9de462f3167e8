import Mathlib.Data.List.Chain

/-!
# Grouping a list by a running test

Consecutive elements are collected in an open group.  A test on the open
group and the next element decides whether the group is closed first.
-/

namespace Grouping

variable {α : Type}

/-- The groups of `rest`, the first of which continues `opened`. -/
def groupsFrom (closes : List α → α → Bool) :
    List α → List α → List (List α)
  | opened, [] => [opened]
  | opened, next :: rest =>
      if closes opened next then opened :: groupsFrom closes [next] rest
      else groupsFrom closes (opened ++ [next]) rest

def groups (closes : List α → α → Bool) : List α → List (List α)
  | [] => []
  | first :: rest => groupsFrom closes [first] rest

variable (closes : List α → α → Bool)

theorem groupsFrom_ne_nil (opened rest : List α) :
    groupsFrom closes opened rest ≠ [] := by
  induction rest generalizing opened with
  | nil => simp [groupsFrom]
  | cons next rest induction =>
      rw [groupsFrom]
      split
      · simp
      · exact induction _

theorem groupsFrom_length_le (opened rest : List α) :
    (groupsFrom closes opened rest).length ≤ rest.length + 1 := by
  induction rest generalizing opened with
  | nil => simp [groupsFrom]
  | cons next rest induction =>
      rw [groupsFrom]
      split
      · have later := induction [next]
        simp only [List.length_cons]
        omega
      · have later := induction (opened ++ [next])
        simp only [List.length_cons]
        omega

theorem flatten_groupsFrom (opened rest : List α) :
    (groupsFrom closes opened rest).flatten = opened ++ rest := by
  induction rest generalizing opened with
  | nil => simp [groupsFrom]
  | cons next rest induction =>
      rw [groupsFrom]
      split
      · simp [induction]
      · simp [induction]

theorem flatten_groups (items : List α) :
    (groups closes items).flatten = items := by
  cases items with
  | nil => rfl
  | cons first rest => exact flatten_groupsFrom closes [first] rest

/-- A property of the open group that survives every extension the test lets
through holds of every group. -/
theorem forall_mem_groupsFrom {holds : List α → Prop}
    {opened rest : List α} (start : holds opened)
    (single : ∀ item ∈ rest, holds [item])
    (extend : ∀ group, ∀ item ∈ rest, holds group →
      closes group item = false → holds (group ++ [item])) :
    ∀ group ∈ groupsFrom closes opened rest, holds group := by
  induction rest generalizing opened with
  | nil =>
      intro group member
      simp only [groupsFrom, List.mem_singleton] at member
      exact member ▸ start
  | cons next rest induction =>
      have singleRest : ∀ item ∈ rest, holds [item] := fun item member =>
        single item (List.mem_cons_of_mem next member)
      have extendRest : ∀ group, ∀ item ∈ rest, holds group →
          closes group item = false → holds (group ++ [item]) :=
        fun group item member =>
          extend group item (List.mem_cons_of_mem next member)
      intro group member
      rw [groupsFrom] at member
      split at member <;> rename_i test
      · rcases List.mem_cons.mp member with same | later
        · exact same ▸ start
        · exact induction (single next List.mem_cons_self)
            singleRest extendRest group later
      · have continued : holds (opened ++ [next]) :=
          extend opened next List.mem_cons_self start (by simpa using test)
        exact induction continued singleRest extendRest group member

theorem forall_mem_groups {holds : List α → Prop} {items : List α}
    (single : ∀ item ∈ items, holds [item])
    (extend : ∀ group, ∀ item ∈ items, holds group →
      closes group item = false → holds (group ++ [item])) :
    ∀ group ∈ groups closes items, holds group := by
  cases items with
  | nil => simp [groups]
  | cons first rest =>
      exact forall_mem_groupsFrom closes
        (single first List.mem_cons_self)
        (fun item member => single item (List.mem_cons_of_mem first member))
        (fun group item member =>
          extend group item (List.mem_cons_of_mem first member))

/-- A single group is made exactly when the test never closes what was
collected so far. -/
theorem groupsFrom_length_eq_one {opened rest : List α} :
    (groupsFrom closes opened rest).length = 1 ↔
      ∀ middle next later, rest = middle ++ next :: later →
        closes (opened ++ middle) next = false := by
  induction rest generalizing opened with
  | nil => simp [groupsFrom]
  | cons next rest induction =>
      rw [groupsFrom]
      by_cases test : closes opened next = true
      · have several := List.length_pos_of_ne_nil
          (groupsFrom_ne_nil closes [next] rest)
        rw [if_pos test, List.length_cons]
        constructor
        · intro one
          omega
        · intro stays
          have here := stays [] next rest rfl
          rw [List.append_nil, test] at here
          cases here
      · rw [if_neg test, induction]
        constructor
        · intro stays middle item later split
          cases middle with
          | nil =>
              cases split
              simpa using test
          | cons head middle =>
              cases split
              simpa using stays middle item later rfl
        · intro stays middle item later split
          have here := stays (next :: middle) item later (by rw [split]; rfl)
          simpa using here

theorem groups_length_eq_one {items : List α} (nonempty : items ≠ []) :
    (groups closes items).length = 1 ↔
      ∀ opened next later, items = opened ++ next :: later → opened ≠ [] →
        closes opened next = false := by
  obtain ⟨first, rest, rfl⟩ := List.exists_cons_of_ne_nil nonempty
  rw [groups, groupsFrom_length_eq_one]
  constructor
  · intro stays opened next later split begun
    obtain ⟨head, middle, rfl⟩ := List.exists_cons_of_ne_nil begun
    cases split
    exact stays middle next later rfl
  · intro stays middle next later split
    exact stays (first :: middle) next later (by rw [split]; rfl)
      (List.cons_ne_nil first middle)

/-- Two tests that agree wherever the grouping applies them make the same
groups. -/
theorem groupsFrom_congr {closes other : List α → α → Bool}
    {opened rest : List α}
    (agree : ∀ before group next later,
      opened ++ rest = before ++ group ++ next :: later → group ≠ [] →
        closes group next = other group next)
    (begun : opened ≠ []) :
    groupsFrom closes opened rest = groupsFrom other opened rest := by
  induction rest generalizing opened with
  | nil => rfl
  | cons next rest induction =>
      have here := agree [] opened next rest rfl begun
      rw [groupsFrom, groupsFrom, here]
      by_cases test : other opened next = true
      · have later := @induction [next]
          (fun before group item later split =>
            agree (opened ++ before) group item later (by
              simpa using congrArg (opened ++ ·) split))
          (List.cons_ne_nil next [])
        rw [if_pos test, if_pos test, later]
      · have later := @induction (opened ++ [next])
          (fun before group item later split =>
            agree before group item later (by simpa using split))
          (by simp)
        rw [if_neg test, if_neg test, later]

theorem groups_congr {closes other : List α → α → Bool} {items : List α}
    (agree : ∀ before group next later,
      items = before ++ group ++ next :: later → group ≠ [] →
        closes group next = other group next) :
    groups closes items = groups other items := by
  cases items with
  | nil => rfl
  | cons first rest =>
      exact groupsFrom_congr agree (List.cons_ne_nil first [])

/-! ## The group an item falls into -/

/-- Number of the group that holds item `i`. -/
def indexOf : List (List α) → Nat → Nat
  | [], _ => 0
  | group :: groups, i =>
      if i < group.length then 0 else indexOf groups (i - group.length) + 1

/-- The items of the group of item `i`, up to and including `i`. -/
def upTo : List (List α) → Nat → List α
  | [], _ => []
  | group :: groups, i =>
      if i < group.length then group.take (i + 1)
      else upTo groups (i - group.length)

/-- They end with the item itself. -/
theorem upTo_getLast? (groups : List (List α)) (i : Nat) :
    (upTo groups i).getLast? = groups.flatten[i]? := by
  induction groups generalizing i with
  | nil => rfl
  | cons group groups induction =>
      rw [upTo, List.flatten_cons]
      by_cases inside : i < group.length
      · rw [if_pos inside, List.getElem?_append_left inside,
          List.getLast?_take, if_neg (Nat.succ_ne_zero i),
          Nat.add_sub_cancel, List.getElem?_eq_getElem inside]
        rfl
      · rw [if_neg inside, List.getElem?_append_right (by omega), induction]

theorem upTo_sublist (groups : List (List α)) (i : Nat) :
    (upTo groups i).Sublist groups.flatten := by
  induction groups generalizing i with
  | nil => exact List.Sublist.refl []
  | cons group groups induction =>
      rw [upTo, List.flatten_cons]
      by_cases inside : i < group.length
      · rw [if_pos inside]
        exact (List.take_sublist (i + 1) group).trans
          (List.sublist_append_left group groups.flatten)
      · rw [if_neg inside]
        exact (induction (i - group.length)).trans
          (List.sublist_append_right group groups.flatten)

theorem groupsFrom_begins {opened rest : List α} {i : Nat}
    (inside : i < opened.length) :
    indexOf (groupsFrom closes opened rest) i = 0 ∧
      upTo (groupsFrom closes opened rest) i = opened.take (i + 1) := by
  induction rest generalizing opened with
  | nil => simp [groupsFrom, indexOf, upTo, inside]
  | cons next rest induction =>
      rw [groupsFrom]
      by_cases test : closes opened next = true
      · rw [if_pos test, indexOf, upTo, if_pos inside, if_pos inside]
        exact ⟨rfl, rfl⟩
      · have longer : i < (opened ++ [next]).length := by
          rw [List.length_append]
          omega
        rw [if_neg test, (induction longer).1, (induction longer).2,
          List.take_append_of_le_length (by omega)]
        exact ⟨rfl, rfl⟩

theorem groupsFrom_index_ne_iff {opened rest : List α} {i : Nat} {item : α}
    (reached : opened.length ≤ i + 1) (begun : opened ≠ [])
    (found : (opened ++ rest)[i + 1]? = some item) :
    indexOf (groupsFrom closes opened rest) i ≠
        indexOf (groupsFrom closes opened rest) (i + 1) ↔
      closes (upTo (groupsFrom closes opened rest) i) item = true := by
  have positive := List.length_pos_of_ne_nil begun
  induction rest generalizing opened i with
  | nil =>
      rw [List.append_nil, List.getElem?_eq_none reached] at found
      cases found
  | cons next rest induction =>
      rw [groupsFrom]
      by_cases test : closes opened next = true
      · rw [if_pos test]
        by_cases boundary : i + 1 = opened.length
        · -- The group ends with item `i`, and `next` is the item after it.
          have inside : i < opened.length := by omega
          have outside : ¬i + 1 < opened.length := by omega
          have same : next = item := by
            rw [List.getElem?_append_right (by omega), boundary,
              Nat.sub_self] at found
            exact Option.some.inj found
          rw [indexOf, indexOf, upTo, if_pos inside, if_neg outside,
            if_pos inside, List.take_of_length_le (by omega), ← same, test]
          exact iff_of_true (by omega) rfl
        · have outside : ¬i < opened.length := by omega
          have outsideNext : ¬i + 1 < opened.length := by omega
          have shift : i + 1 - opened.length = i - opened.length + 1 := by
            omega
          rw [List.getElem?_append_right (by omega), shift] at found
          have later := @induction [next] (i - opened.length)
            (Nat.le_add_left 1 _) (List.cons_ne_nil next []) found
            (Nat.succ_pos 0)
          rw [indexOf, indexOf, upTo, if_neg outside, if_neg outsideNext,
            if_neg outside, shift]
          exact (not_congr Nat.add_right_cancel_iff).trans later
      · rw [if_neg test]
        have assoc : opened ++ next :: rest = (opened ++ [next]) ++ rest := by
          simp
        by_cases boundary : i + 1 = opened.length
        · -- The open group takes in the item after `i`.
          have inside : i < (opened ++ [next]).length := by
            rw [List.length_append]
            omega
          have insideNext : i + 1 < (opened ++ [next]).length := by
            rw [List.length_append, List.length_singleton]
            omega
          have same : next = item := by
            rw [List.getElem?_append_right (by omega), boundary,
              Nat.sub_self] at found
            exact Option.some.inj found
          have whole : (opened ++ [next]).take (i + 1) = opened := by
            rw [boundary, List.take_left]
          rw [(groupsFrom_begins closes inside).1,
            (groupsFrom_begins closes insideNext).1,
            (groupsFrom_begins closes inside).2, whole, ← same]
          exact iff_of_false (not_not_intro rfl) test
        · rw [assoc] at found
          exact induction (by
            rw [List.length_append, List.length_singleton]
            omega) (by simp) found (by simp)

/-- Consecutive items fall into different groups exactly when the test closes
the group of the first one behind it. -/
theorem groups_index_ne_iff {items : List α} {i : Nat} {item : α}
    (found : items[i + 1]? = some item) :
    indexOf (groups closes items) i ≠
        indexOf (groups closes items) (i + 1) ↔
      closes (upTo (groups closes items) i) item = true := by
  cases items with
  | nil => cases found
  | cons first rest =>
      exact groupsFrom_index_ne_iff closes (Nat.le_add_left 1 i)
        (List.cons_ne_nil first []) found

/-! ## Longest chains -/

section Chains

variable (follows : α → α → Prop)

/-- The last item of `front` is not followed by the first of `back`. -/
def BreaksBetween (front back : List α) : Prop :=
  ∀ last ∈ front.getLast?, ∀ first ∈ back.head?, ¬follows last first

/-- Within `before ++ run ++ after`, the items of `run` follow one another
and those around it do not. -/
structure LongestChain (before run after : List α) : Prop where
  nonempty : run ≠ []
  chained : run.IsChain follows
  begins : BreaksBetween follows before run
  ends : BreaksBetween follows run after

variable {follows}

theorem breaksBetween_append_left {front : List α} (nonempty : front ≠ [])
    (before back : List α) :
    BreaksBetween follows (before ++ front) back ↔
      BreaksBetween follows front back := by
  rw [BreaksBetween, BreaksBetween,
    List.getLast?_append_of_ne_nil before nonempty]

theorem breaksBetween_append_right {back : List α} (nonempty : back ≠ [])
    (front after : List α) :
    BreaksBetween follows front (back ++ after) ↔
      BreaksBetween follows front back := by
  rw [BreaksBetween, BreaksBetween, List.head?_append_of_ne_nil back nonempty]

theorem exists_longestChain {items : List α} (nonempty : items ≠ []) :
    ∃ run after, items = run ++ after ∧
      LongestChain follows [] run after := by
  induction items with
  | nil => exact absurd rfl nonempty
  | cons first rest induction =>
      cases rest with
      | nil =>
          exact ⟨[first], [], rfl, List.cons_ne_nil first [],
            List.isChain_singleton first, by simp [BreaksBetween],
            by simp [BreaksBetween]⟩
      | cons next rest =>
          obtain ⟨run, after, split, chain⟩ :=
            induction (List.cons_ne_nil next rest)
          obtain ⟨head, tail, rfl⟩ :=
            List.exists_cons_of_ne_nil chain.nonempty
          obtain ⟨rfl, rfl⟩ := List.cons.inj split
          by_cases joined : follows first next
          · refine ⟨first :: next :: tail, after, rfl,
              List.cons_ne_nil first _,
              List.isChain_cons_cons.mpr ⟨joined, chain.chained⟩,
              by simp [BreaksBetween], ?_⟩
            exact (breaksBetween_append_left chain.nonempty [first]
              after).mpr chain.ends
          · refine ⟨[first], next :: (tail ++ after), rfl,
              List.cons_ne_nil first [], List.isChain_singleton first,
              by simp [BreaksBetween], ?_⟩
            simpa [BreaksBetween] using joined

/-- What holds of a list exactly when it holds of both sides of every break
holds of a list exactly when it holds of its longest chains. -/
theorem forall_longestChain_iff {holds : List α → Prop} (empty : holds [])
    (split : ∀ front back, BreaksBetween follows front back →
      (holds (front ++ back) ↔ holds front ∧ holds back))
    (items : List α) :
    holds items ↔ ∀ before run after, items = before ++ run ++ after →
      LongestChain follows before run after → holds run := by
  constructor
  · rintro whole before run after rfl chain
    have ends := (breaksBetween_append_left chain.nonempty before after).mpr
      chain.ends
    have started := ((split _ _ ends).mp whole).1
    exact ((split _ _ chain.begins).mp started).2
  · intro chains
    induction length : items.length using Nat.strong_induction_on
      generalizing items with
    | _ length induction =>
        by_cases nonempty : items = []
        · exact nonempty ▸ empty
        obtain ⟨run, after, rfl, chain⟩ :=
          @exists_longestChain _ follows _ nonempty
        have begun := List.length_pos_of_ne_nil chain.nonempty
        rw [split run after chain.ends]
        refine ⟨chains [] run after rfl chain, ?_⟩
        refine induction after.length (by
          rw [List.length_append] at length
          omega) after ?_ rfl
        rintro before later rest rfl laterChain
        refine chains (run ++ before) later rest (by simp) ?_
        refine ⟨laterChain.nonempty, laterChain.chained, ?_, laterChain.ends⟩
        by_cases adjacent : before = []
        · subst adjacent
          rw [List.append_nil]
          exact (breaksBetween_append_right laterChain.nonempty run
            rest).mp chain.ends
        · exact (breaksBetween_append_left adjacent run later).mpr
            laterChain.begins

end Chains

end Grouping
