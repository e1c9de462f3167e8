import Mathlib.Data.List.Basic
import Mathlib.Data.List.Range

/-!
# Consecutive addresses

`span base size` lists the `size` addresses from `base` on, in the modular
arithmetic of the address width.  The second half cuts a range of naturals at
block boundaries.
-/

namespace AddressSpan

variable {width : Nat}

def span (base : BitVec width) (size : Nat) : List (BitVec width) :=
  (List.range size).map fun offset => base + BitVec.ofNat width offset

@[simp] theorem span_zero (base : BitVec width) : span base 0 = [] := rfl

@[simp] theorem span_length (base : BitVec width) (size : Nat) :
    (span base size).length = size := by
  simp [span]

theorem span_add (base : BitVec width) (first second : Nat) :
    span base (first + second) =
      span base first ++ span (base + BitVec.ofNat width first) second := by
  simp only [span, List.range_add, List.map_append, List.map_map,
    List.append_cancel_left_eq]
  apply List.map_congr_left
  intro offset _
  simp [BitVec.ofNat_add, BitVec.add_assoc]

/-- The positions from `lead` to `finish`, cut at every multiple of `block`,
are met block by block in order. -/
theorem flatMap_blocks {β : Type} (cell : Nat → β)
    (block lead finish blocks : Nat) :
    (List.range blocks).flatMap (fun index =>
        (List.range (min finish (block * (index + 1)) -
            max lead (block * index))).map fun offset =>
          cell (max lead (block * index) + offset)) =
      (List.range (min finish (block * blocks) - lead)).map fun offset =>
        cell (lead + offset) := by
  induction blocks with
  | zero => simp
  | succ blocks induction =>
      have ordered : block * blocks ≤ block * (blocks + 1) :=
        Nat.mul_le_mul_left block (Nat.le_succ blocks)
      have sizes : min finish (block * (blocks + 1)) - lead =
          (min finish (block * blocks) - lead) +
            (min finish (block * (blocks + 1)) -
              max lead (block * blocks)) := by
        omega
      rw [List.range_succ, List.flatMap_append, induction, sizes,
        List.range_add, List.map_append, List.map_map]
      simp only [List.flatMap_singleton, List.append_cancel_left_eq]
      apply List.map_congr_left
      intro offset member
      have inside := List.mem_range.mp member
      have position : max lead (block * blocks) + offset =
          lead + (min finish (block * blocks) - lead + offset) := by
        omega
      simp [position]

end AddressSpan
