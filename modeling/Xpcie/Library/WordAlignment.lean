import Mathlib.Algebra.Order.Ring.Int

/-!
# Aligned words

A word is aligned to a unit that divides its value.  When the unit divides
the number of words as well, wrapping around does not lose the alignment.
-/

namespace WordAlignment

def Aligned {w : Nat} (unit : Nat) (word : BitVec w) : Prop :=
  unit ∣ word.toNat

variable {w v unit : Nat} {first second word : BitVec w}

theorem aligned_zero (w unit : Nat) : Aligned unit (0 : BitVec w) := by
  rw [Aligned, BitVec.ofNat_eq_ofNat, BitVec.toNat_ofNat, Nat.zero_mod]
  exact Nat.dvd_zero unit

theorem Aligned.add (divides : unit ∣ 2 ^ w) (firstAligned : Aligned unit first)
    (secondAligned : Aligned unit second) : Aligned unit (first + second) := by
  rw [Aligned, BitVec.toNat_add]
  exact (Nat.dvd_mod_iff divides).mpr
    (Nat.dvd_add firstAligned secondAligned)

theorem Aligned.sub (divides : unit ∣ 2 ^ w) (firstAligned : Aligned unit first)
    (secondAligned : Aligned unit second) : Aligned unit (first - second) := by
  rw [Aligned, BitVec.toNat_sub]
  apply (Nat.dvd_mod_iff divides).mpr
  exact Nat.dvd_add (Nat.dvd_sub divides secondAligned) firstAligned

theorem Aligned.setWidth (divides : unit ∣ 2 ^ v)
    (aligned : Aligned unit word) : Aligned unit (word.setWidth v) := by
  rw [Aligned, BitVec.toNat_setWidth]
  exact (Nat.dvd_mod_iff divides).mpr aligned

end WordAlignment
