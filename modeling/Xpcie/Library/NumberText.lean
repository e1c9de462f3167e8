import Mathlib.Data.Nat.Digits.Defs

/-!
# Numbers as text

`formatNat` writes a number in a base with a least number of digits.  Reading
takes all the digits a text begins with, so a number can be read back when
what follows it is no digit.
-/

namespace NumberText

def digitChars : List Char :=
  "0123456789ABCDEF".toList

def digitChar (digit : Nat) : Char :=
  (digitChars[digit]?).getD '0'

def digitValue (char : Char) : Option Nat :=
  digitChars.idxOf? char

def formatNat (base precision value : Nat) : List Char :=
  ((Nat.digits base value).reverse.map digitChar).leftpad precision '0'

/-- The number a text begins with, and the text after it. -/
def readDigits (base : Nat) : Nat → List Char → Nat × List Char
  | value, [] => (value, [])
  | value, char :: rest =>
      match digitValue char with
      | some digit => readDigits base (base * value + digit) rest
      | none => (value, char :: rest)

def readNat (base : Nat) (text : List Char) : Nat × List Char :=
  readDigits base 0 text

theorem digitValue_digitChar {digit : Nat} (small : digit < 16) :
    digitValue (digitChar digit) = some digit := by
  have table : ∀ digit : Fin 16,
      digitValue (digitChar digit) = some digit.val := by decide
  exact table ⟨digit, small⟩

theorem digitChar_isDigit (digit : Nat) :
    (digitValue (digitChar digit)).isSome := by
  by_cases small : digit < 16
  · rw [digitValue_digitChar small]
    rfl
  · have length : digitChars.length = 16 := by decide
    have beyond : digitChars[digit]? = none := by
      rw [List.getElem?_eq_none_iff, length]
      exact Nat.le_of_not_lt small
    rw [digitChar, beyond]
    decide

section Base

variable {base : Nat}

theorem formatNat_eq (base precision value : Nat) :
    ∃ zeros, formatNat base precision value =
      (Nat.digits base value ++ List.replicate zeros 0).reverse.map
        digitChar := by
  refine ⟨precision - (Nat.digits base value).length, ?_⟩
  have zero : digitChar 0 = '0' := by decide
  rw [List.reverse_append, List.reverse_replicate, List.map_append,
    List.map_replicate, zero, formatNat, List.leftpad, List.length_map,
    List.length_reverse]

/-- A number is written with digits only. -/
theorem formatNat_isDigit {precision value : Nat} :
    ∀ char ∈ formatNat base precision value, (digitValue char).isSome := by
  obtain ⟨zeros, written⟩ := formatNat_eq base precision value
  intro char member
  rw [written] at member
  obtain ⟨digit, _, rfl⟩ := List.mem_map.mp member
  exact digitChar_isDigit digit

theorem readDigits_map {digits : List Nat} {char : Char}
    (small : ∀ digit ∈ digits, digit < 16) (ends : digitValue char = none)
    (value : Nat) (rest : List Char) :
    readDigits base value (digits.map digitChar ++ char :: rest) =
      (digits.foldl (fun value digit => base * value + digit) value,
        char :: rest) := by
  induction digits generalizing value with
  | nil =>
      simp only [List.map_nil, List.nil_append, readDigits, ends,
        List.foldl_nil]
  | cons digit digits induction =>
      obtain ⟨here, later⟩ := List.forall_mem_cons.mp small
      simp only [List.map_cons, List.cons_append, readDigits,
        digitValue_digitChar here, List.foldl_cons]
      exact induction later _

/-- A number that was written is read, up to a character that is no digit. -/
theorem readNat_formatNat (several : 1 < base) (small : base ≤ 16)
    (precision value : Nat) {char : Char} (ends : digitValue char = none)
    (rest : List Char) :
    readNat base (formatNat base precision value ++ char :: rest) =
      (value, char :: rest) := by
  obtain ⟨zeros, written⟩ := formatNat_eq base precision value
  have bounded : ∀ digit ∈
      (Nat.digits base value ++ List.replicate zeros 0).reverse,
      digit < 16 := by
    intro digit member
    rcases List.mem_append.mp (List.mem_reverse.mp member) with inside | zero
    · have below := Nat.digits_lt_base several inside
      omega
    · have equal := List.eq_of_mem_replicate zero
      omega
  have horner := Nat.ofDigits_eq_foldr base
    (Nat.digits base value ++ List.replicate zeros 0)
  rw [Nat.ofDigits_append_replicate_zero, Nat.ofDigits_digits] at horner
  have whole : (Nat.digits base value ++ List.replicate zeros 0).foldr
      (fun digit value => base * value + digit) 0 = value := by
    simpa only [Nat.add_comm, Nat.cast_id] using horner.symm
  rw [readNat, written, readDigits_map bounded ends, List.foldl_reverse,
    whole]

/-- Two digits are enough for a number below the square of the base. -/
theorem formatNat_two (several : 1 < base) {value : Nat}
    (small : value < base * base) :
    formatNat base 2 value =
      [digitChar (value / base), digitChar (value % base)] := by
  have quotient : value / base < base := Nat.div_lt_of_lt_mul small
  rcases Nat.eq_zero_or_pos value with rfl | positive
  · rw [formatNat, Nat.digits_zero, Nat.zero_div, Nat.zero_mod]
    rfl
  · rw [formatNat, Nat.digits_def' several positive]
    rcases Nat.eq_zero_or_pos (value / base) with zero | tens
    · rw [zero, Nat.digits_zero]
      rfl
    · rw [Nat.digits_of_lt base _ (Nat.ne_of_gt tens) quotient]
      rfl

end Base

end NumberText
