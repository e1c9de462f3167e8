import Mathlib.Data.Nat.Digits.Defs

/-!
# Numbers as a C program prints and reads them

`%x` with a precision, and `strtoul` with base zero: blanks, a sign, a prefix
that says the base, digits up to the first character that is none.  A number
too large is read as the largest there is.
-/

namespace CNumber

/-- `isspace` -/
def isSpace (char : Char) : Bool :=
  char = ' ' || '\t' ≤ char && char ≤ '\r'

/-- A character as a digit; the letters go on after nine, in either case. -/
def digitOf (char : Char) : Option Nat :=
  if '0' ≤ char ∧ char ≤ '9' then some (char.toNat - '0'.toNat)
  else if 'a' ≤ char ∧ char ≤ 'z' then some (char.toNat - 'a'.toNat + 10)
  else if 'A' ≤ char ∧ char ≤ 'Z' then some (char.toNat - 'A'.toNat + 10)
  else none

def digitIn (base : Nat) (char : Char) : Option Nat :=
  (digitOf char).filter (· < base)

/-- The number that the first digits of a text continue. -/
def readDigits (base : Nat) : Nat → List Char → Nat
  | value, [] => value
  | value, char :: rest =>
      match digitIn base char with
      | some digit => readDigits base (base * value + digit) rest
      | none => value

/-- Whether there is a minus, and the text after the sign. -/
def readSign : List Char → Bool × List Char
  | '-' :: rest => (true, rest)
  | '+' :: rest => (false, rest)
  | text => (false, text)

/-- The base that a prefix says, and the text after it. -/
def readBase : List Char → Nat × List Char
  | '0' :: 'x' :: rest => (16, rest)
  | '0' :: 'X' :: rest => (16, rest)
  | '0' :: rest => (8, rest)
  | text => (10, text)

/-- `strtoul(text, 0, 0)`, where an `unsigned long` has `width` bits. -/
def strtoul (width : Nat) (text : List Char) : BitVec width :=
  let (negative, text) := readSign (text.dropWhile isSpace)
  let (base, text) := readBase text
  let value := readDigits base 0 text
  if 2 ^ width ≤ value then BitVec.allOnes width
  else if negative then -BitVec.ofNat width value
  else BitVec.ofNat width value

def digitChar (digit : Nat) : Char :=
  if digit < 10 then Char.ofNat ('0'.toNat + digit)
  else Char.ofNat ('a'.toNat + (digit - 10))

/-- A number with at least `precision` digits. -/
def format (base precision value : Nat) : List Char :=
  ((Nat.digits base value).reverse.map digitChar).leftpad precision '0'

/-- `0x%0*x` -/
def formatHex (precision value : Nat) : List Char :=
  '0' :: 'x' :: format 16 precision value

/-! ## Reading what was printed -/

theorem digitIn_digitChar {base digit : Nat} (below : digit < base)
    (known : base ≤ 16) : digitIn base (digitChar digit) = some digit := by
  have table : ∀ digit : Fin 16, digitOf (digitChar digit) = some digit.val := by
    decide
  rw [digitIn, table ⟨digit, Nat.lt_of_lt_of_le below known⟩,
    Option.filter_some, if_pos (decide_eq_true below)]

theorem format_eq (base precision value : Nat) :
    ∃ zeros, format base precision value =
      (Nat.digits base value ++ List.replicate zeros 0).reverse.map
        digitChar := by
  refine ⟨precision - (Nat.digits base value).length, ?_⟩
  have zero : digitChar 0 = '0' := by decide
  rw [List.reverse_append, List.reverse_replicate, List.map_append,
    List.map_replicate, zero, format, List.leftpad, List.length_map,
    List.length_reverse]

/-- The digits of a printed number. -/
theorem mem_format {base precision value : Nat} (several : 1 < base)
    {char : Char} (member : char ∈ format base precision value) :
    ∃ digit < base, char = digitChar digit := by
  obtain ⟨zeros, written⟩ := format_eq base precision value
  rw [written] at member
  obtain ⟨digit, inside, rfl⟩ := List.mem_map.mp member
  refine ⟨digit, ?_, rfl⟩
  rcases List.mem_append.mp (List.mem_reverse.mp inside) with digit | zero
  · exact Nat.digits_lt_base several digit
  · rw [List.eq_of_mem_replicate zero]
    exact Nat.lt_of_succ_lt several

theorem readDigits_map {base : Nat} (known : base ≤ 16) {digits : List Nat}
    (small : ∀ digit ∈ digits, digit < base) {rest : List Char}
    (ends : ∀ char ∈ rest.head?, digitIn base char = none) (value : Nat) :
    readDigits base value (digits.map digitChar ++ rest) =
      digits.foldl (fun value digit => base * value + digit) value := by
  induction digits generalizing value with
  | nil =>
      cases rest with
      | nil => rfl
      | cons char rest =>
          rw [List.map_nil, List.nil_append, readDigits, ends char rfl]
          rfl
  | cons digit digits induction =>
      obtain ⟨here, later⟩ := List.forall_mem_cons.mp small
      rw [List.map_cons, List.cons_append, readDigits,
        digitIn_digitChar here known]
      exact induction later _

theorem readDigits_format {base : Nat} (several : 1 < base)
    (known : base ≤ 16) (precision value : Nat) {rest : List Char}
    (ends : ∀ char ∈ rest.head?, digitIn base char = none) :
    readDigits base 0 (format base precision value ++ rest) = value := by
  obtain ⟨zeros, written⟩ := format_eq base precision value
  have bounded : ∀ digit ∈
      (Nat.digits base value ++ List.replicate zeros 0).reverse,
      digit < base := by
    intro digit member
    rcases List.mem_append.mp (List.mem_reverse.mp member) with inside | zero
    · exact Nat.digits_lt_base several inside
    · rw [List.eq_of_mem_replicate zero]
      exact Nat.lt_of_succ_lt several
  have horner := Nat.ofDigits_eq_foldr base
    (Nat.digits base value ++ List.replicate zeros 0)
  rw [Nat.ofDigits_append_replicate_zero, Nat.ofDigits_digits] at horner
  have whole : (Nat.digits base value ++ List.replicate zeros 0).foldr
      (fun digit value => base * value + digit) 0 = value := by
    simpa only [Nat.add_comm, Nat.cast_id] using horner.symm
  rw [written, readDigits_map known bounded ends, List.foldl_reverse, whole]

/-- `strtoul` reads the number a `0x%0*x` has printed, up to a character that
is no digit. -/
theorem strtoul_formatHex {width value : Nat} (small : value < 2 ^ width)
    (precision : Nat) {rest : List Char}
    (ends : ∀ char ∈ rest.head?, digitIn 16 char = none) :
    strtoul width (formatHex precision value ++ rest) =
      BitVec.ofNat width value := by
  have read := readDigits_format (by decide) (Nat.le_refl 16) precision value
    ends
  have start : strtoul width (formatHex precision value ++ rest) =
      if 2 ^ width ≤ readDigits 16 0 (format 16 precision value ++ rest) then
        BitVec.allOnes width
      else BitVec.ofNat width
        (readDigits 16 0 (format 16 precision value ++ rest)) := rfl
  rw [start, read, if_neg (Nat.not_le_of_lt small)]

/-- A printed number has no blank in it. -/
theorem not_mem_formatHex (precision value : Nat) :
    ' ' ∉ formatHex precision value := by
  intro member
  rcases List.mem_cons.mp member with zero | member
  · exact absurd zero (by decide)
  · rcases List.mem_cons.mp member with x | member
    · exact absurd x (by decide)
    · obtain ⟨digit, below, same⟩ := mem_format (by decide) member
      have table : ∀ digit : Fin 16, ' ' ≠ digitChar digit := by decide
      exact table ⟨digit, below⟩ same

/-- What stands behind the last blank of a text. -/
def lastField (text : List Char) : List Char :=
  (text.reverse.takeWhile (· ≠ ' ')).reverse

theorem lastField_append (front : List Char) {field : List Char}
    (noBlank : ' ' ∉ field) : lastField (front ++ ' ' :: field) = field := by
  have whole : ∀ char ∈ field.reverse, decide (char ≠ ' ') = true := by
    intro char member
    apply decide_eq_true
    rintro rfl
    exact noBlank (List.mem_reverse.mp member)
  rw [lastField, List.reverse_append, List.reverse_cons, List.append_assoc,
    List.takeWhile_append_of_pos whole, List.singleton_append,
    List.takeWhile_cons_of_neg (by decide), List.append_nil,
    List.reverse_reverse]

end CNumber
