import Xpcie.Machine
import Xpcie.Library.EffectLog
import Xpcie.Library.NumberText
import Xpcie.Library.RunLength

/-!
# Dumping a buffer

`hex_dump` prints sixteen bytes in a row.  It leaves out a row that equals
the one before it, and marks a row when the one after it is left out.  The
two tests look in opposite directions and guard the end of the buffer on
their own; they agree, and the text determines the buffer.
-/

namespace Xpcie

open EffectLog NumberText RunLength

/-! ## The program -/

inductive DumpFault where
  /-- A byte outside the buffer was read. -/
  | outOfBounds
  /-- A `long` overflowed. -/
  | overflow
  /-- The loop goes round more often than it was given steps for. -/
  | unfinished
  deriving DecidableEq, Repr

/-- A run of `hex_dump`; its log is what it prints. -/
abbrev DumpRun := Run Char DumpFault

def printf (text : List Char) : DumpRun Unit :=
  Run.emitAll text

def longMax : Int := 2 ^ 63 - 1

/-- A value of type `long`. -/
def long (value : Int) : DumpRun Int := do
  Run.require (-longMax - 1 ≤ value ∧ value ≤ longMax) .overflow
  pure value

/-- The static variables, which nothing sets. -/
def wide : Int := 16
def full : Int := 0
def mtime : Int := 0

/-- `%.8lX` -/
def hexAddress (value : Int) : List Char :=
  formatNat 16 8 (BitVec.ofInt 64 value).toNat

/-- `%ld` -/
def decimal (value : Int) : List Char :=
  if value < 0 then '-' :: formatNat 10 1 value.natAbs
  else formatNat 10 1 value.natAbs

def readByte (buf : List U8) (index : Int) : DumpRun U8 :=
  if index < 0 then Run.fail .outOfBounds
  else Run.demand buf[index.toNat]? .outOfBounds

def readBytes (buf : List U8) : Nat → Int → DumpRun (List U8)
  | 0, _ => pure []
  | count + 1, index => do
      let byte ← readByte buf index
      let bytes ← readBytes buf count (index + 1)
      pure (byte :: bytes)

/-- The first difference decides. -/
def byteOrder : List U8 → List U8 → Int
  | first :: firsts, second :: seconds =>
      if first = second then byteOrder firsts seconds
      else (first.toNat : Int) - second.toNat
  | _, _ => 0

/-- `memcmp` may read all of both lines. -/
def memcmp (buf : List U8) (first second : Int) (count : Nat) :
    DumpRun Int := do
  let firsts ← readBytes buf count first
  let seconds ← readBytes buf count second
  pure (byteOrder firsts seconds)

/-- `memcmp(cl, other, WIDE) == 0` -/
def sameLine (buf : List U8) (cl other : Int) : DumpRun Bool := do
  let order ← memcmp buf cl other wide.toNat
  pure (decide (order = 0))

/-- `n >= WIDE && i >= WIDE && memcmp(cl, pl, WIDE) == 0` -/
def equalsPrevious (buf : List U8) (i n pl : Int) : DumpRun Bool :=
  if n ≥ wide ∧ i ≥ wide then sameLine buf i pl else pure false

/-- `n >= 2 * WIDE && memcmp(cl, nl, WIDE) == 0` -/
def equalsNext (buf : List U8) (i n nl : Int) : DumpRun Bool :=
  if n ≥ 2 * wide then sameLine buf i nl else pure false

/-- `SAFE` -/
def safe (c : U8) : Char :=
  if ' '.toNat ≤ c.toNat ∧ c.toNat ≤ '~'.toNat then Char.ofNat c.toNat
  else '.'

/-- Display bytes in hexadecimal format. -/
def hexColumns (buf : List U8) (i n : Int) : Nat → Nat → DumpRun Unit
  | 0, _ => pure ()
  | remaining + 1, j => do
      if j < n then do
        let index ← long (i + j)
        let byte ← readByte buf index
        printf (' ' :: formatNat 16 2 byte.toNat)
      else
        -- file not mod-16; partial last line
        printf [' ', '-', '-']
      hexColumns buf i n remaining (j + 1)

/-- Display bytes as ascii characters on right. -/
def asciiColumns (buf : List U8) (i n : Int) : Nat → Nat → DumpRun Unit
  | 0, _ => pure ()
  | remaining + 1, j => do
      if j < n then do
        let index ← long (i + j)
        let byte ← readByte buf index
        printf [safe byte]
      asciiColumns buf i n remaining (j + 1)

def dumpBytes (buf : List U8) (i n : Int) : DumpRun Unit := do
  hexColumns buf i n wide.toNat 0
  printf [' ', ' ']
  asciiColumns buf i n wide.toNat 0
  printf ['\n']

/-- The body of the loop. -/
def dumpRow (buf : List U8) (size i : Int) : DumpRun Unit := do
  let n ← long (size - i)
  if full ≠ 0 then do
    printf (hexAddress i ++ [':'])
    dumpBytes buf i n
  else do
    let pl ← long (i - wide)
    let nl ← long (i + wide)
    -- If current line is the same as previous line then skip it.
    let skipped ← equalsPrevious buf i n pl
    if skipped then pure ()
    else do
      -- If current line is the same as next line then mark it.
      let marked ← equalsNext buf i n nl
      printf (hexAddress i ++ [if marked then '*' else ':'])
      dumpBytes buf i n

/-- The loop over the rows; `steps` bounds how often the test is made. -/
def dumpRows (buf : List U8) (size : Int) : Nat → Int → DumpRun Unit
  | 0, _ => Run.fail .unfinished
  | steps + 1, i =>
      if i < size then do
        dumpRow buf size i
        let next ← long (i + wide)
        dumpRows buf size steps next
      else pure ()

def hexDump (buf : List U8) (size : Int) : DumpRun Unit := do
  dumpRows buf size (size.toNat + 1) 0
  printf (hexAddress size ++ ": end (".toList ++ decimal size ++
    " bytes) mtime ".toList ++ decimal mtime ++ ['\n'])

/-! ## The reader -/

/-- A printed row. -/
structure DumpRow where
  addr : Nat
  marked : Bool
  columns : List (Option U8)
  deriving DecidableEq, Repr

/-- Two characters of a column; `--` stands for no byte. -/
def readColumn (high low : Char) : Option (Option U8) :=
  if high = '-' ∧ low = '-' then some none
  else do
    let high ← digitValue high
    let low ← digitValue low
    some (some (BitVec.ofNat 8 (16 * high + low)))

def readColumns : Nat → List Char → Option (List (Option U8))
  | 0, _ => some []
  | count + 1, ' ' :: high :: low :: rest => do
      let column ← readColumn high low
      let columns ← readColumns count rest
      some (column :: columns)
  | _ + 1, _ => none

/-- The characters on the right are for the eye only. -/
def readRow (line : List Char) : Option DumpRow :=
  match readNat 16 line with
  | (addr, mark :: rest) =>
      if mark = ':' ∨ mark = '*' then do
        let columns ← readColumns 16 rest
        some { addr, marked := decide (mark = '*'), columns }
      else none
  | (_, []) => none

def readEnd (line : List Char) : Option Nat :=
  match readNat 16 line with
  | (addr, rest) =>
      if ": end (".toList.isPrefixOf rest then some addr else none

/-- The rows up to the end line, and the address it gives. -/
def readLines : List (List Char) → Option (List DumpRow × Nat)
  | [] => none
  | line :: later =>
      match readRow line with
      | some row => do
          let (rows, endAddr) ← readLines later
          some (row :: rows, endAddr)
      | none => do
          let endAddr ← readEnd line
          some ([], endAddr)

def readDump (text : List Char) : Option (List DumpRow × Nat) :=
  readLines (text.splitOn '\n')

/-- Where the row after a printed row stands, or the end. -/
def nextAddr (endAddr : Nat) (later : List DumpRow) : Nat :=
  (later.head?.map DumpRow.addr).getD endAddr

/-- The bytes the rows describe from `addr` on.  A row has to stand where the
ones before it end; a marked one is copied over every row up to the next. -/
def restore (endAddr : Nat) : Nat → List DumpRow → Option (List U8)
  | addr, [] => if addr = endAddr then some [] else none
  | addr, row :: later =>
      if row.addr = addr then do
        let bytes := row.columns.filterMap id
        let copies :=
          if row.marked then (nextAddr endAddr later - addr) / 16 else 1
        let filled := (List.replicate copies bytes).flatten
        let rest ← restore endAddr (addr + filled.length) later
        some (filled ++ rest)
      else none

/-- The sixteen bytes at `addr` have no row. -/
def Suppressed (rows : List DumpRow) (endAddr addr : Nat) : Prop :=
  addr + 16 ≤ endAddr ∧ ∀ row ∈ rows, row.addr ≠ addr

/-! ## Reading the buffer -/

/-- Line `k` of the buffer; the last one may be short. -/
def dumpLine (buf : List U8) (k : Nat) : List U8 :=
  (buf.drop (16 * k)).take 16

section Lines

variable {buf : List U8}

theorem dumpLine_length (k : Nat) :
    (dumpLine buf k).length = min 16 (buf.length - 16 * k) := by
  rw [dumpLine, List.length_take, List.length_drop]

theorem dumpLine_getElem? (k : Nat) {j : Nat} (inside : j < 16) :
    (dumpLine buf k)[j]? = buf[16 * k + j]? := by
  rw [dumpLine, List.getElem?_take, if_pos inside, List.getElem?_drop]

theorem long_ok (value : Int) (lower : -longMax - 1 ≤ value)
    (upper : value ≤ longMax) : long value = ⟨.ok value, []⟩ := by
  rw [long, Run.require_of ⟨lower, upper⟩]
  rfl

theorem readByte_ok {index : Nat} {byte : U8}
    (found : buf[index]? = some byte) :
    readByte buf index = ⟨.ok byte, []⟩ := by
  have present : ¬(index : Int) < 0 := Int.not_lt.mpr (Int.natCast_nonneg _)
  rw [readByte, if_neg present, Int.toNat_natCast, found, Run.demand_some]

theorem readBytes_ok {count start : Nat}
    (inside : start + count ≤ buf.length) :
    readBytes buf count start = ⟨.ok ((buf.drop start).take count), []⟩ := by
  induction count generalizing start with
  | zero => rfl
  | succ count induction =>
      have here : start < buf.length := by omega
      have later := induction (show start + 1 + count ≤ buf.length by omega)
      rw [Int.natCast_add, Int.natCast_one] at later
      rw [readBytes, readByte_ok (List.getElem?_eq_getElem here), Run.ok_bind,
        Run.after_nil, later, Run.ok_bind, Run.after_nil,
        List.drop_eq_getElem_cons here, List.take_succ_cons]
      rfl

theorem byteOrder_eq_zero_iff {first second : List U8}
    (lengths : first.length = second.length) :
    byteOrder first second = 0 ↔ first = second := by
  induction first generalizing second with
  | nil =>
      have empty := List.length_eq_zero_iff.mp lengths.symm
      rw [empty]
      exact iff_of_true rfl rfl
  | cons byte first induction =>
      cases second with
      | nil => cases lengths
      | cons other second =>
          rw [byteOrder, List.cons.injEq]
          by_cases same : byte = other
          · rw [if_pos same, induction (Nat.succ.inj lengths)]
            exact (and_iff_right same).symm
          · rw [if_neg same]
            have apart : byte.toNat ≠ other.toNat :=
              fun equal => same (BitVec.eq_of_toNat_eq equal)
            apply iff_of_false
            · omega
            · exact fun both => same both.1

/-- Comparing two full lines reads nothing else. -/
theorem sameLine_ok {k other : Nat} (lineInside : 16 * (k + 1) ≤ buf.length)
    (otherInside : 16 * (other + 1) ≤ buf.length) :
    sameLine buf (16 * k : Nat) (16 * other : Nat) =
      ⟨.ok (decide (dumpLine buf k = dumpLine buf other)), []⟩ := by
  have lengths : (dumpLine buf k).length = (dumpLine buf other).length := by
    rw [dumpLine_length, dumpLine_length]
    omega
  have firsts : readBytes buf 16 (16 * k : Nat) =
      ⟨.ok (dumpLine buf k), []⟩ := readBytes_ok (by omega)
  have seconds : readBytes buf 16 (16 * other : Nat) =
      ⟨.ok (dumpLine buf other), []⟩ := readBytes_ok (by omega)
  have width : wide.toNat = 16 := rfl
  rw [sameLine, memcmp, width, firsts, Run.ok_bind, Run.after_nil, seconds,
    Run.ok_bind, Run.after_nil, Run.pure_eq, Run.ok_bind, Run.after_nil,
    Run.pure_eq]
  simp only [byteOrder_eq_zero_iff lengths]

/-! ## Printing a row -/

def columnText : Option U8 → List Char
  | some byte => ' ' :: formatNat 16 2 byte.toNat
  | none => [' ', '-', '-']

def lineColumns (bytes : List U8) : List (Option U8) :=
  (List.range 16).map fun j => bytes[j]?

theorem column_present {k j : Nat} (inside : j < 16)
    (before : (j : Int) < (buf.length : Int) - (16 * k : Nat)) :
    ∃ byte, (dumpLine buf k)[j]? = some byte ∧
      buf[16 * k + j]? = some byte := by
  have present : 16 * k + j < buf.length := by omega
  rw [dumpLine_getElem? k inside]
  exact ⟨_, List.getElem?_eq_getElem present,
    List.getElem?_eq_getElem present⟩

theorem column_missing {k j : Nat}
    (beyond : ¬(j : Int) < (buf.length : Int) - (16 * k : Nat)) :
    (dumpLine buf k)[j]? = none := by
  rw [List.getElem?_eq_none_iff, dumpLine_length]
  omega

theorem rowIndex_ok (bounded : (buf.length : Int) ≤ longMax) {k j : Nat}
    {byte : U8} (found : buf[16 * k + j]? = some byte) :
    long ((16 * k : Nat) + j) = ⟨.ok (16 * k + j : Nat), []⟩ := by
  have present := (List.getElem?_eq_some_iff.mp found).1
  have lower : -longMax - 1 ≤ ((16 * k + j : Nat) : Int) := by
    unfold longMax
    omega
  rw [← Int.natCast_add, long_ok _ lower (by omega)]

theorem hexColumns_ok (bounded : (buf.length : Int) ≤ longMax) (k : Nat)
    {remaining j : Nat} (inside : j + remaining ≤ 16) :
    hexColumns buf (16 * k : Nat) ((buf.length : Int) - (16 * k : Nat))
        remaining j =
      ⟨.ok (), (List.range' j remaining).flatMap fun j =>
        columnText (dumpLine buf k)[j]?⟩ := by
  induction remaining generalizing j with
  | zero => rfl
  | succ remaining induction =>
      have later := induction (show j + 1 + remaining ≤ 16 by omega)
      rw [List.range'_succ, List.flatMap_cons, hexColumns]
      by_cases before : (j : Int) < (buf.length : Int) - (16 * k : Nat)
      · obtain ⟨byte, shown, found⟩ := column_present (by omega) before
        rw [if_pos before, rowIndex_ok bounded found, Run.ok_bind,
          Run.after_nil, readByte_ok found, shown]
        simp only [Run.ok_bind, printf, Run.emitAll_eq, later, Run.after_mk]
        rfl
      · rw [if_neg before, column_missing before]
        simp only [Run.ok_bind, printf, Run.emitAll_eq, later, Run.after_mk]
        rfl

theorem asciiColumns_ok (bounded : (buf.length : Int) ≤ longMax) (k : Nat)
    {remaining j : Nat} (inside : j + remaining ≤ 16) :
    asciiColumns buf (16 * k : Nat) ((buf.length : Int) - (16 * k : Nat))
        remaining j =
      ⟨.ok (), ((List.range' j remaining).filterMap fun j =>
        (dumpLine buf k)[j]?).map safe⟩ := by
  induction remaining generalizing j with
  | zero => rfl
  | succ remaining induction =>
      have later := induction (show j + 1 + remaining ≤ 16 by omega)
      rw [List.range'_succ, asciiColumns]
      by_cases before : (j : Int) < (buf.length : Int) - (16 * k : Nat)
      · obtain ⟨byte, shown, found⟩ := column_present (by omega) before
        rw [if_pos before, rowIndex_ok bounded found, Run.ok_bind,
          Run.after_nil, readByte_ok found, List.filterMap_cons, shown]
        simp only [Run.ok_bind, printf, Run.emitAll_eq, later, Run.after_mk]
        rfl
      · rw [if_neg before, List.filterMap_cons, column_missing before]
        exact later

/-- All positions of a list, and some beyond, give back the list. -/
theorem filterMap_getElem?_range {α : Type} {items : List α} {count : Nat}
    (covered : items.length ≤ count) :
    ((List.range count).filterMap fun j => items[j]?) = items := by
  induction items generalizing count with
  | nil => simp
  | cons item items induction =>
      cases count with
      | zero => cases covered
      | succ count =>
          rw [List.range_succ_eq_map, List.filterMap_cons,
            List.filterMap_map]
          exact congrArg (item :: ·)
            (induction (Nat.le_of_succ_le_succ covered))

def bytesText (bytes : List U8) : List Char :=
  (lineColumns bytes).flatMap columnText ++ [' ', ' '] ++ bytes.map safe

theorem dumpBytes_ok (bounded : (buf.length : Int) ≤ longMax) (k : Nat) :
    dumpBytes buf (16 * k : Nat) ((buf.length : Int) - (16 * k : Nat)) =
      ⟨.ok (), bytesText (dumpLine buf k) ++ ['\n']⟩ := by
  have width : wide.toNat = 16 := rfl
  have short : (dumpLine buf k).length ≤ 16 := by
    rw [dumpLine_length]
    exact Nat.min_le_left _ _
  have columns := hexColumns_ok bounded k (show 0 + 16 ≤ 16 by decide)
  have ascii := asciiColumns_ok bounded k (show 0 + 16 ≤ 16 by decide)
  rw [← List.range_eq_range'] at columns ascii
  rw [filterMap_getElem?_range short] at ascii
  rw [dumpBytes, width, columns, ascii, bytesText, lineColumns,
    List.flatMap_map]
  simp only [printf, Run.emitAll_eq, Run.ok_bind, Run.after_mk,
    List.append_assoc]

/-! ## The tests on the neighbours -/

def previousLine (buf : List U8) : Nat → Option (List U8)
  | 0 => none
  | k + 1 => some (dumpLine buf k)

theorem equalsPrevious_ok {k : Nat} (begins : 16 * k < buf.length) :
    equalsPrevious buf (16 * k : Nat) ((buf.length : Int) - (16 * k : Nat))
        ((16 * k : Nat) - wide) =
      ⟨.ok (decide (previousLine buf k = some (dumpLine buf k))), []⟩ := by
  have width : wide = 16 := rfl
  cases k with
  | zero =>
      have noPrevious : ¬((buf.length : Int) - (16 * 0 : Nat) ≥ wide ∧
          ((16 * 0 : Nat) : Int) ≥ wide) := by omega
      rw [equalsPrevious, if_neg noPrevious]
      rfl
  | succ k =>
      have address : ((16 * (k + 1) : Nat) : Int) - wide =
          (16 * k : Nat) := by omega
      by_cases complete : 16 * (k + 1 + 1) ≤ buf.length
      · have guard : (buf.length : Int) - (16 * (k + 1) : Nat) ≥ wide ∧
            ((16 * (k + 1) : Nat) : Int) ≥ wide := by omega
        have goal := sameLine_ok complete (show 16 * (k + 1) ≤ _ by omega)
        rw [equalsPrevious, if_pos guard, address, goal]
        simp only [previousLine, Option.some.injEq, eq_comm]
      · have guard : ¬((buf.length : Int) - (16 * (k + 1) : Nat) ≥ wide ∧
            ((16 * (k + 1) : Nat) : Int) ≥ wide) := by omega
        -- A partial line never equals the full one before it.
        have apart : ¬previousLine buf (k + 1) =
            some (dumpLine buf (k + 1)) := by
          intro equal
          have lengths := congrArg List.length (Option.some.inj equal)
          rw [dumpLine_length, dumpLine_length] at lengths
          omega
        rw [equalsPrevious, if_neg guard, decide_eq_false apart]
        rfl

theorem equalsNext_ok {k : Nat} (begins : 16 * k < buf.length) :
    equalsNext buf (16 * k : Nat) ((buf.length : Int) - (16 * k : Nat))
        ((16 * k : Nat) + wide) =
      ⟨.ok (decide (16 * (k + 1) < buf.length ∧
        dumpLine buf (k + 1) = dumpLine buf k)), []⟩ := by
  have width : wide = 16 := rfl
  by_cases complete : 16 * (k + 1 + 1) ≤ buf.length
  · have guard : (buf.length : Int) - (16 * k : Nat) ≥ 2 * wide := by omega
    have address : ((16 * k : Nat) : Int) + wide = (16 * (k + 1) : Nat) := by
      omega
    have goal := sameLine_ok (show 16 * (k + 1) ≤ buf.length by omega)
      complete
    have follows : 16 * (k + 1) < buf.length := by omega
    rw [equalsNext, if_pos guard, address, goal]
    simp only [follows, true_and, eq_comm]
  · have guard : ¬(buf.length : Int) - (16 * k : Nat) ≥ 2 * wide := by omega
    have apart : ¬(16 * (k + 1) < buf.length ∧
        dumpLine buf (k + 1) = dumpLine buf k) := by
      rintro ⟨follows, equal⟩
      have lengths := congrArg List.length equal
      rw [dumpLine_length, dumpLine_length] at lengths
      omega
    rw [equalsNext, if_neg guard, decide_eq_false apart]
    rfl

/-! ## The whole text -/

/-- The lines of the buffer from line `k` on. -/
def linesFrom (buf : List U8) (k count : Nat) : List (List U8) :=
  (List.range' k count).map (dumpLine buf)

theorem linesFrom_succ (k count : Nat) :
    linesFrom buf k (count + 1) =
      dumpLine buf k :: linesFrom buf (k + 1) count := by
  rw [linesFrom, List.range'_succ, List.map_cons, linesFrom]

def lineCount (buf : List U8) : Nat :=
  (buf.length + 15) / 16

/-- What is printed for a line that is not left out. -/
def rowText (row : Head (List U8)) : List Char :=
  formatNat 16 8 (16 * row.index) ++
    (if row.repeated then '*' else ':') :: bytesText row.item

theorem hexAddress_eq {value : Nat} (bounded : (value : Int) ≤ longMax) :
    hexAddress value = formatNat 16 8 value := by
  have small : value < 2 ^ 64 := by
    unfold longMax at bounded
    omega
  rw [hexAddress, BitVec.ofInt_natCast, BitVec.toNat_ofNat,
    Nat.mod_eq_of_lt small]

theorem dumpRow_ok (bounded : (buf.length : Int) ≤ longMax - 32) {k : Nat}
    (begins : 16 * k < buf.length) :
    dumpRow buf buf.length (16 * k : Nat) =
      ⟨.ok (),
        if previousLine buf k = some (dumpLine buf k) then []
        else
          rowText ⟨k, dumpLine buf k,
            decide (16 * (k + 1) < buf.length ∧
              dumpLine buf (k + 1) = dumpLine buf k)⟩ ++ ['\n']⟩ := by
  have width : wide = 16 := rfl
  have most : longMax = 2 ^ 63 - 1 := rfl
  have left := long_ok ((buf.length : Int) - (16 * k : Nat))
    (by omega) (by omega)
  have before := long_ok ((16 * k : Nat) - wide)
    (by omega) (by omega)
  have behind := long_ok ((16 * k : Nat) + wide)
    (by omega) (by omega)
  have notFull : ¬full ≠ 0 := not_not_intro rfl
  have address : ((16 * k : Nat) : Int) ≤ longMax := by omega
  have bytes := dumpBytes_ok (show (buf.length : Int) ≤ longMax by omega) k
  rw [dumpRow, left, Run.ok_bind, Run.after_nil, if_neg notFull, before,
    Run.ok_bind, Run.after_nil, behind, Run.ok_bind, Run.after_nil,
    equalsPrevious_ok begins, Run.ok_bind, Run.after_nil]
  by_cases skipped : previousLine buf k = some (dumpLine buf k)
  · rw [decide_eq_true skipped, if_pos rfl, if_pos skipped]
    rfl
  · rw [decide_eq_false skipped, if_neg Bool.false_ne_true, if_neg skipped,
      equalsNext_ok begins, Run.ok_bind, Run.after_nil, hexAddress_eq address,
      bytes]
    simp only [printf, Run.emitAll_eq, Run.ok_bind, Run.after_mk, rowText,
      List.append_assoc, List.cons_append, List.nil_append]

/-- The loop prints the first line of every run of equal lines. -/
theorem dumpRows_ok (bounded : (buf.length : Int) ≤ longMax - 32)
    {k count steps : Nat} (left : k + count = lineCount buf)
    (enough : count < steps) :
    dumpRows buf buf.length steps (16 * k : Nat) =
      ⟨.ok (), (heads (previousLine buf k) k
        (linesFrom buf k count)).flatMap fun row =>
          rowText row ++ ['\n']⟩ := by
  unfold lineCount at left
  induction count generalizing k steps with
  | zero =>
      obtain ⟨steps, rfl⟩ := Nat.exists_eq_add_of_lt enough
      have finished : ¬((16 * k : Nat) : Int) < buf.length := by omega
      rw [dumpRows, if_neg finished]
      rfl
  | succ count induction =>
      obtain ⟨steps, rfl⟩ := Nat.exists_eq_add_of_lt enough
      have most : longMax = 2 ^ 63 - 1 := rfl
      have width : wide = 16 := rfl
      have begins : 16 * k < buf.length := by omega
      have entered : ((16 * k : Nat) : Int) < buf.length := by omega
      have next := long_ok ((16 * k : Nat) + wide)
        (by omega) (by omega)
      have address : ((16 * k : Nat) : Int) + wide =
          (16 * (k + 1) : Nat) := by omega
      have later := induction (show k + 1 + count = _ by omega)
        (show count < count + 1 + steps by omega)
      have follows : (16 * (k + 1) < buf.length ∧
          dumpLine buf (k + 1) = dumpLine buf k) =
            ((linesFrom buf (k + 1) count).head? = some (dumpLine buf k)) := by
        cases count with
        | zero =>
            have last : ¬16 * (k + 1) < buf.length := by omega
            exact propext (iff_of_false (fun both => last both.1) nofun)
        | succ count =>
            have another : 16 * (k + 1) < buf.length := by omega
            rw [linesFrom_succ, List.head?_cons, Option.some.injEq]
            exact propext (and_iff_right another)
      rw [dumpRows, if_pos entered, dumpRow_ok bounded begins, Run.ok_bind,
        next, Run.ok_bind, Run.after_nil, address, later, Run.after_mk,
        linesFrom_succ, heads]
      by_cases skipped : previousLine buf k = some (dumpLine buf k)
      · rw [if_pos skipped, if_pos skipped]
        rfl
      · rw [if_neg skipped, if_neg skipped, List.flatMap_cons]
        simp only [follows]
        rfl

/-- The end line, without its line feed. -/
def endText (size : Nat) : List Char :=
  formatNat 16 8 size ++ ": end (".toList ++ decimal size ++
    " bytes) mtime ".toList ++ decimal mtime

/-- The lines that are not left out. -/
def dumpedRows (buf : List U8) : List (Head (List U8)) :=
  heads none 0 (linesFrom buf 0 (lineCount buf))

/-- Everything the dump of `buf` prints. -/
def dumpText (buf : List U8) : List Char :=
  ((dumpedRows buf).flatMap fun row => rowText row ++ ['\n']) ++
    (endText buf.length ++ ['\n'])

theorem hexDump_ok (bounded : (buf.length : Int) ≤ longMax - 32) :
    hexDump buf buf.length = ⟨.ok (), dumpText buf⟩ := by
  have most : longMax = 2 ^ 63 - 1 := rfl
  have enough : lineCount buf < buf.length + 1 := by
    unfold lineCount
    omega
  have rows := dumpRows_ok bounded (Nat.zero_add (lineCount buf)) enough
  have size := hexAddress_eq (show (buf.length : Int) ≤ longMax by omega)
  change dumpRows buf buf.length (buf.length + 1) 0 = _ at rows
  rw [hexDump, Int.toNat_natCast, rows, Run.ok_bind, printf, Run.emitAll_eq,
    Run.after_mk, size]
  rfl

end Lines

/-! ## Reading the text -/

theorem digit_ne {digit : Nat} {char : Char} (none : digitValue char = none) :
    digitChar digit ≠ char := by
  intro equal
  have isDigit := digitChar_isDigit digit
  rw [equal, none] at isDigit
  cases isDigit

/-- A column is a blank and two characters that tell what it holds. -/
theorem columnText_eq (column : Option U8) :
    ∃ high low, columnText column = [' ', high, low] ∧
      readColumn high low = some column := by
  cases column with
  | none => exact ⟨'-', '-', rfl, rfl⟩
  | some byte =>
      have bound := byte.isLt
      have high := digitValue_digitChar (show byte.toNat / 16 < 16 by omega)
      have low := digitValue_digitChar (show byte.toNat % 16 < 16 by omega)
      have digits : 16 * (byte.toNat / 16) + byte.toNat % 16 = byte.toNat :=
        Nat.div_add_mod _ _
      have noDash : ¬(digitChar (byte.toNat / 16) = '-' ∧
          digitChar (byte.toNat % 16) = '-') :=
        fun both => digit_ne (by decide) both.1
      refine ⟨digitChar (byte.toNat / 16), digitChar (byte.toNat % 16), ?_, ?_⟩
      · rw [columnText, formatNat_two (by decide) bound]
      · rw [readColumn, if_neg noDash, high, low]
        simp [digits]

theorem readColumns_columnText (columns : List (Option U8))
    (rest : List Char) :
    readColumns columns.length (columns.flatMap columnText ++ rest) =
      some columns := by
  induction columns with
  | nil => rfl
  | cons column columns induction =>
      obtain ⟨high, low, written, read⟩ := columnText_eq column
      rw [List.flatMap_cons, List.length_cons, List.append_assoc, written]
      simp only [List.cons_append, List.nil_append, readColumns, read,
        induction, Option.bind_eq_bind, Option.bind_some]

/-- A row as the reader sees it. -/
def printedRow (row : Head (List U8)) : DumpRow :=
  { addr := 16 * row.index
    marked := row.repeated
    columns := lineColumns row.item }

theorem readRow_rowText (row : Head (List U8)) :
    readRow (rowText row) = some (printedRow row) := by
  have mark : digitValue (if row.repeated then '*' else ':') = none := by
    split
    · decide
    · decide
  have length : (lineColumns row.item).length = 16 := by
    rw [lineColumns, List.length_map, List.length_range]
  have columns : readColumns 16 (bytesText row.item) =
      some (lineColumns row.item) := by
    rw [← length, bytesText, List.append_assoc]
    exact readColumns_columnText _ _
  rw [readRow, rowText, readNat_formatNat (by decide) (by decide) 8 _ mark]
  cases repeated : row.repeated with
  | false => simp [columns, printedRow, repeated]
  | true => simp [columns, printedRow, repeated]

theorem endText_eq (size : Nat) :
    ∃ rest, endText size =
      formatNat 16 8 size ++ ':' :: (" end (".toList ++ rest) := by
  refine ⟨decimal size ++ " bytes) mtime ".toList ++ decimal mtime, ?_⟩
  simp only [endText, List.append_assoc]
  rfl

/-- The end line is not taken for a row. -/
theorem readRow_endText (size : Nat) : readRow (endText size) = none := by
  obtain ⟨rest, written⟩ := endText_eq size
  rw [readRow, written,
    readNat_formatNat (by decide) (by decide) 8 _ (by decide)]
  rfl

theorem readEnd_endText (size : Nat) :
    readEnd (endText size) = some size := by
  obtain ⟨rest, written⟩ := endText_eq size
  rw [readEnd, written,
    readNat_formatNat (by decide) (by decide) 8 _ (by decide)]
  exact if_pos (List.isPrefixOf_iff_prefix.mpr (List.prefix_append _ rest))

/-! ## Lines of the text -/

theorem newline_notMem_formatNat (base precision value : Nat) :
    '\n' ∉ formatNat base precision value := by
  intro member
  have digit := formatNat_isDigit '\n' member
  exact absurd digit (by decide)

theorem safe_ne_newline (byte : U8) : safe byte ≠ '\n' := by
  have table : ∀ value : Fin 256, safe (BitVec.ofNat 8 value) ≠ '\n' := by
    decide +kernel
  have found := table ⟨byte.toNat, byte.isLt⟩
  rwa [BitVec.ofNat_toNat, BitVec.setWidth_eq] at found

theorem newline_notMem_columnText (column : Option U8) :
    '\n' ∉ columnText column := by
  cases column with
  | none => decide
  | some byte =>
      intro member
      rcases List.mem_cons.mp member with blank | digit
      · exact absurd blank (by decide)
      · exact newline_notMem_formatNat _ _ _ digit

theorem newline_notMem_bytesText (bytes : List U8) :
    '\n' ∉ bytesText bytes := by
  intro member
  rcases List.mem_append.mp member with left | ascii
  · rcases List.mem_append.mp left with columns | blanks
    · obtain ⟨column, _, inColumn⟩ := List.mem_flatMap.mp columns
      exact newline_notMem_columnText column inColumn
    · exact absurd blanks (by decide)
  · obtain ⟨byte, _, shown⟩ := List.mem_map.mp ascii
    exact safe_ne_newline byte shown

theorem newline_notMem_rowText (row : Head (List U8)) :
    '\n' ∉ rowText row := by
  intro member
  rcases List.mem_append.mp member with address | rest
  · exact newline_notMem_formatNat _ _ _ address
  · rcases List.mem_cons.mp rest with mark | bytes
    · split at mark
      · exact absurd mark (by decide)
      · exact absurd mark (by decide)
    · exact newline_notMem_bytesText row.item bytes

theorem newline_notMem_decimal (value : Int) : '\n' ∉ decimal value := by
  intro member
  rw [decimal] at member
  split at member
  · rcases List.mem_cons.mp member with sign | digits
    · exact absurd sign (by decide)
    · exact newline_notMem_formatNat _ _ _ digits
  · exact newline_notMem_formatNat _ _ _ member

theorem newline_notMem_endText (size : Nat) : '\n' ∉ endText size := by
  have colon : '\n' ∉ ": end (".toList := by decide
  have between : '\n' ∉ " bytes) mtime ".toList := by decide
  simp only [endText, List.mem_append, not_or]
  exact ⟨⟨⟨⟨newline_notMem_formatNat 16 8 size, colon⟩,
    newline_notMem_decimal size⟩, between⟩, newline_notMem_decimal mtime⟩

/-- The lines of the dump are the rows and the end line. -/
theorem readDump_text (rows : List (Head (List U8))) (size : Nat) :
    readDump ((rows.flatMap fun row => rowText row ++ ['\n']) ++
        (endText size ++ ['\n'])) =
      some (rows.map printedRow, size) := by
  unfold readDump
  induction rows with
  | nil =>
      rw [List.flatMap_nil, List.nil_append,
        List.splitOn_append_cons_self_of_not_mem
          (newline_notMem_endText size), readLines, readRow_endText,
        readEnd_endText]
      rfl
  | cons row rows induction =>
      rw [List.flatMap_cons, List.append_assoc, List.append_assoc,
        List.singleton_append,
        List.splitOn_append_cons_self_of_not_mem
          (newline_notMem_rowText row), readLines, readRow_rowText]
      simp only [induction]
      rfl

/-! ## Getting the buffer back -/

/-- Every line but the last is full. -/
def FullBeforeLast (lines : List (List U8)) : Prop :=
  ∀ k line, lines[k]? = some line → k + 1 < lines.length → line.length = 16

theorem linesFrom_full (buf : List U8) (k count : Nat)
    (left : k + count = lineCount buf) :
    FullBeforeLast (linesFrom buf k count) := by
  unfold lineCount at left
  intro i line found before
  rw [linesFrom, List.length_map, List.length_range'] at before
  rw [linesFrom, List.getElem?_map, List.getElem?_range' (by omega)] at found
  obtain rfl := Option.some.inj found
  rw [dumpLine_length]
  omega

theorem linesFrom_flatten (buf : List U8) (k count : Nat)
    (left : k + count = lineCount buf) :
    (linesFrom buf k count).flatten = buf.drop (16 * k) := by
  unfold lineCount at left
  induction count generalizing k with
  | zero =>
      have finished : buf.length ≤ 16 * k := by omega
      rw [List.drop_eq_nil_of_le finished]
      rfl
  | succ count induction =>
      rw [linesFrom_succ, List.flatten_cons, induction (k + 1) (by omega),
        dumpLine, Nat.mul_succ, ← List.drop_drop]
      exact List.take_append_drop 16 _

theorem lineColumns_filterMap {bytes : List U8} (short : bytes.length ≤ 16) :
    (lineColumns bytes).filterMap id = bytes := by
  rw [lineColumns, List.filterMap_map]
  exact filterMap_getElem?_range short

theorem FullBeforeLast.later {earlier rest : List (List U8)}
    (full : FullBeforeLast (earlier ++ rest)) : FullBeforeLast rest := by
  intro k line found before
  apply full (earlier.length + k) line
  · rw [List.getElem?_append_right (Nat.le_add_right _ _),
      Nat.add_sub_cancel_left]
    exact found
  · rw [List.length_append]
    omega

/-- A line that is repeated, or followed by another one, is full. -/
theorem FullBeforeLast.first {count : Nat} {item : List U8}
    {rest : List (List U8)}
    (full : FullBeforeLast (List.replicate (count + 1) item ++ rest))
    (continues : 0 < count ∨ rest ≠ []) : item.length = 16 := by
  apply full 0 item
  · rfl
  · rw [List.length_append, List.length_replicate]
    rcases continues with repeated | nonempty
    · omega
    · have some := List.length_pos_iff.mpr nonempty
      omega

theorem flatten_replicate_length (count : Nat) (item : List U8) :
    (List.replicate count item).flatten.length = count * item.length := by
  simp

/-- The next row, or the end, stands where the run ends. -/
theorem nextAddr_runs {endAddr index count : Nat} {item : List U8}
    {rest : List (List U8)} {later : List (Head (List U8))}
    (others : RunsAt (index + (count + 1)) rest later)
    (fullItem : item.length = 16)
    (ends : endAddr = 16 * index +
      (List.replicate (count + 1) item ++ rest).flatten.length) :
    nextAddr endAddr (later.map printedRow) = 16 * (index + (count + 1)) := by
  cases rest with
  | nil =>
      rw [others.eq_nil]
      rw [List.append_nil, flatten_replicate_length, fullItem] at ends
      change endAddr = _
      omega
  | cons line rest =>
      obtain ⟨next, first, position⟩ :=
        Option.map_eq_some_iff.mp (others.head_index (List.cons_ne_nil _ _))
      rw [nextAddr, List.head?_map, first, ← position]
      rfl

theorem restore_cons {endAddr addr copies : Nat} {row : DumpRow}
    {later : List DumpRow} {bytes rest : List U8} (here : row.addr = addr)
    (columns : row.columns.filterMap id = bytes)
    (copied : (if row.marked then (nextAddr endAddr later - addr) / 16
      else 1) = copies)
    (remaining : restore endAddr
      (addr + (List.replicate copies bytes).flatten.length) later =
        some rest) :
    restore endAddr addr (row :: later) =
      some ((List.replicate copies bytes).flatten ++ rest) := by
  rw [restore, if_pos here]
  simp only [columns, copied, remaining, Option.bind_eq_bind,
    Option.bind_some]

/-- Row by row, the reader fills the runs of the buffer. -/
theorem restore_runs {endAddr index : Nat} {lines : List (List U8)}
    {rows : List (Head (List U8))} (runs : RunsAt index lines rows)
    (full : FullBeforeLast lines)
    (short : ∀ line ∈ lines, line.length ≤ 16)
    (ends : endAddr = 16 * index + lines.flatten.length) :
    restore endAddr (16 * index) (rows.map printedRow) =
      some lines.flatten := by
  induction runs with
  | nil index => exact if_pos ends.symm
  | @cons index count item rest later headEnds others induction =>
      have itemShort := short item
        (List.mem_append_left _ List.mem_cons_self)
      have copies : (if decide (0 < count) then
          (nextAddr endAddr (later.map printedRow) - 16 * index) / 16
          else 1) = count + 1 := by
        by_cases repeated : 0 < count
        · have next := nextAddr_runs others (full.first (.inl repeated)) ends
          rw [decide_eq_true repeated, if_pos rfl, next]
          omega
        · rw [decide_eq_false repeated, if_neg Bool.false_ne_true]
          omega
      have remaining : restore endAddr
          (16 * index + (List.replicate (count + 1) item).flatten.length)
          (later.map printedRow) = some rest.flatten := by
        rw [List.flatten_append, List.length_append, ← Nat.add_assoc] at ends
        cases rest with
        | nil =>
            rw [others.eq_nil]
            exact if_pos ends.symm
        | cons line rest =>
            have fullItem := full.first (.inr (List.cons_ne_nil _ _))
            rw [flatten_replicate_length, fullItem] at ends ⊢
            have address : 16 * index + (count + 1) * 16 =
                16 * (index + (count + 1)) := by omega
            rw [address] at ends ⊢
            apply induction full.later _ ends
            intro other member
            exact short other (List.mem_append_right _ member)
      rw [List.flatten_append]
      exact restore_cons rfl (lineColumns_filterMap itemShort) copies
        remaining

/-! ## What a dump says -/

variable (buf : List U8)

theorem dumpedRows_runsAt :
    RunsAt 0 (linesFrom buf 0 (lineCount buf)) (dumpedRows buf) :=
  heads_runsAt 0 _

theorem restore_dumpedRows :
    restore buf.length 0 ((dumpedRows buf).map printedRow) = some buf := by
  have whole := linesFrom_flatten buf 0 _ (Nat.zero_add _)
  have full := linesFrom_full buf 0 _ (Nat.zero_add _)
  have short : ∀ line ∈ linesFrom buf 0 (lineCount buf),
      line.length ≤ 16 := by
    intro line member
    obtain ⟨k, _, rfl⟩ := List.mem_map.mp member
    rw [dumpLine_length]
    exact Nat.min_le_left _ _
  have ends : buf.length =
      16 * 0 + (linesFrom buf 0 (lineCount buf)).flatten.length := by
    rw [whole, Nat.mul_zero, List.drop_zero, Nat.zero_add]
  have restored := restore_runs (dumpedRows_runsAt buf) full short ends
  rw [whole, Nat.mul_zero, List.drop_zero] at restored
  exact restored

/-- The line after a marked row is full. -/
theorem marked_before_full {row : Head (List U8)} (member : row ∈ dumpedRows buf)
    (marked : row.repeated = true) :
    16 * row.index + 16 + 16 ≤ buf.length := by
  obtain ⟨k, position, here, next⟩ :=
    (dumpedRows_runsAt buf).repeated_item row member marked
  have inside := (List.getElem?_eq_some_iff.mp next).1
  have fullItem := linesFrom_full buf 0 _ (Nat.zero_add _) k _ here inside
  rw [linesFrom, List.length_map, List.length_range'] at inside
  rw [linesFrom, List.getElem?_map, List.getElem?_range' inside] at next
  have equal := congrArg List.length (Option.some.inj next)
  rw [dumpLine_length] at equal
  omega

/-- Looking ahead agrees with looking back. -/
theorem marked_iff_suppressed :
    ∀ row ∈ (dumpedRows buf).map printedRow,
      (row.marked = true ↔
        Suppressed ((dumpedRows buf).map printedRow) buf.length
          (row.addr + 16)) := by
  intro row member
  obtain ⟨head, printed, rfl⟩ := List.mem_map.mp member
  have repeated := (dumpedRows_runsAt buf).repeated_iff head printed
  rw [linesFrom, List.length_map, List.length_range', lineCount] at repeated
  change head.repeated = true ↔ 16 * head.index + 16 + 16 ≤ buf.length ∧
    ∀ row ∈ (dumpedRows buf).map printedRow, row.addr ≠ 16 * head.index + 16
  constructor
  · intro marked
    refine ⟨marked_before_full buf printed marked, ?_⟩
    intro row rowMember
    obtain ⟨other, otherPrinted, rfl⟩ := List.mem_map.mp rowMember
    have apart := (repeated.mp marked).2 other otherPrinted
    change 16 * other.index ≠ _
    omega
  · rintro ⟨inside, alone⟩
    apply repeated.mpr
    refine ⟨by omega, ?_⟩
    intro other otherPrinted equal
    apply alone (printedRow other) (List.mem_map_of_mem otherPrinted)
    change 16 * other.index = _
    omega

variable {buf}

/-- A dump reads nothing outside the buffer, its text determines the buffer,
and a row is marked exactly when the one after it is left out. -/
theorem hexDump_lossless (bounded : (buf.length : Int) ≤ longMax - 32) :
    ∃ text rows,
      hexDump buf buf.length = ⟨.ok (), text⟩ ∧
      readDump text = some (rows, buf.length) ∧
      restore buf.length 0 rows = some buf ∧
      ∀ row ∈ rows, (row.marked = true ↔
        Suppressed rows buf.length (row.addr + 16)) :=
  ⟨_, _, hexDump_ok bounded, readDump_text _ _, restore_dumpedRows buf,
    marked_iff_suppressed buf⟩

theorem hexDump_lossless_partial :
    ∃ text rows,
      hexDump (List.replicate 40 0x41) 40 = ⟨.ok (), text⟩ ∧
      readDump text = some (rows, 40) ∧
      restore 40 0 rows = some (List.replicate 40 0x41) ∧
      ∀ row ∈ rows, (row.marked = true ↔
        Suppressed rows 40 (row.addr + 16)) :=
  hexDump_lossless (by decide)

example : (hexDump [0x41, 0x0a] 2).log =
    ("00000000: 41 0A -- -- -- -- -- -- -- -- -- -- -- -- -- --  A.\n".toList
      ++ "00000002: end (2 bytes) mtime 0\n".toList) := by
  decide

end Xpcie
