import Vte.Base.Bytes
import Vte.Base.CInt
import Vte.Lib.Pattern

/-!
`doio_pat_check` of doio.c: the fast comparison of pattern.c says whether the buffer is right, and a
loop of its own finds the first wrong byte and reports the bytes from there on. Lengths and shifts are
ints that are not negative; a sum of ints that does not fit has no result.
-/
namespace VteDoioPatCheck
open Bytes CInt Memory VtePattern

def maxReported : Nat := 32

def isprint (c : Byte) : Bool := decide (32 ≤ c.toNat) && decide (c.toNat < 127)

/-- What is stored for a byte: `.` for one that cannot be printed. -/
def shown (c : Byte) : Byte := if isprint c then c else 46

structure Report where
  offset : Int
  nb : Nat
  expected : List Byte
  actual : List Byte
deriving DecidableEq

inductive Answer
  | null
  | corrupt (report : Report)
  /-- the return behind the loop: the two lines of the heading only -/
  | heading
deriving DecidableEq

def headingLines : String :=
  "Corrupt regions follow - unprintable chars are represented as '.'\n" ++
  "-----------------------------------------------------------------\n"

def text (bytes : List Byte) : String := String.ofList (bytes.map fun c => Char.ofNat c.toNat)

/-- `%2d` of the number of bytes, which is from 1 to 32 -/
def twoWide (nb : Nat) : String := if nb < 10 then " " ++ toString nb else toString nb

def Report.lines (report : Report) : String :=
  "corrupt bytes starting at file offset " ++ toString report.offset ++ "\n" ++
  "    1st " ++ twoWide report.nb ++ " expected bytes:  " ++ text report.expected ++ "\n" ++
  "    1st " ++ twoWide report.nb ++ " actual bytes:    " ++ text report.actual ++ "\n"

def Answer.errbuf : Answer → Option String
  | null => none
  | corrupt report => some (headingLines ++ report.lines)
  | heading => some headingLines

section code
variable (mem pattern : List Byte) (buf length patternLength : Nat)

def expectedByte (patternIndex i : Nat) : Option Byte := do
  let sum ← signed 32 (patternIndex + i)
  let c ← pattern[sum.toNat % patternLength]?
  some (shown c)

def actualByte (cp i : Nat) : Option Byte := mem[buf + cp + i]?.map shown

/-- The branch for the byte `cp` of the buffer, which differs. -/
def reportAt (offset : Int) (cp patternIndex : Nat) : Option Answer := do
  let nb := if length - cp > maxReported then maxReported else length - cp
  let place ← signed 32 (offset + cp)
  let expected ← gather (expectedByte pattern patternLength patternIndex) nb
  let actual ← gather (actualByte mem buf cp) nb
  some (.corrupt ⟨place, nb, expected, actual⟩)

/-- `while (cp < bufend)`, with `cp` counted from the start of the buffer -/
def scanLoop (offset : Int) : Nat → Nat → Nat → Option Answer
  | 0, _, _ => none
  | fuel + 1, cp, patternIndex =>
    if cp < length then do
      let found ← mem[buf + cp]?
      let wanted ← pattern[patternIndex]?
      if found ≠ wanted then reportAt mem pattern buf length patternLength offset cp patternIndex
      else
        let patternIndex := patternIndex + 1
        scanLoop offset fuel (cp + 1) (if patternIndex = patternLength then 0 else patternIndex)
    else some .heading

def doioPatCheck (fuel : Nat) (offset : Int) (patshift : Nat) : Option Answer := do
  let r ← patternCheck fuel mem buf length pattern patternLength patshift
  if r ≠ 0 then
    scanLoop mem pattern buf length patternLength offset fuel 0 (patshift % patternLength)
  else some .null

end code

section spec
variable {mem pattern : List Byte} {buf length patternLength patshift : Nat} {offset : Int}

/-- The byte `i` of the buffer is the first that is not the one of the repeated pattern. -/
structure FirstDiffers (mem pattern : List Byte) (buf length patternLength patshift i : Nat) :
    Prop where
  inside : i < length
  differs : mem[buf + i]? ≠ periodic pattern patternLength patshift i
  before : Holds mem buf i (periodic pattern patternLength patshift)

/-- How many bytes are reported from the byte `i` on. -/
def reported (length i : Nat) : Nat := min (length - i) maxReported

/-- The sums for the report of the byte `i` are ints: its file offset, and the last index into the
    pattern before it is reduced. -/
def SumsFit (offset : Int) (length patternLength patshift i : Nat) : Prop :=
  offset + i ≤ 2147483647 ∧ (i + patshift) % patternLength + (reported length i - 1) ≤ 2147483647

/-- What the report of the byte `i` says. -/
structure Locates (mem pattern : List Byte) (buf length patternLength patshift : Nat) (offset : Int)
    (i : Nat) (report : Report) : Prop where
  place : report.offset = offset + i
  count : report.nb = reported length i
  expected_count : report.expected.length = reported length i
  actual_count : report.actual.length = reported length i
  expected : ∀ k < reported length i, report.expected[k]? = pattern[(i + k + patshift) % patternLength]?.map shown
  actual : ∀ k < reported length i, report.actual[k]? = mem[buf + (i + k)]?.map shown

theorem first_or_right (mem pattern : List Byte) (buf length patternLength patshift : Nat) :
    Holds mem buf length (periodic pattern patternLength patshift) ∨
      ∃ i, FirstDiffers mem pattern buf length patternLength patshift i := by
  induction length with
  | zero => exact .inl fun i low => absurd low (by omega)
  | succ length ih =>
    rcases ih with right | ⟨i, inside, differs, before⟩
    · by_cases last : mem[buf + length]? = periodic pattern patternLength patshift length
      · refine .inl fun i low => ?_
        by_cases early : i < length
        · exact right i early
        · obtain rfl : i = length := by omega
          exact last
      · exact .inr ⟨length, by omega, last, right⟩
    · exact .inr ⟨i, by omega, differs, before⟩

theorem first_not_right {i : Nat}
    (first : FirstDiffers mem pattern buf length patternLength patshift i) :
    ¬ Holds mem buf length (periodic pattern patternLength patshift) :=
  fun right => first.differs (right i first.inside)

theorem index_next {cp patternIndex : Nat} (some_pattern : 1 ≤ patternLength)
    (index : patternIndex = (cp + patshift) % patternLength) :
    (if patternIndex + 1 = patternLength then 0 else patternIndex + 1) = (cp + 1 + patshift) % patternLength := by
  have small := Nat.mod_lt (cp + patshift) some_pattern
  have sum : (cp + 1 + patshift) % patternLength = ((cp + patshift) % patternLength + 1) % patternLength := by
    rw [Nat.mod_add_mod, Nat.add_right_comm]
  subst index
  rw [sum]
  by_cases wraps : (cp + patshift) % patternLength + 1 = patternLength
  · rw [if_pos wraps, wraps, Nat.mod_self]
  · rw [if_neg wraps, Nat.mod_eq_of_lt
      (show (cp + patshift) % patternLength + 1 < patternLength by omega)]

theorem scan_loop_first {i : Nat} (offset : Int)
    (call : Call mem buf length pattern patternLength)
    (first : FirstDiffers mem pattern buf length patternLength patshift i) {cp fuel : Nat}
    (bound : cp ≤ i) (some_fuel : i - cp < fuel) :
    scanLoop mem pattern buf length patternLength offset fuel cp ((cp + patshift) % patternLength) =
      reportAt mem pattern buf length patternLength offset i ((i + patshift) % patternLength) := by
  obtain ⟨some_pattern, whole_pattern, buffer⟩ := call
  induction fuel generalizing cp with
  | zero => omega
  | succ fuel ih =>
    have inside := first.inside
    have index := Nat.mod_lt (cp + patshift) some_pattern
    rw [scanLoop, if_pos (by omega)]
    have found := List.getElem?_eq_getElem (show buf + cp < mem.length by omega)
    have wanted := List.getElem?_eq_getElem
      (show (cp + patshift) % patternLength < pattern.length by omega)
    simp only [found, wanted, Option.bind_eq_bind, Option.bind_some]
    by_cases here : cp = i
    · subst here
      rw [if_pos]
      intro same
      exact first.differs (by rw [periodic, found, wanted, same])
    · rw [if_neg, index_next some_pattern rfl]
      · exact ih (by omega) (by omega)
      · have right := first.before cp (by omega)
        rw [periodic, found, wanted] at right
        exact not_not.mpr (Option.some.inj right)

theorem expected_byte_some {i k : Nat}
    (fits : (i + patshift) % patternLength + k ≤ 2147483647) :
    expectedByte pattern patternLength ((i + patshift) % patternLength) k =
      pattern[(i + k + patshift) % patternLength]?.map shown := by
  rw [expectedByte, signed_fits (by omega) (by omega)]
  have index : ((i + patshift) % patternLength + k) % patternLength = (i + k + patshift) % patternLength := by
    rw [Nat.mod_add_mod, Nat.add_right_comm]
  have sum : (((i + patshift) % patternLength : Nat) + (k : Int)).toNat = (i + patshift) % patternLength + k := by
    omega
  simp only [Option.bind_eq_bind, Option.bind_some, sum, index]
  cases pattern[(i + k + patshift) % patternLength]? <;> rfl

theorem report_at_locates {i : Nat} (call : Call mem buf length pattern patternLength)
    (low : -2147483648 ≤ offset) (inside : i < length)
    (fits : SumsFit offset length patternLength patshift i) :
    ∃ report, reportAt mem pattern buf length patternLength offset i
        ((i + patshift) % patternLength) = some (.corrupt report) ∧
      Locates mem pattern buf length patternLength patshift offset i report := by
  have some_pattern := call.some_pattern
  have whole_pattern := call.pattern
  have buffer := call.buffer
  obtain ⟨place, indices⟩ := fits
  have nb : (if length - i > maxReported then maxReported else length - i) = reported length i := by
    rw [reported, Nat.min_def]
    split <;> split <;> omega
  have bound : reported length i ≤ length - i := Nat.min_le_left _ _
  obtain ⟨expected, gathered, expected_count, expected_same⟩ :=
    gather_some (expectedByte pattern patternLength ((i + patshift) % patternLength))
      (reported length i) fun k low => by
        rw [expected_byte_some (by omega), List.getElem?_eq_getElem
          (by have := Nat.mod_lt (i + k + patshift) some_pattern; omega)]
        exact ⟨_, rfl⟩
  obtain ⟨actual, gathered', actual_count, actual_same⟩ :=
    gather_some (actualByte mem buf i) (reported length i) fun k low => by
      rw [actualByte, List.getElem?_eq_getElem (by omega)]
      exact ⟨_, rfl⟩
  refine ⟨⟨offset + i, reported length i, expected, actual⟩, ?_, rfl, rfl, expected_count, actual_count, ?_, ?_⟩
  · rw [reportAt, signed_fits (by omega) (by omega)]
    simp only [nb, gathered, gathered', Option.bind_eq_bind, Option.bind_some]
  · intro k low
    rw [expected_same k low, expected_byte_some (by omega)]
  · intro k low
    rw [actual_same k low, actualByte, Nat.add_assoc]

theorem report_at_overflow {i : Nat} (inside : i < length)
    (wide : ¬ SumsFit offset length patternLength patshift i) :
    reportAt mem pattern buf length patternLength offset i ((i + patshift) % patternLength) = none := by
  have nb : (if length - i > maxReported then maxReported else length - i) = reported length i := by
    rw [reported, Nat.min_def]
    split <;> split <;> omega
  have positive : 0 < reported length i := Nat.lt_min.mpr ⟨by omega, by decide⟩
  rw [reportAt]
  by_cases place : offset + i ≤ 2147483647
  · have index : 2147483647 < (i + patshift) % patternLength + (reported length i - 1) := by
      by_contra small
      exact wide ⟨place, by omega⟩
    have undefined : expectedByte pattern patternLength ((i + patshift) % patternLength)
        (reported length i - 1) = none := by
      rw [expectedByte, signed_overflow (by omega)]
      rfl
    simp only [nb, gather_none (show reported length i - 1 < reported length i by omega) undefined]
    cases signed 32 (offset + i) <;> rfl
  · rw [signed_overflow (by omega)]
    rfl

/-- The calls for which `doio_pat_check` does what it is for. -/
structure Right (mem pattern : List Byte) (buf length patternLength patshift fuel : Nat)
    (offset : Int) : Prop where
  null : doioPatCheck mem pattern buf length patternLength fuel offset patshift = some .null ↔
    ∀ i < length, mem[buf + i]? = pattern[(i + patshift) % patternLength]?
  located : ∀ i, FirstDiffers mem pattern buf length patternLength patshift i →
    ∃ report, doioPatCheck mem pattern buf length patternLength fuel offset patshift = some (.corrupt report) ∧
      Locates mem pattern buf length patternLength patshift offset i report
  /-- the return behind the loop is not reached -/
  no_heading : doioPatCheck mem pattern buf length patternLength fuel offset patshift ≠ some .heading

theorem doio_pat_check_cases (call : Call mem buf length pattern patternLength) (patshift : Nat)
    (offset : Int) {fuel : Nat} (some_fuel : length < fuel) :
    (Holds mem buf length (periodic pattern patternLength patshift) ∧
      doioPatCheck mem pattern buf length patternLength fuel offset patshift = some .null) ∨
    ∃ i, FirstDiffers mem pattern buf length patternLength patshift i ∧
      doioPatCheck mem pattern buf length patternLength fuel offset patshift =
        reportAt mem pattern buf length patternLength offset i
          ((i + patshift) % patternLength) := by
  obtain ⟨r, returned, verdict⟩ := pattern_check_verdict call patshift some_fuel
  rw [doioPatCheck, returned]
  rcases verdict with ⟨rfl, right⟩ | ⟨rfl, wrong⟩
  · exact .inl ⟨right, rfl⟩
  · rcases first_or_right mem pattern buf length patternLength patshift with right | ⟨i, first⟩
    · exact absurd right wrong
    · refine .inr ⟨i, first, ?_⟩
      have scanned := scan_loop_first offset call first (Nat.zero_le i)
        (show i - 0 < fuel by have := first.inside; omega)
      rw [Nat.zero_add] at scanned
      exact scanned

theorem first_unique {i j : Nat}
    (first : FirstDiffers mem pattern buf length patternLength patshift i)
    (other : FirstDiffers mem pattern buf length patternLength patshift j) : i = j := by
  rcases Nat.lt_trichotomy i j with early | same | late
  · exact absurd (other.before i early) first.differs
  · exact same
  · exact absurd (first.before j late) other.differs

/-- The comparison and the scan agree: NULL is returned just for a right buffer, and the first wrong
    byte is reported with its file offset, as long as the sums for its report are ints. -/
theorem doio_pat_check_right_iff (call : Call mem buf length pattern patternLength) (patshift : Nat)
    {fuel : Nat} (some_fuel : length < fuel) (int_offset : -2147483648 ≤ offset) :
    Right mem pattern buf length patternLength patshift fuel offset ↔
      ∀ i, FirstDiffers mem pattern buf length patternLength patshift i →
        SumsFit offset length patternLength patshift i := by
  rcases doio_pat_check_cases call patshift offset some_fuel with
    ⟨right, returned⟩ | ⟨i, first, returned⟩
  · have none_differs : ∀ i, ¬ FirstDiffers mem pattern buf length patternLength patshift i :=
      fun i first => first_not_right first right
    constructor
    · intro _ i first
      exact absurd first (none_differs i)
    · intro _
      refine ⟨iff_of_true returned right, fun i first => absurd first (none_differs i), ?_⟩
      rw [returned]
      decide
  · constructor
    · intro good j other
      obtain rfl := first_unique first other
      by_contra wide
      obtain ⟨report, located, -⟩ := good.located i first
      rw [returned, report_at_overflow first.inside wide] at located
      cases located
    · intro fits
      obtain ⟨report, reached, locates⟩ :=
        report_at_locates call int_offset first.inside (fits i first)
      rw [reached] at returned
      refine ⟨?_, ?_, ?_⟩
      · rw [returned]
        exact iff_of_false (by simp) (first_not_right first)
      · intro j other
        obtain rfl := first_unique first other
        exact ⟨report, returned, locates⟩
      · rw [returned]
        simp

end spec

/-- The second byte of the buffer is wrong, with the file offset of the first the largest int. -/
theorem last_offset_not_located :
    Call [97, 98] 0 2 [97] 1 ∧ ¬ Right [97, 98] [97] 0 2 1 0 3 2147483647 := by
  refine ⟨⟨by decide, by decide, by decide⟩, fun good => ?_⟩
  obtain ⟨report, located, -⟩ := good.located 1 ⟨by decide, by decide, fun i low => by
    obtain rfl : i = 0 := by omega
    rfl⟩
  have none_returned : doioPatCheck [97, 98] [97] 0 2 1 3 2147483647 0 = none := by decide
  rw [none_returned] at located
  cases located

theorem shifted_pattern_located :
    Right [97, 98, 97, 99] [98, 97] 0 4 2 1 5 4096 ↔
      ∀ i, FirstDiffers [97, 98, 97, 99] [98, 97] 0 4 2 1 i → SumsFit 4096 4 2 1 i :=
  doio_pat_check_right_iff ⟨by decide, by decide, by decide⟩ 1 (by decide) (by decide)

end VteDoioPatCheck
