import Mathlib.Algebra.Order.Ring.Nat
import Vte.Base.CInt
import Vte.Base.Multiples
import Vte.Base.Text

/-!
nfsv4/locks/locktests.c: the texts in which tests, sections of the file and results are sent. A message is a
letter and decimal fields, each ended by a colon, in a buffer of `M_SIZE` bytes that was cleared before.
-/
namespace LockTestsWire
open CInt Multiples Text

section records

def afterSign : Str → Str
  | '-' :: rest => rest
  | '+' :: rest => rest
  | s => s

/-- `%d` of `sscanf`, where the value fits an `int`. -/
def scanDecimal (s : Str) : Option (Int × Str) :=
  let digits := afterSign (s.dropWhile isSpace)
  if digits.takeWhile Char.isDigit = [] then none else some (atoi s, digits.dropWhile Char.isDigit)

/-- A letter and fields, as `"T:%d:%d:%d::"` prints them. -/
def record (letter : Char) (fields : List Int) : Str :=
  letter :: ':' :: (fields.flatMap (fun i => decimal i ++ [':']) ++ [':'])

def scanFields : Nat → Str → List Int
  | 0, _ => []
  | n + 1, s =>
    match scanDecimal s with
    | some (i, ':' :: rest) => i :: scanFields n rest
    | some (i, _) => [i]
    | none => []

def scanRecord (letter : Char) (n : Nat) (s : Str) : List Int :=
  match s with
  | c :: ':' :: rest => if c = letter then scanFields n rest else []
  | _ => []

theorem after_sign_decimal (i : Int) (rest : Str) :
    afterSign ((decimal i ++ rest).dropWhile isSpace) = Nat.toDigits 10 i.natAbs ++ rest := by
  rw [decimal]
  split
  · rfl
  · obtain ⟨c, cs, digits, digit⟩ := to_digits_head i.natAbs
    rw [digits, List.cons_append, List.dropWhile_cons_of_neg (by rw [digit_not_space digit]; exact Bool.false_ne_true)]
    rw [afterSign.eq_def]
    split
    · rename_i head
      obtain ⟨rfl, -⟩ := List.cons.inj head
      cases digit
    · rename_i head
      obtain ⟨rfl, -⟩ := List.cons.inj head
      cases digit
    · rfl

theorem scan_decimal (i : Int) {rest : Str} (stop : DigitFree rest) :
    scanDecimal (decimal i ++ rest) = some (i, rest) := by
  have all : ∀ c ∈ Nat.toDigits 10 i.natAbs, c.isDigit = true := fun c mem => to_digits_digit mem
  have ended : rest.takeWhile Char.isDigit = [] ∧ rest.dropWhile Char.isDigit = rest := by
    cases rest with
    | nil => exact ⟨rfl, rfl⟩
    | cons c rest => simp [stop c (by simp)]
  rw [scanDecimal, after_sign_decimal, atoi_decimal i stop, List.takeWhile_append_of_pos all,
    List.dropWhile_append_of_pos all, ended.1, ended.2, List.append_nil]
  exact if_neg Nat.toDigits_ne_nil

theorem scan_record (letter : Char) (fields : List Int) :
    scanRecord letter fields.length (record letter fields) = fields := by
  rw [record, scanRecord, if_pos rfl]
  induction fields with
  | nil => rfl
  | cons i fields ih =>
    rw [List.flatMap_cons, List.append_assoc, List.append_assoc, List.length_cons, scanFields,
      scan_decimal i (by rintro c ⟨⟩; rfl)]
    exact congrArg (i :: ·) ih

end records

def mSize : Nat := 512

def message (text : Str) : Str := text ++ List.replicate (mSize - text.length) '\x00'

def textOf (message : Str) : Str := message.takeWhile (· ≠ '\x00')

section buffers

theorem decimal_short {i : Int} (fits : Fits32 i) : (decimal i).length ≤ 11 := by
  have small : i.natAbs < 10 ^ 10 := by
    have low := fits.1
    have high := fits.2
    omega
  have digits := to_digits_length (by decide) small
  rw [decimal]
  split
  · rw [List.length_cons]
    omega
  · omega

theorem record_plain {letter : Char} (shown : letter ≠ '\x00') (fields : List Int) :
    '\x00' ∉ record letter fields := by
  have plain (i : Int) : '\x00' ∉ decimal i := by
    have digits : '\x00' ∉ Nat.toDigits 10 i.natAbs := fun mem => absurd (to_digits_digit mem) (by decide)
    unfold decimal
    split <;> simp [digits]
  simp [record, plain, shown.symm]

theorem text_message {text : Str} (plain : '\x00' ∉ text) : textOf (message text) = text := by
  have all : ∀ c ∈ text, decide (c ≠ '\x00') = true := by
    intro c mem
    rw [decide_eq_true_eq]
    rintro rfl
    exact plain mem
  have zeros (n : Nat) : (List.replicate n '\x00').takeWhile (· ≠ '\x00') = [] := by
    cases n with
    | zero => rfl
    | succ n => rfl
  rw [textOf, message, List.takeWhile_append_of_pos all, zeros, List.append_nil]

theorem read_back {letter : Char} (shown : letter ≠ '\x00') (fields : List Int) :
    scanRecord letter fields.length (textOf (message (record letter fields))) = fields := by
  rw [text_message (record_plain shown fields), scan_record]

theorem record_length (letter : Char) {fields : List Int} (fit : ∀ i ∈ fields, Fits32 i) :
    (record letter fields).length ≤ 12 * fields.length + 3 := by
  have each : (fields.flatMap fun i => decimal i ++ [':']).length ≤ 12 * fields.length := by
    induction fields with
    | nil => exact Nat.le_refl 0
    | cons i fields ih =>
      have first := decimal_short (fit i List.mem_cons_self)
      have rest := ih fun i mem => fit i (List.mem_cons_of_mem _ mem)
      rw [List.flatMap_cons, List.length_append, List.length_append, List.length_cons, List.length_cons, List.length_nil]
      omega
  simp only [record, List.length_cons, List.length_append, List.length_nil]
  omega

theorem message_length (letter : Char) {fields : List Int} (few : fields.length ≤ 5)
    (fit : ∀ i ∈ fields, Fits32 i) : (message (record letter fields)).length = mSize := by
  have short := record_length letter fit
  have room : mSize = 512 := rfl
  rw [message, List.length_append, List.length_replicate]
  omega

end buffers

/-- `struct s_test`, as far as it is sent. -/
structure STest where
  test : Int
  type : Int
  resAtt : Int

def serialiseTLock (tLock : STest) : Str := message (record 'T' [tLock.test, tLock.type, tLock.resAtt])

def unSerialiseTLock (m : Str) : Option STest :=
  match scanRecord 'T' 3 (textOf m) with
  | [test, type, resAtt] => some ⟨test, type, resAtt⟩
  | _ => none

def serialiseResult (resultat : Int) : Str := message (record 'R' [resultat])

def unSerialiseResult (m : Str) : Option Int := (scanRecord 'R' 1 (textOf m)).head?

structure Flock where
  lType : Int
  lWhence : Int
  lStart : Int
  lLen : Int
  lPid : Int

def int16 (x : Int) : Int := x.bmod 65536

def Flock.fields (request : Flock) : List Int :=
  [int16 request.lType, int16 request.lWhence, int32 request.lStart, int32 request.lLen, int32 request.lPid]

def serialiseFLock (request : Flock) : Str := message (record 'L' request.fields)

def unSerialiseFLock (m : Str) : Option Flock :=
  match scanRecord 'L' 5 (textOf m) with
  | [lType, lWhence, start, len, pid] => some ⟨int16 lType, int16 lWhence, start, len, pid⟩
  | _ => none

/-- What the repeater in `maitreClient` sends to its slave `i` for a section that it has received. -/
def sectionFor (m : Str) (i : Nat) : Option Str := do
  let lock ← unSerialiseFLock m
  let start ← checked32 (lock.lStart + i)
  some (serialiseFLock { lock with lStart := start })

/-- The fields that are not `off_t` have the values of their types. -/
structure Flock.Typed (request : Flock) : Prop where
  lType : -32768 ≤ request.lType ∧ request.lType < 32768
  lWhence : -32768 ≤ request.lWhence ∧ request.lWhence < 32768
  lPid : Fits32 request.lPid

section flock
variable {request : Flock}

theorem int16_small {x : Int} (fits : -32768 ≤ x ∧ x < 32768) : int16 x = x :=
  Int.bmod_eq_of_le (by omega) (by omega)

theorem int32_same_iff {x : Int} : int32 x = x ↔ Fits32 x := by
  constructor
  · intro same
    rw [int32, Int.bmod_def] at same
    exact ⟨by split at same <;> omega, by split at same <;> omega⟩
  · exact fun fits => int32_small fits.1 fits.2

theorem flock_read_back (typed : request.Typed) : unSerialiseFLock (serialiseFLock request) =
    some { request with lStart := int32 request.lStart, lLen := int32 request.lLen } := by
  have back : scanRecord 'L' 5 (textOf (serialiseFLock request)) = request.fields :=
    read_back (show 'L' ≠ '\x00' by decide) request.fields
  rw [unSerialiseFLock, back, Flock.fields]
  simp only [int16_small typed.lType, int16_small typed.lWhence, int32_same_iff.mpr typed.lPid]

theorem int32_fits (x : Int) : Fits32 (int32 x) := by
  refine ⟨?_, int32_lt x⟩
  rw [int32, Int.bmod_def]
  omega

theorem section_arrives_iff (typed : request.Typed) (i : Nat) :
    (sectionFor (serialiseFLock request) i).bind unSerialiseFLock = some { request with lStart := request.lStart + i } ↔
      Fits32 request.lStart ∧ Fits32 (request.lStart + i) ∧ Fits32 request.lLen := by
  have again (len : Int) : int32 (int32 len) = int32 len := int32_same_iff.mpr (int32_fits len)
  rw [sectionFor, flock_read_back typed]
  simp only [Option.bind_eq_bind, Option.bind_some]
  by_cases fits : Fits32 (int32 request.lStart + i)
  · have sent : Flock.Typed { request with lStart := int32 request.lStart + i, lLen := int32 request.lLen } :=
      ⟨typed.lType, typed.lWhence, typed.lPid⟩
    rw [checked32_fits fits, Option.bind_some, Option.bind_some, flock_read_back sent, Option.some.injEq, Flock.mk.injEq]
    simp only [true_and, and_true, again, int32_same_iff.mpr fits, int32_same_iff]
    constructor
    · rintro ⟨start, len⟩
      have same : int32 request.lStart = request.lStart := by omega
      exact ⟨int32_same_iff.mp same, same ▸ fits, len⟩
    · rintro ⟨start, -, len⟩
      exact ⟨by rw [int32_same_iff.mpr start], len⟩
  · rw [checked32, if_neg fits]
    refine iff_of_false (by rintro ⟨⟩) ?_
    rintro ⟨start, sum, -⟩
    rw [int32_same_iff.mpr start] at fits
    exact fits sum

end flock

/-- Tests and results are read as they were sent, and the repeater's look at a test gives its number; a section reaches
    the slave that it is for exactly when its offset, the slave's own offset and its length are ints. -/
theorem messages_arrive :
    (∀ t : STest, Fits32 t.test → Fits32 t.type → Fits32 t.resAtt → (serialiseTLock t).length = mSize ∧
      unSerialiseTLock (serialiseTLock t) = some t ∧ atoi ((serialiseTLock t).drop 2) = t.test) ∧
    (∀ r : Int, Fits32 r → (serialiseResult r).length = mSize ∧ unSerialiseResult (serialiseResult r) = some r) ∧
    ∀ request : Flock, request.Typed → ∀ i : Nat, (serialiseFLock request).length = mSize ∧
      ((sectionFor (serialiseFLock request) i).bind unSerialiseFLock =
          some { request with lStart := request.lStart + i } ↔
        Fits32 request.lStart ∧ Fits32 (request.lStart + i) ∧ Fits32 request.lLen) := by
  refine ⟨fun t test type resAtt => ⟨message_length 'T' (show 3 ≤ 5 by decide) (by simp [test, type, resAtt]), ?_, ?_⟩,
    fun r fits => ⟨message_length 'R' (show 1 ≤ 5 by decide) (by simp [fits]), ?_⟩,
    fun request typed i => ⟨message_length 'L' (Nat.le_refl 5) ?_, section_arrives_iff typed i⟩⟩
  · have back : scanRecord 'T' 3 (textOf (serialiseTLock t)) = [t.test, t.type, t.resAtt] :=
      read_back (show 'T' ≠ '\x00' by decide) [t.test, t.type, t.resAtt]
    rw [unSerialiseTLock, back]
  · rw [serialiseTLock, message, record, List.flatMap_cons]
    simp only [List.cons_append, List.append_assoc, List.drop_succ_cons, List.drop_zero]
    exact atoi_decimal t.test (by rintro c ⟨⟩; rfl)
  · have back : scanRecord 'R' 1 (textOf (serialiseResult r)) = [r] :=
      read_back (show 'R' ≠ '\x00' by decide) [r]
    rw [unSerialiseResult, back, List.head?_cons]
  · have short {x : Int} (small : -32768 ≤ x ∧ x < 32768) : Fits32 x := ⟨by omega, by omega⟩
    rw [Flock.fields, int16_small typed.lType, int16_small typed.lWhence, int32_same_iff.mpr typed.lPid]
    simp [short typed.lType, short typed.lWhence, int32_fits, typed.lPid]

end LockTestsWire
