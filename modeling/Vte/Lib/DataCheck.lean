import Vte.Base.Multiples
import Vte.Lib.DataPattern

/-!
lib/dataascii.c and lib/databin.c with the `int` arithmetic of their offsets: the generators, the
checks, and the offsets for which a check finds just the bytes its generator does not write. A result
is none when an operation overflows, divides by zero or reads outside the list.
-/
namespace VteDataCheck
open Bytes Patterned Multiples
open VteDataPattern (chars check check_none_iff Mode)

structure CharList where
  bytes : List Byte
  plain : 0 ∉ bytes

def charlist : Option CharList → List Byte
  | none => chars
  | some listofchars => listofchars.bytes

def charAt (list : List Byte) (cnt : Int) : Option Byte :=
  if list.length = 0 then none
  else
    let ind := cnt.tmod list.length
    if ind < 0 then none else list[ind.toNat]?

/-- The loop of `dataasciigen`, with the rounds left until `total`. -/
def asciiLoop (list : List Byte) : Nat → Int → Option (List Byte)
  | 0, _ => some []
  | left + 1, cnt => do
    let c ← charAt list cnt
    let rest ← asciiLoop list left (cnt + 1)
    some (c :: rest)

def dataasciigen (listofchars : Option CharList) (bsize : Nat) (offset : Int) :
    Option (List Byte) := do
  let _total ← checked32 (offset + bsize)
  asciiLoop (charlist listofchars) bsize offset

def asciiScan (list : List Byte) : List Byte → Int → Option Int
  | [], _ => some (-1)
  | chr :: buffer, cnt => do
    let c ← charAt list cnt
    if chr ≠ c then some cnt else asciiScan list buffer (cnt + 1)

def dataasciichk (listofchars : Option CharList) (offset : Int) (buffer : List Byte) :
    Option Int := do
  let _total ← checked32 (offset + buffer.length)
  asciiScan (charlist listofchars) buffer offset

/-- A character as the `int` it is in a mode. -/
def letter (c : Char) : Int := c.toNat

def counting (place : Int) : Int := (BitVec.ofInt 32 (place.tmod 8) &&& 0o177#32).toInt

/-- The byte of a `memset`; `default` is mode `a`. -/
def fillByte (mode : Int) : Byte :=
  if mode = letter 'c' then 0xf0
  else if mode = letter 'o' then 0xff
  else if mode = letter 'z' then 0
  else 0x55

def countLoop (offset : Int) : Nat → Nat → Option (List Byte)
  | 0, _ => some []
  | left + 1, ind => do
    let place ← checked32 (offset + ind)
    let rest ← countLoop offset left (ind + 1)
    some (BitVec.ofInt 8 (counting place) :: rest)

/-- `databingen`; `rand` are the numbers its random mode draws. -/
def databingen (mode : Int) (rand : Nat → Nat) (bsize : Nat) (offset : Int) : Option (List Byte) :=
  if mode = letter 'C' then countLoop offset bsize 0
  else if mode = letter 'r' then
    some ((List.range bsize).map fun ind => BitVec.ofNat 8 ((rand ind &&& 0o177) ||| 0o100))
  else some (List.replicate bsize (fillByte mode))

def expbits (mode : Int) : Int :=
  if mode = letter 'c' then 0xf0
  else if mode = letter 'o' then 0xff
  else if mode = letter 'z' then 0
  else 0x55

/-- The counting check compares a `char`, which has a sign. -/
def countScan (offset : Int) : List Byte → Nat → Option Int
  | [], _ => some (-1)
  | chr :: buffer, cnt => do
    let place ← checked32 (offset + cnt)
    if chr.toInt ≠ counting place then some place else countScan offset buffer (cnt + 1)

/-- The other checks compare an `unsigned char`. -/
def fillScan (expbits offset : Int) : List Byte → Nat → Option Int
  | [], _ => some (-1)
  | chr :: buffer, cnt =>
    if (chr.toNat : Int) ≠ expbits then checked32 (offset + cnt)
    else fillScan expbits offset buffer (cnt + 1)

def databinchk (mode : Int) (offset : Int) (buffer : List Byte) : Option Int :=
  if mode = letter 'C' then countScan offset buffer 0
  else if mode = letter 'r' then some (-1)
  else fillScan (expbits mode) offset buffer 0

section agreement

def verdict (offset : Int) : Option Nat → Int
  | none => -1
  | some i => offset + i

def Agrees (chk : Int → List Byte → Option Int) (offset : Int) (data : List Byte) : Prop :=
  ∀ buffer, buffer.length = data.length → ∃ r, chk offset buffer = some r ∧ (r = -1 ↔ buffer = data) ∧
    (buffer ≠ data → ∃ i : Nat, r = offset + i ∧ buffer[i]? ≠ data[i]? ∧ ∀ j, j < i → buffer[j]? = data[j]?)

def checkChunks (chk : Int → List Byte → Option Int) : Int → List (List Byte) → Option Int
  | _, [] => some (-1)
  | offset, chunk :: chunks => do
    let r ← chk offset chunk
    if r = -1 then checkChunks chk (offset + chunk.length) chunks else some r

def Chunked (chk : Int → List Byte → Option Int) (offset : Int) (n : Nat) : Prop :=
  ∀ chunks : List (List Byte), chunks.flatten.length = n → checkChunks chk offset chunks = chk offset chunks.flatten

/-- What the generator writes for `n` bytes is what the check accepts, whole or in chunks. -/
def Right (gen : Nat → Int → Option (List Byte)) (chk : Int → List Byte → Option Int) (offset : Int)
    (n : Nat) : Prop :=
  (∃ data, gen n offset = some data ∧ data.length = n ∧ Agrees chk offset data) ∧ Chunked chk offset n

/-- The offsets the ascii functions are right for: the sum does not overflow, no offset has a negative
    place in the list, and none is -1, which is what no mismatch looks like. -/
structure AsciiSound (size : Nat) (offset : Int) (n : Nat) : Prop where
  some_list : n ≠ 0 → size ≠ 0
  total : offset + n < 2147483648
  inside : ∀ i : Nat, i < n → offset + i < 0 → (size : Int) ∣ offset + i
  marked : ∀ i : Nat, i < n → offset + i ≠ -1

structure BinSound (mode : Int) (offset : Int) (n : Nat) : Prop where
  drawn : mode = letter 'r' → n = 0
  last : n ≠ 0 → offset + n ≤ 2147483648
  marked : ∀ i : Nat, i < n → offset + i ≠ -1

end agreement

section mismatch
variable {f : Nat → Byte} {buffer : List Byte}

theorem check_some {i k : Nat} (found : check f buffer k = some i) :
    ∃ j, i = k + j ∧ j < buffer.length ∧ buffer[j]? ≠ some (f i) ∧ ∀ l, l < j → buffer[l]? = some (f (k + l)) := by
  induction buffer generalizing k with
  | nil => cases found
  | cons b buffer ih =>
    rw [check] at found
    split at found
    · rename_i same
      obtain ⟨j, rfl, low, other, before⟩ := ih found
      refine ⟨j + 1, by omega, by rw [List.length_cons]; omega, other, ?_⟩
      intro l early
      cases l with
      | zero => exact congrArg some same
      | succ l =>
        rw [List.getElem?_cons_succ, before l (by omega)]
        congr 2
        omega
    · rename_i other
      obtain rfl := Option.some.inj found
      refine ⟨0, rfl, by simp, ?_, fun l early => absurd early (by omega)⟩
      simpa using other

theorem check_append {a b : List Byte} {k : Nat} :
    check f (a ++ b) k =
      match check f a k with
      | some i => some i
      | none => check f b (k + a.length) := by
  induction a generalizing k with
  | nil => simp [check]
  | cons c a ih =>
    rw [List.cons_append, check, check]
    split
    · rw [ih, List.length_cons, show k + 1 + a.length = k + (a.length + 1) by omega]
    · rfl

theorem check_shift {g : Nat → Byte} {k m : Nat} (same : ∀ i, f (m + i) = g i) :
    check f buffer (m + k) = (check g buffer k).map (m + ·) := by
  induction buffer generalizing k with
  | nil => rfl
  | cons b buffer ih =>
    rw [check, check, same]
    split
    · rw [Nat.add_assoc, ih]
    · rfl

end mismatch

section checker
variable {g : Int → Byte} {chk : Int → List Byte → Option Int} {sound : Int → Nat → Prop}

def placed (g : Int → Byte) (offset : Int) (i : Nat) : Byte := g (offset + i)

def Compares (g : Int → Byte) (chk : Int → List Byte → Option Int) (sound : Int → Nat → Prop) :
    Prop :=
  ∀ offset buffer, sound offset buffer.length →
    chk offset buffer = some (verdict offset (check (placed g offset) buffer 0))

theorem generate_at (f : Nat → Byte) {n i : Nat} (low : i < n) :
    (generate f n 0)[i]? = some (f i) := by
  simp [generate, List.getElem?_range low]

theorem fits_generate {f : Nat → Byte} {buffer : List Byte} {n : Nat} (size : buffer.length = n) :
    Fits f 0 buffer ↔ buffer = generate f n 0 := by
  constructor
  · intro fits
    apply List.ext_getElem?
    intro i
    by_cases low : i < n
    · have here := fits i _ (List.getElem?_eq_getElem (by omega))
      rw [Nat.zero_add] at here
      rw [generate_at f low, List.getElem?_eq_getElem (by omega), here]
    · rw [List.getElem?_eq_none (by omega), List.getElem?_eq_none (by simpa using low)]
  · rintro rfl
    exact generate_fits f n 0

theorem compares_agrees (compares : Compares g chk sound) {offset : Int} {n : Nat}
    (here : sound offset n) (marked : ∀ i : Nat, i < n → offset + i ≠ -1) :
    Agrees chk offset (generate (placed g offset) n 0) := by
  intro buffer size
  rw [generate_length] at size
  have returned := compares offset buffer (by rwa [size])
  have equal := (check_none_iff (placed g offset) buffer 0).trans (fits_generate size)
  refine ⟨_, returned, ?_, ?_⟩
  · rw [← equal]
    cases found : check (placed g offset) buffer 0 with
    | none => simp [verdict]
    | some i =>
      obtain ⟨j, rfl, low, -, -⟩ := check_some found
      have apart := marked j (by omega)
      simpa [verdict] using apart
  · intro other
    cases found : check (placed g offset) buffer 0 with
    | none => exact absurd (equal.mp found) other
    | some i =>
      obtain ⟨j, rfl, low, wrong, before⟩ := check_some found
      rw [Nat.zero_add] at *
      refine ⟨j, rfl, ?_, ?_⟩
      · rwa [generate_at _ (by omega)]
      · intro l early
        rw [before l early, generate_at _ (by omega), Nat.zero_add]

theorem compares_chunked (compares : Compares g chk sound)
    (splits : ∀ {offset m k}, sound offset (m + k) → sound offset m ∧ sound (offset + m) k)
    {offset : Int} {n : Nat} (here : sound offset n)
    (marked : ∀ i : Nat, i < n → offset + i ≠ -1) : Chunked chk offset n := by
  intro chunks size
  induction chunks generalizing offset n with
  | nil =>
    rw [checkChunks, List.flatten_nil, compares offset [] (by
      obtain rfl : 0 = n := size
      exact here)]
    rfl
  | cons chunk chunks ih =>
    rw [List.flatten_cons, List.length_append] at size
    subst size
    obtain ⟨first, rest⟩ := splits here
    have later : ∀ i : Nat, i < chunks.flatten.length → offset + chunk.length + i ≠ -1 := by
      intro i low
      have apart := marked (chunk.length + i) (by omega)
      omega
    rw [checkChunks, List.flatten_cons, compares offset chunk first,
      compares offset (chunk ++ chunks.flatten) (by rwa [List.length_append]), check_append]
    simp only [Option.bind_eq_bind, Option.bind_some]
    cases found : check (placed g offset) chunk 0 with
    | some i =>
      obtain ⟨j, rfl, low, -, -⟩ := check_some found
      have apart := marked j (by omega)
      rw [if_neg (by simpa [verdict] using apart)]
    | none =>
      have moved : ∀ i : Nat, placed g offset (chunk.length + i) = placed g (offset + chunk.length) i := by
        intro i
        rw [placed, placed]
        congr 1
        omega
      rw [if_pos (by rfl), ih rest later rfl, compares _ _ rest, Nat.zero_add,
        show chunk.length = chunk.length + 0 from rfl, check_shift moved]
      simp only [Nat.add_zero]
      cases check (placed g (offset + chunk.length)) chunks.flatten 0 with
      | none => rfl
      | some i =>
        simp only [Option.map_some, verdict, Option.some.injEq]
        omega

theorem agrees_changed {offset : Int} {data : List Byte} (agrees : Agrees chk offset data) {i : Nat}
    (low : i < data.length) :
    ∃ buffer, buffer.length = data.length ∧ buffer ≠ data ∧
      chk offset buffer = some (offset + i) ∧ offset + i ≠ -1 := by
  obtain ⟨buffer, changed⟩ : ∃ buffer, buffer = data.set i (data[i] + 1) := ⟨_, rfl⟩
  have size : buffer.length = data.length := by rw [changed, List.length_set]
  have here : buffer[i]? ≠ data[i]? := by
    rw [changed, List.getElem?_set_self low, List.getElem?_eq_getElem low]
    intro same
    have bytes := congrArg BitVec.toNat (Option.some.inj same)
    rw [BitVec.toNat_add] at bytes
    have small := data[i].isLt
    simp at bytes
    omega
  have elsewhere : ∀ j, j ≠ i → buffer[j]? = data[j]? := by
    intro j other
    rw [changed, List.getElem?_set_ne (by omega)]
  have different : buffer ≠ data := by
    intro same
    rw [same] at here
    exact here rfl
  obtain ⟨r, returned, accepted, place⟩ := agrees buffer size
  obtain ⟨j, rfl, wrong, -⟩ := place different
  obtain rfl : j = i := by
    by_contra other
    exact wrong (elsewhere j other)
  exact ⟨buffer, size, different, returned, fun none_wrong => different (accepted.mp none_wrong)⟩

end checker

section ascii
variable {list : List Byte}

theorem char_at_some_iff (cnt : Int) :
    (∃ c, charAt list cnt = some c) ↔ list.length ≠ 0 ∧ (cnt < 0 → (list.length : Int) ∣ cnt) := by
  unfold charAt
  by_cases empty : list.length = 0
  · simp [empty]
  · rw [if_neg empty]
    have size : 0 < (list.length : Int) := by omega
    have high := Int.tmod_lt_of_pos cnt size
    have inside : ¬ cnt.tmod list.length < 0 → ∃ c, list[(cnt.tmod list.length).toNat]? = some c := by
      intro low
      exact ⟨_, List.getElem?_eq_getElem (by omega)⟩
    have sign : cnt.tmod list.length < 0 ↔ ¬ (cnt < 0 → (list.length : Int) ∣ cnt) := by
      by_cases negative : cnt < 0
      · have turned := Int.tmod_nonneg (a := -cnt) (list.length : Int) (by omega)
        rw [Int.neg_tmod] at turned
        have zero := tmod_zero_iff (x := cnt) (m := list.length)
        simp only [negative, true_implies, ← zero]
        omega
      · have low := Int.tmod_nonneg (a := cnt) (list.length : Int) (by omega)
        simp only [negative, false_implies, not_true_eq_false, iff_false]
        omega
    simp only [ne_eq, empty, not_false_eq_true, true_and]
    by_cases low : cnt.tmod list.length < 0
    · rw [if_pos low]
      simp only [reduceCtorEq, exists_false, false_iff]
      exact sign.mp low
    · rw [if_neg low]
      exact ⟨fun _ => not_not.mp fun other => low (sign.mpr other), fun _ => inside low⟩

def asciiByte (list : List Byte) (place : Int) : Byte := (charAt list place).getD 0

theorem ascii_loop_iff (n : Nat) (offset : Int) :
    (∃ data, asciiLoop list n offset = some data) ↔ ∀ i : Nat, i < n → ∃ c, charAt list (offset + i) = some c := by
  induction n generalizing offset with
  | zero => simp [asciiLoop]
  | succ n ih =>
    simp only [asciiLoop, Option.bind_eq_bind, Option.bind_eq_some_iff]
    constructor
    · rintro ⟨data, c, first, rest, others, -⟩ i low
      cases i with
      | zero => exact ⟨c, by simpa using first⟩
      | succ i =>
        obtain ⟨c, here⟩ := (ih (offset + 1)).mp ⟨rest, others⟩ i (by omega)
        exact ⟨c, by rw [← here]; congr 1; omega⟩
    · intro all
      obtain ⟨c, first⟩ := all 0 (by omega)
      obtain ⟨rest, others⟩ := (ih (offset + 1)).mpr fun i low => by
        obtain ⟨c, here⟩ := all (i + 1) (by omega)
        exact ⟨c, by rw [← here]; congr 1; omega⟩
      exact ⟨_, c, by simpa using first, rest, others, rfl⟩

theorem ascii_loop_bytes (n : Nat) (offset : Int) (k : Nat)
    (all : ∀ i : Nat, i < n → ∃ c, charAt list (offset + k + i) = some c) :
    asciiLoop list n (offset + k) = some (generate (placed (asciiByte list) offset) n k) := by
  induction n generalizing k with
  | zero => rfl
  | succ n ih =>
    obtain ⟨c, first⟩ := all 0 (by omega)
    rw [Int.natCast_zero, Int.add_zero] at first
    have rest := ih (k + 1) fun i low => by
      obtain ⟨c, here⟩ := all (i + 1) (by omega)
      exact ⟨c, by rw [← here]; congr 1; omega⟩
    rw [asciiLoop, first, show offset + k + 1 = offset + (k + 1 : Nat) by omega]
    simp only [Option.bind_eq_bind, Option.bind_some, rest, generate, List.range_succ_eq_map,
      List.map_cons, List.map_map, Option.some.injEq, List.cons.injEq]
    refine ⟨by rw [placed, Nat.add_zero, asciiByte, first]; rfl, ?_⟩
    apply List.map_congr_left
    intro i _
    simp only [Function.comp]
    congr 1
    omega

theorem ascii_scan_check (offset : Int) (buffer : List Byte) (k : Nat)
    (all : ∀ i : Nat, i < buffer.length → ∃ c, charAt list (offset + k + i) = some c) :
    asciiScan list buffer (offset + k) = some (verdict offset (check (placed (asciiByte list) offset) buffer k)) := by
  induction buffer generalizing k with
  | nil => rfl
  | cons b buffer ih =>
    obtain ⟨c, first⟩ := all 0 (by simp)
    rw [Int.natCast_zero, Int.add_zero] at first
    have rest := ih (k + 1) fun i low => by
      obtain ⟨c, here⟩ := all (i + 1) (by simpa using low)
      exact ⟨c, by rw [← here]; congr 1; omega⟩
    have byte : placed (asciiByte list) offset k = c := by
      rw [placed, asciiByte, first]
      rfl
    rw [asciiScan, check, byte, first, show offset + k + 1 = offset + (k + 1 : Nat) by omega, rest]
    simp only [Option.bind_eq_bind, Option.bind_some]
    by_cases same : b = c
    · rw [if_neg (by simpa using same), if_pos same]
    · rw [if_pos same, if_neg same]
      rfl

theorem ascii_sound_split {size : Nat} {offset : Int} {m k : Nat}
    (here : Fits32 offset ∧ AsciiSound size offset (m + k)) :
    (Fits32 offset ∧ AsciiSound size offset m) ∧ (Fits32 (offset + m) ∧ AsciiSound size (offset + m) k) := by
  obtain ⟨⟨low, -⟩, some_list, total, inside, marked⟩ := here
  refine ⟨⟨⟨low, by omega⟩, fun some_bytes => some_list (by omega), by omega,
    fun i early => inside i (by omega), fun i early => marked i (by omega)⟩,
    ⟨by omega, by omega⟩, fun some_bytes => some_list (by omega), by omega, ?_, ?_⟩
  · intro i early negative
    rw [Int.add_assoc]
    exact inside (m + i) (by omega) (by omega)
  · intro i early
    have apart := marked (m + i) (by omega)
    omega

theorem ascii_all {offset : Int} {n : Nat} (sound : AsciiSound list.length offset n) (i : Nat)
    (low : i < n) : ∃ c, charAt list (offset + i) = some c :=
  (char_at_some_iff _).mpr ⟨sound.some_list (by omega), sound.inside i low⟩

theorem ascii_compares (listofchars : Option CharList) :
    Compares (asciiByte (charlist listofchars)) (dataasciichk listofchars)
      fun offset n => Fits32 offset ∧ AsciiSound (charlist listofchars).length offset n := by
  intro offset buffer sound
  obtain ⟨⟨low, -⟩, sound⟩ := sound
  have total := sound.total
  have scanned := ascii_scan_check offset buffer 0 fun i early => by
    simpa using ascii_all sound i early
  rw [dataasciichk, checked32_fits ⟨by omega, total⟩]
  simpa using scanned

theorem ascii_right (listofchars : Option CharList) {offset : Int} (n : Nat)
    (place : Fits32 offset) :
    Right (dataasciigen listofchars) (dataasciichk listofchars) offset n ↔
      AsciiSound (charlist listofchars).length offset n := by
  constructor
  · rintro ⟨⟨data, written, size, agrees⟩, -⟩
    simp only [dataasciigen, Option.bind_eq_bind, Option.bind_eq_some_iff, checked32_iff] at written
    obtain ⟨_, ⟨total, -⟩, looped⟩ := written
    have all := (ascii_loop_iff n offset).mp ⟨data, looped⟩
    refine ⟨?_, total.2, ?_, ?_⟩
    · intro some_bytes
      exact ((char_at_some_iff _).mp (all 0 (by omega))).1
    · intro i low
      exact ((char_at_some_iff _).mp (all i low)).2
    · intro i low
      obtain ⟨-, -, -, -, apart⟩ := agrees_changed agrees (i := i) (by omega)
      exact apart
  · intro sound
    have compares := ascii_compares listofchars
    refine ⟨⟨_, ?_, generate_length _ n 0, compares_agrees compares ⟨place, sound⟩ sound.marked⟩,
      compares_chunked compares ascii_sound_split ⟨place, sound⟩ sound.marked⟩
    have written := ascii_loop_bytes n offset 0 fun i low => by
      simpa using ascii_all sound i low
    rw [dataasciigen, checked32_fits ⟨by have low := place.1; omega, sound.total⟩]
    simpa using written

end ascii

section binary
variable {mode : Int}

theorem counting_range (place : Int) : 0 ≤ counting place ∧ counting place < 128 := by
  unfold counting
  obtain ⟨word, same⟩ : ∃ word, word = BitVec.ofInt 32 (place.tmod 8) := ⟨_, rfl⟩
  rw [← same]
  have small : (word &&& 0o177#32).toNat ≤ 127 := by
    rw [BitVec.toNat_and]
    exact Nat.and_le_right
  rw [BitVec.toInt_eq_toNat_of_lt (by omega)]
  omega

theorem counting_byte (chr : Byte) (place : Int) :
    chr.toInt = counting place ↔ chr = BitVec.ofInt 8 (counting place) := by
  obtain ⟨low, high⟩ := counting_range place
  have read : (BitVec.ofInt 8 (counting place)).toInt = counting place := by
    rw [BitVec.toInt_ofInt]
    exact Int.bmod_eq_of_le (by omega) (by omega)
  constructor
  · intro same
    apply BitVec.eq_of_toInt_eq
    rw [read, same]
  · rintro rfl
    exact read

theorem fill_byte (chr : Byte) (mode : Int) :
    (chr.toNat : Int) = expbits mode ↔ chr = fillByte mode := by
  have value : expbits mode = ((fillByte mode).toNat : Int) := by
    unfold expbits fillByte
    split_ifs
    · rfl
    · rfl
    · rfl
    · rfl
  rw [value, Int.ofNat_inj]
  exact ⟨BitVec.eq_of_toNat_eq, fun same => congrArg BitVec.toNat same⟩

/-- The byte of `databingen` at a place, for every mode but the random one. -/
def binByte (mode : Int) (place : Int) : Byte :=
  if mode = letter 'C' then BitVec.ofInt 8 (counting place) else fillByte mode

theorem fits_succ {offset : Int} {k n : Nat}
    (all : ∀ i : Nat, i < n + 1 → Fits32 (offset + k + i)) :
    Fits32 (offset + k) ∧ ∀ i : Nat, i < n → Fits32 (offset + (k + 1 : Nat) + i) := by
  have first := all 0 (by omega)
  rw [Int.natCast_zero, Int.add_zero] at first
  refine ⟨first, fun i low => ?_⟩
  have here := all (i + 1) (by omega)
  rwa [show offset + k + (i + 1 : Nat) = offset + (k + 1 : Nat) + i by omega] at here

theorem count_loop_bytes {offset : Int} (n : Nat) {k : Nat}
    (all : ∀ i : Nat, i < n → Fits32 (offset + k + i)) :
    countLoop offset n k = some (generate (placed (binByte (letter 'C')) offset) n k) := by
  induction n generalizing k with
  | zero => rfl
  | succ n ih =>
    obtain ⟨first, later⟩ := fits_succ all
    rw [countLoop, checked32_fits first]
    simp only [Option.bind_eq_bind, Option.bind_some, ih later, generate, List.range_succ_eq_map,
      List.map_cons, List.map_map, Option.some.injEq, List.cons.injEq]
    refine ⟨by rw [placed, binByte, if_pos rfl, Nat.add_zero], ?_⟩
    apply List.map_congr_left
    intro i _
    simp only [Function.comp]
    congr 1
    omega

theorem count_scan_check {offset : Int} (buffer : List Byte) {k : Nat}
    (all : ∀ i : Nat, i < buffer.length → Fits32 (offset + k + i)) :
    countScan offset buffer k = some (verdict offset (check (placed (binByte (letter 'C')) offset) buffer k)) := by
  induction buffer generalizing k with
  | nil => rfl
  | cons b buffer ih =>
    obtain ⟨first, later⟩ := fits_succ all
    rw [countScan, checked32_fits first, check, placed, binByte, if_pos rfl, ih later]
    simp only [Option.bind_eq_bind, Option.bind_some, ne_eq, counting_byte]
    by_cases same : b = BitVec.ofInt 8 (counting (offset + k))
    · rw [if_neg (not_not.mpr same), if_pos same]
    · rw [if_pos same, if_neg same]
      rfl

theorem fill_scan_check {offset : Int} (counts : mode ≠ letter 'C') (buffer : List Byte) {k : Nat}
    (all : ∀ i : Nat, i < buffer.length → Fits32 (offset + k + i)) :
    fillScan (expbits mode) offset buffer k =
      some (verdict offset (check (placed (binByte mode) offset) buffer k)) := by
  induction buffer generalizing k with
  | nil => rfl
  | cons b buffer ih =>
    obtain ⟨first, later⟩ := fits_succ all
    rw [fillScan, checked32_fits first, check, placed, binByte, if_neg counts, ih later]
    simp only [ne_eq, fill_byte]
    by_cases same : b = fillByte mode
    · rw [if_neg (not_not.mpr same), if_pos same]
    · rw [if_pos same, if_neg same]
      rfl

theorem databinchk_fits {offset r : Int} {buffer : List Byte}
    (returned : databinchk mode offset buffer = some r) : r = -1 ∨ Fits32 r := by
  have counted : ∀ k, countScan offset buffer k = some r → r = -1 ∨ Fits32 r := by
    clear returned
    induction buffer with
    | nil => exact fun _ found => .inl (Option.some.inj found).symm
    | cons b buffer ih =>
      intro k found
      simp only [countScan, Option.bind_eq_bind, Option.bind_eq_some_iff, checked32_iff] at found
      obtain ⟨_, ⟨fits, rfl⟩, result⟩ := found
      split at result
      · obtain rfl := Option.some.inj result
        exact .inr fits
      · exact ih _ result
  have filled : ∀ k, fillScan (expbits mode) offset buffer k = some r → r = -1 ∨ Fits32 r := by
    clear returned counted
    induction buffer with
    | nil => exact fun _ found => .inl (Option.some.inj found).symm
    | cons b buffer ih =>
      intro k found
      rw [fillScan] at found
      split at found
      · obtain ⟨fits, rfl⟩ := checked32_iff.mp found
        exact .inr fits
      · exact ih _ found
  unfold databinchk at returned
  split at returned
  · exact counted 0 returned
  · split at returned
    · exact .inl (Option.some.inj returned).symm
    · exact filled 0 returned

theorem bin_sound_split {offset : Int} {m k : Nat}
    (here : -2147483648 ≤ offset ∧ BinSound mode offset (m + k)) :
    (-2147483648 ≤ offset ∧ BinSound mode offset m) ∧ (-2147483648 ≤ offset + m ∧ BinSound mode (offset + m) k) := by
  obtain ⟨low, drawn, last, marked⟩ := here
  refine ⟨⟨low, fun random => ?_, fun some_bytes => ?_, fun i early => marked i (by omega)⟩,
    by omega, fun random => ?_, fun some_bytes => ?_, fun i early => ?_⟩
  · have none_drawn := drawn random
    omega
  · have fits := last (by omega)
    omega
  · have none_drawn := drawn random
    omega
  · have fits := last (by omega)
    omega
  · have apart := marked (m + i) (by omega)
    omega

theorem bin_fits {offset : Int} {n : Nat} (low : -2147483648 ≤ offset)
    (sound : BinSound mode offset n) (i : Nat) (early : i < n) :
    Fits32 (offset + (0 : Nat) + i) := by
  have fits := sound.last (by omega)
  unfold Fits32
  omega

theorem bin_compares (mode : Int) : Compares (binByte mode) (databinchk mode)
    fun offset n => -2147483648 ≤ offset ∧ BinSound mode offset n := by
  intro offset buffer sound
  obtain ⟨low, sound⟩ := sound
  unfold databinchk
  by_cases counts : mode = letter 'C'
  · subst counts
    rw [if_pos rfl]
    exact count_scan_check buffer (bin_fits low sound)
  · rw [if_neg counts]
    by_cases random : mode = letter 'r'
    · have empty := List.length_eq_zero_iff.mp (sound.drawn random)
      rw [if_pos random, empty]
      rfl
    · rw [if_neg random]
      exact fill_scan_check counts buffer (bin_fits low sound)

theorem databingen_bytes (rand : Nat → Nat) {offset : Int} {n : Nat} (low : -2147483648 ≤ offset)
    (sound : BinSound mode offset n) :
    databingen mode rand n offset = some (generate (placed (binByte mode) offset) n 0) := by
  unfold databingen
  by_cases counts : mode = letter 'C'
  · subst counts
    rw [if_pos rfl]
    exact count_loop_bytes n (bin_fits low sound)
  · rw [if_neg counts]
    by_cases random : mode = letter 'r'
    · obtain rfl := sound.drawn random
      rw [if_pos random]
      rfl
    · rw [if_neg random, Option.some.injEq]
      apply List.ext_getElem?
      intro i
      by_cases early : i < n
      · rw [generate_at _ early, List.getElem?_replicate_of_lt early, placed, binByte, if_neg counts]
      · rw [List.getElem?_eq_none (by simpa using early), List.getElem?_eq_none (by simpa using early)]

theorem bin_right (mode : Int) (rand : Nat → Nat) {offset : Int} (n : Nat) (place : Fits32 offset) :
    Right (databingen mode rand) (databinchk mode) offset n ↔ BinSound mode offset n := by
  constructor
  · rintro ⟨⟨data, -, size, agrees⟩, -⟩
    have changed : ∀ i : Nat, i < n → ∃ buffer,
        databinchk mode offset buffer = some (offset + i) ∧ offset + i ≠ -1 := by
      intro i low
      obtain ⟨buffer, -, -, returned, apart⟩ := agrees_changed agrees (i := i) (by omega)
      exact ⟨buffer, returned, apart⟩
    refine ⟨?_, ?_, ?_⟩
    · intro random
      by_contra some_bytes
      obtain ⟨buffer, returned, apart⟩ := changed 0 (by omega)
      have other : ¬ mode = letter 'C' := by
        rw [random]
        decide
      rw [databinchk, if_neg other, if_pos random, Option.some.injEq] at returned
      exact apart returned.symm
    · intro some_bytes
      obtain ⟨buffer, returned, apart⟩ := changed (n - 1) (by omega)
      rcases databinchk_fits returned with none_wrong | fits
      · exact absurd none_wrong apart
      · have high := fits.2
        omega
    · intro i low
      obtain ⟨-, -, apart⟩ := changed i low
      exact apart
  · intro sound
    have compares := bin_compares mode
    exact ⟨⟨_, databingen_bytes rand place.1 sound, generate_length _ n 0,
      compares_agrees compares ⟨place.1, sound⟩ sound.marked⟩,
      compares_chunked compares bin_sound_split ⟨place.1, sound⟩ sound.marked⟩

end binary

section both

/-- Where the generators and the checks agree, for every list, mode, offset and length. -/
theorem generators_checked (listofchars : Option CharList) (mode : Int) (rand : Nat → Nat)
    {offset : Int} (n : Nat) (place : Fits32 offset) :
    (Right (dataasciigen listofchars) (dataasciichk listofchars) offset n ↔
      AsciiSound (charlist listofchars).length offset n) ∧
    (Right (databingen mode rand) (databinchk mode) offset n ↔ BinSound mode offset n) :=
  ⟨ascii_right listofchars n place, bin_right mode rand n place⟩

theorem counting_checked :
    Right (dataasciigen none) (dataasciichk none) 1000 3 ∧
    Right (databingen (letter 'C') fun _ => 0) (databinchk (letter 'C')) 1000 3 := by
  obtain ⟨ascii, bin⟩ := generators_checked none (letter 'C') (fun _ => 0) 3
    (show Fits32 1000 by decide)
  exact ⟨ascii.mpr ⟨fun _ => by decide, by decide, fun i _ negative => absurd negative (by omega),
    fun i _ => by omega⟩, bin.mpr ⟨by decide, by decide, fun i _ => by omega⟩⟩

/-- The last two bytes an `int` offset can have: the sum `offset + bsize` overflows. A wrong byte at
    -1 looks like none. -/
theorem last_bytes_unchecked :
    dataasciichk none 2147483646 [0, 0] = none ∧
    ¬ Right (dataasciigen none) (dataasciichk none) 2147483646 2 ∧
    databinchk (letter 'z') (-1) [1] = some (-1) ∧
    ¬ Right (databingen (letter 'z') fun _ => 0) (databinchk (letter 'z')) (-1) 1 := by
  refine ⟨by decide, ?_, by decide, ?_⟩
  · rw [ascii_right none 2 (by decide)]
    intro sound
    exact absurd sound.total (by decide)
  · rw [bin_right (letter 'z') (fun _ => 0) 1 (by decide)]
    intro sound
    exact absurd (sound.marked 0 (by decide)) (by decide)

end both

section offsets

theorem ascii_byte_nat (place : Nat) :
    asciiByte chars (place : Int) = VteDataPattern.asciiByte place := by
  have size : chars.length = 54 := by decide
  have cut : (place : Int).tmod (54 : Nat) = ((place % 54 : Nat) : Int) := by
    rw [Int.tmod_eq_emod_of_nonneg (by omega)]
    omega
  rw [asciiByte, charAt, VteDataPattern.asciiByte, size]
  simp only [if_neg (show ¬ (54 : Nat) = 0 by decide), cut]
  rw [if_neg (by omega), Int.toNat_natCast]
  rfl

theorem counting_nat (place : Nat) :
    binByte (letter 'C') (place : Int) = Mode.counting.byte place := by
  rw [binByte, if_pos rfl, counting, Mode.byte, Int.tmod_eq_emod_of_nonneg (by omega)]
  have cut : (place : Int) % 8 = ((place % 8 : Nat) : Int) := by omega
  have every : ∀ r < 8, BitVec.ofInt 8 (BitVec.ofInt 32 (r : Nat) &&& 0o177#32).toInt =
      BitVec.ofNat 8 (r &&& 0o177) := by decide
  rw [cut]
  exact every (place % 8) (Nat.mod_lt _ (by omega))

end offsets
end VteDataCheck
