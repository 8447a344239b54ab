import Vte.Base.Digits

/-!
testcases/network/stress/ns-tools/ns-common.c: a string of nanoseconds as a timespec, and random
numbers in a range. An `unsigned int` has 32 bits, a `size_t` 64; `RAND_MAX` is an int.
-/
namespace VteNsCommon
open CInt Digits Text

section nanoseconds

structure Timespec where
  sec : Nat
  nsec : Nat
deriving DecidableEq

def strtotimespec (str : Str) : Option Timespec :=
  let len := str.length
  if 9 < len then
    let sec := strtoul (str.take (len - 9))
    if 0x7fffffff < sec then none else some { sec, nsec := strtoul (str.drop (len - 9)) }
  else some { sec := 0, nsec := strtoul str }

def secDigits (str : Str) : Str := str.take (str.length - 9)

def nsecDigits (str : Str) : Str := str.drop (str.length - 9)

def SplitRight (str : Str) : Prop :=
  if number 10 str / 1000000000 ≤ 0x7fffffff then
    ∃ ts, strtotimespec str = some ts ∧ ts.sec * 1000000000 + ts.nsec = number 10 str ∧ ts.nsec < 1000000000
  else strtotimespec str = none

def Plain (digits : Str) : Prop := digits.head? ≠ some '0' ∨ OneOctal digits

def LargeSeconds (digits : Str) : Prop := digits.head? ≠ some '0' ∨ 0x7fffffff < number 8 digits

def SplitCond (str : Str) : Prop :=
  if number 10 (secDigits str) ≤ 0x7fffffff then Plain (secDigits str) ∧ Plain (nsecDigits str)
  else LargeSeconds (secDigits str)

variable {str digits : Str}

theorem strtoul_plain_iff (only : OnlyDigits digits) (small : number 10 digits < 4294967296) :
    strtoul digits ≤ number 10 digits ∧ (strtoul digits = number 10 digits ↔ Plain digits) := by
  rw [strtoul_digits only, Plain, ← decimal_octal_iff]
  by_cases zero : digits.head? = some '0'
  · have below : number 8 digits ≤ number 10 digits :=
      number_from_mono (by decide) (by decide) (Nat.le_refl 0)
    rw [if_pos zero, Nat.min_eq_left (by omega)]
    exact ⟨below, fun same => .inr same.symm, fun plain => (plain.resolve_left (· zero)).symm⟩
  · rw [if_neg zero, Nat.min_eq_left (by omega)]
    simp [zero]

theorem strtoul_large_iff (only : OnlyDigits digits) (large : 0x7fffffff < number 10 digits) :
    0x7fffffff < strtoul digits ↔ LargeSeconds digits := by
  rw [strtoul_digits only, LargeSeconds, Nat.lt_min]
  by_cases zero : digits.head? = some '0'
  · rw [if_pos zero]
    simp [zero]
  · rw [if_neg zero]
    simp [zero, large]

theorem split_form (str : Str) : strtotimespec str =
    if 0x7fffffff < strtoul (secDigits str) then none
    else some { sec := strtoul (secDigits str), nsec := strtoul (nsecDigits str) } := by
  unfold strtotimespec
  dsimp only
  split
  · rfl
  · have short : str.length - 9 = 0 := by omega
    rw [secDigits, nsecDigits, short, List.take_zero, List.drop_zero]
    rfl

theorem number_split (only : OnlyDigits str) :
    number 10 str = number 10 (secDigits str) * 1000000000 + number 10 (nsecDigits str) ∧
      number 10 (nsecDigits str) < 1000000000 := by
  have first : OnlyDigits (secDigits str) := fun c member => only c (List.mem_of_mem_take member)
  have last : OnlyDigits (nsecDigits str) := fun c member => only c (List.mem_of_mem_drop member)
  have few : (nsecDigits str).length ≤ 9 := by
    rw [nsecDigits, List.length_drop]
    omega
  have below : number 10 (nsecDigits str) < 1000000000 :=
    Nat.lt_of_lt_of_le (number_lt_pow last) (Nat.pow_le_pow_right (by decide) few)
  refine ⟨?_, below⟩
  have whole := number_append first (nsecDigits str)
  rw [secDigits, nsecDigits, List.take_append_drop, ← secDigits, ← nsecDigits, number_from_digits last] at whole
  rw [whole]
  by_cases long : 9 ≤ str.length
  · have nine : (nsecDigits str).length = 9 := by
      rw [nsecDigits, List.length_drop]
      omega
    rw [nine, show 10 ^ 9 = 1000000000 from rfl]
  · have short : str.length - 9 = 0 := by omega
    have none : secDigits str = [] := by rw [secDigits, short, List.take_zero]
    rw [none]
    simp [number, numberFrom]

/-- The number of nanoseconds is split rightly for just these strings. -/
theorem strtotimespec_right_iff (only : OnlyDigits str) : SplitRight str ↔ SplitCond str := by
  have first : OnlyDigits (secDigits str) := fun c member => only c (List.mem_of_mem_take member)
  have last : OnlyDigits (nsecDigits str) := fun c member => only c (List.mem_of_mem_drop member)
  obtain ⟨whole, below⟩ := number_split only
  have seconds : number 10 str / 1000000000 = number 10 (secDigits str) := by omega
  unfold SplitRight SplitCond
  rw [seconds, split_form]
  by_cases small : number 10 (secDigits str) ≤ 0x7fffffff
  · obtain ⟨secBelow, secSame⟩ := strtoul_plain_iff first (by omega)
    obtain ⟨nsecBelow, nsecSame⟩ := strtoul_plain_iff last (by omega)
    rw [if_pos small, if_pos small, if_neg (by omega), ← secSame, ← nsecSame]
    constructor
    · rintro ⟨ts, stored, total, _⟩
      obtain rfl := Option.some.inj stored
      dsimp only at total
      omega
    · rintro ⟨sec, nsec⟩
      exact ⟨_, rfl, by dsimp only; omega, by dsimp only; omega⟩
  · rw [if_neg small, if_neg small, ← strtoul_large_iff first (by omega)]
    constructor
    · intro refused
      by_contra few
      rw [if_neg few] at refused
      cases refused
    · intro large
      rw [if_pos large]

/-- One second and ten nanoseconds: the ten is read as octal. -/
theorem ten_nanoseconds_octal : ¬ ∀ str : Str, OnlyDigits str → SplitRight str := by
  intro all
  have only : OnlyDigits "1000000010".toList := by decide
  have right := all _ only
  have octal : strtotimespec "1000000010".toList = some { sec := 1, nsec := 8 } := by decide
  rw [SplitRight, if_pos (by decide), octal] at right
  obtain ⟨ts, stored, total, _⟩ := right
  obtain rfl := Option.some.inj stored
  revert total
  decide

theorem one_and_half_split : SplitRight "1500000000".toList := by
  have only : OnlyDigits "1500000000".toList := by decide
  refine (strtotimespec_right_iff only).mpr ?_
  rw [SplitCond, if_pos (by decide)]
  exact ⟨.inl (by decide), .inl (by decide)⟩

end nanoseconds

section random

def u32 (x : Int) : Nat := (x % 4294967296).toNat

def quotient (a b : Nat) : Option Nat := if b = 0 then none else some (a / b)

def randWithin (randMax draw : Nat) (first last : Int) : Option Int := do
  let first := if first < 0 then 0 else first
  let last := if randMax < u32 last then (randMax : Int) else last
  let num := u32 (last - first + 1)
  let part ← quotient (randMax + 1) num
  let q ← quotient draw part
  return int32 (q + first)

def bitChangeSeed (randMax draw bitsize oversize : Nat) : Option (BitVec 32) := do
  let part ← quotient (randMax + 1) (u64 (bitsize + oversize))
  let rand_val ← quotient draw part
  return if rand_val < bitsize then 1#32 <<< rand_val else 0

def InRange (randMax draw : Nat) (first last : Int) : Prop :=
  ∃ value, randWithin randMax draw first last = some value ∧ first ≤ value ∧ value ≤ last

def SeedRight (randMax bitsize oversize : Nat) : Prop :=
  (∀ draw ≤ randMax, ∃ seed, bitChangeSeed randMax draw bitsize oversize = some seed ∧
    (seed = 0 ∨ ∃ bit < bitsize, seed = 1#32 <<< bit)) ∧
  ∀ bit < bitsize, ∃ draw ≤ randMax, bitChangeSeed randMax draw bitsize oversize = some (1#32 <<< bit)

def DrawCond (randMax draw : Nat) (first last : Int) : Prop :=
  draw < (randMax + 1) / (last - first + 1).toNat * (last - first + 1).toNat

def SizeCond (randMax bitsize oversize : Nat) : Prop :=
  let size := u64 (bitsize + oversize)
  1 ≤ size ∧ size ≤ randMax + 1 ∧ (bitsize - 1) * ((randMax + 1) / size) ≤ randMax

variable {randMax draw bitsize oversize a b : Nat} {first last : Int}

theorem quotient_some {q : Nat} (defined : quotient a b = some q) : 0 < b ∧ q = a / b := by
  unfold quotient at defined
  split at defined
  · cases defined
  · exact ⟨by omega, (Option.some.inj defined).symm⟩

theorem quotient_pos (pos : 0 < b) : quotient a b = some (a / b) := by
  rw [quotient, if_neg (by omega)]

theorem rand_within_value (int : randMax ≤ 2147483647) (drawn : draw ≤ randMax)
    (low : 0 ≤ first) (ordered : first ≤ last) (high : last ≤ randMax) :
    0 < (randMax + 1) / (last - first + 1).toNat ∧ randWithin randMax draw first last =
      some (int32 ((draw / ((randMax + 1) / (last - first + 1).toNat) : Nat) + first)) := by
  have same : u32 last = last.toNat := by
    unfold u32
    omega
  have size : u32 (last - first + 1) = (last - first + 1).toNat := by
    unfold u32
    omega
  have some_part : 0 < (randMax + 1) / (last - first + 1).toNat :=
    Nat.div_pos (by omega) (by omega)
  refine ⟨some_part, ?_⟩
  unfold randWithin
  rw [if_neg (by omega), if_neg (by omega)]
  dsimp only [Option.bind_eq_bind]
  rw [size, quotient_pos (by omega), Option.bind_some]
  rw [quotient_pos some_part]
  rfl

theorem in_range_iff (int : randMax ≤ 2147483647) (drawn : draw ≤ randMax)
    (low : 0 ≤ first) (ordered : first ≤ last) (high : last ≤ randMax) :
    InRange randMax draw first last ↔ DrawCond randMax draw first last := by
  obtain ⟨some_part, value⟩ := rand_within_value int drawn low ordered high
  unfold InRange DrawCond
  rw [value, Nat.mul_comm, ← Nat.div_lt_iff_lt_mul some_part]
  generalize (randMax + 1) / (last - first + 1).toNat = part at some_part
  have most : draw / part ≤ draw := Nat.div_le_self draw part
  generalize draw / part = q at most
  have wrap : int32 (q + first) = q + first ∨ 2147483648 ≤ q + first ∧ int32 (q + first) < 0 := by
    by_cases fits : q + first < 2147483648
    · exact .inl (int32_small (by omega) fits)
    · right
      rw [int32_wrapped (by omega) (by omega)]
      omega
  constructor
  · rintro ⟨value, given, least, bound⟩
    obtain rfl := Option.some.inj given
    omega
  · intro below
    exact ⟨_, rfl, by omega, by omega⟩

theorem single_bit_inj (small : a < 32) (small' : b < 32) (same : 1#32 <<< a = 1#32 <<< b) :
    a = b := by
  have value : ∀ n < 32, (1#32 <<< n).toNat = 2 ^ n := by decide
  have powers := congrArg BitVec.toNat same
  rw [value a small, value b small'] at powers
  exact Nat.pow_right_injective (Nat.le_refl 2) powers

theorem seed_value {seed : BitVec 32}
    (given : bitChangeSeed randMax draw bitsize oversize = some seed) :
    0 < u64 (bitsize + oversize) ∧ 0 < (randMax + 1) / u64 (bitsize + oversize) ∧
      seed = if draw / ((randMax + 1) / u64 (bitsize + oversize)) < bitsize
        then 1#32 <<< (draw / ((randMax + 1) / u64 (bitsize + oversize))) else 0 := by
  obtain ⟨part, isPart, given⟩ := Option.bind_eq_some_iff.mp given
  obtain ⟨q, isQ, given⟩ := Option.bind_eq_some_iff.mp given
  obtain ⟨size, rfl⟩ := quotient_some isPart
  obtain ⟨pos, rfl⟩ := quotient_some isQ
  exact ⟨size, pos, (Option.some.inj given).symm⟩

theorem seed_pos (size : 0 < u64 (bitsize + oversize))
    (part : 0 < (randMax + 1) / u64 (bitsize + oversize)) :
    bitChangeSeed randMax draw bitsize oversize = some (if draw / ((randMax + 1) / u64 (bitsize + oversize)) < bitsize
        then 1#32 <<< (draw / ((randMax + 1) / u64 (bitsize + oversize))) else 0) := by
  unfold bitChangeSeed
  dsimp only [Option.bind_eq_bind]
  rw [quotient_pos size, Option.bind_some, quotient_pos part]
  rfl

theorem seed_right_iff (bits : bitsize ≤ 32) :
    SeedRight randMax bitsize oversize ↔ SizeCond randMax bitsize oversize := by
  unfold SizeCond
  dsimp only
  constructor
  · rintro ⟨every, reached⟩
    obtain ⟨seed, given, _⟩ := every 0 (Nat.zero_le randMax)
    obtain ⟨size, part, _⟩ := seed_value given
    have fits := (Nat.div_pos_iff.mp part).2
    refine ⟨size, fits, ?_⟩
    rcases Nat.eq_zero_or_pos bitsize with zero | some_bit
    · simp [zero]
    · obtain ⟨draw, drawn, given⟩ := reached (bitsize - 1) (by omega)
      obtain ⟨_, _, value⟩ := seed_value given
      split at value
      · rename_i below
        have same := single_bit_inj (by omega) (by omega) value
        exact Nat.le_trans (same ▸ Nat.div_mul_le_self draw _) drawn
      · -- the last bit's value is not zero
        have zero : ∀ n < 32, 1#32 <<< n ≠ 0 := by decide
        exact absurd value (zero _ (by omega))
  · rintro ⟨size, fits, last⟩
    have part := Nat.div_pos fits size
    refine ⟨fun draw drawn => ⟨_, seed_pos size part, ?_⟩, fun bit below => ?_⟩
    · split
      · rename_i below
        exact .inr ⟨_, below, rfl⟩
      · exact .inl rfl
    · have reach := Nat.mul_le_mul_right ((randMax + 1) / u64 (bitsize + oversize))
        (show bit ≤ bitsize - 1 by omega)
      refine ⟨_, Nat.le_trans reach last, ?_⟩
      rw [seed_pos size part, Nat.mul_div_cancel _ part, if_pos below]

/-- Just when a random number is in its range, and when the seeds are those of the bits. -/
theorem random_right_iff (int : randMax ≤ 2147483647) :
    (∀ (draw : Nat) (first last : Int), draw ≤ randMax → 0 ≤ first → first ≤ last →
      last ≤ randMax → (InRange randMax draw first last ↔ DrawCond randMax draw first last)) ∧
    ∀ bitsize oversize : Nat, bitsize ≤ 32 → 1 ≤ bitsize + oversize →
      (SeedRight randMax bitsize oversize ↔ SizeCond randMax bitsize oversize) :=
  ⟨fun _ _ _ drawn low ordered high => in_range_iff int drawn low ordered high,
    fun _ _ bits _ => seed_right_iff bits⟩

/-- The part of the second value starts with the draw 8454660. -/
theorem second_value_in_range : InRange 2147483647 8454660 1 254 :=
  ((random_right_iff (Nat.le_refl 2147483647)).1 8454660 1 254 (by decide) (by decide) (by decide)
    (by decide)).mpr (by unfold DrawCond; decide)

theorem largest_draw_outside : ¬ ∀ (randMax draw : Nat) (first last : Int), randMax ≤ 2147483647 →
    draw ≤ randMax → 0 ≤ first → first ≤ last → last ≤ randMax →
    InRange randMax draw first last := by
  intro all
  have inside := all 2147483647 2147483647 0 254 (by decide) (by decide) (by decide) (by decide)
    (by decide)
  rw [in_range_iff (by decide) (by decide) (by decide) (by decide) (by decide)] at inside
  unfold DrawCond at inside
  revert inside
  decide

end random
end VteNsCommon
