import Mathlib.Algebra.Order.Field.Rat
import Mathlib.Data.Rat.Cast.Defs
import Mathlib.Tactic.Linarith
import Mathlib.Tactic.Ring
import Vte.Base.Multiples

/-!
mxc_asrc_test.c: the size of the output for a size of the input and two sample rates, found without a
division. A result is none when an `int` overflows or a loop has not ended.
-/
namespace Asrc
open Multiples

def shl (x : Int) (n : Nat) : Option Int := if 0 ≤ x then checked32 (x * 2 ^ n) else none

def shr (x : Int) (n : Nat) : Option Int := if n < 32 then some (x / 2 ^ n) else none

/-- How often the input rate goes into `outsample`, counted on from `i`, and what is left of it. -/
def wholeLoop (inputRate : Int) : Nat → Int → Int → Option (Int × Int)
  | 0, _, _ => none
  | fuel + 1, i, outsample =>
    if outsample ≥ inputRate then do
      let i ← checked32 (i + 1)
      let outsample ← checked32 (outsample - inputRate)
      wholeLoop inputRate fuel i outsample
    else some (i, outsample)

def bitLoop (size inputRate : Int) : Nat → Nat → Int → Int → Option Int
  | 0, _, _, _ => none
  | fuel + 1, i, outsample, outbufferSize => do
    let part ← shr size i
    if part > 2 ∧ outsample ≠ 0 then do
      let twice ← shl outsample 1
      let rest ← checked32 (twice - inputRate)
      if rest ≥ 0 then do
        let outbufferSize ← checked32 (outbufferSize + part)
        bitLoop size inputRate fuel (i + 1) rest outbufferSize
      else bitLoop size inputRate fuel (i + 1) twice outbufferSize
    else some outbufferSize

def getOutputBufferSize (fuel : Nat) (size inputRate outputRate : Int) : Option Int := do
  let (i, outsample) ← wholeLoop inputRate fuel 0 outputRate
  let outbufferSize ← checked32 (i * size)
  let outbufferSize ← bitLoop size inputRate fuel 1 outsample outbufferSize
  let eighths ← shr outbufferSize 3
  shl eighths 3

section whole
variable {inputRate : Int}

theorem whole_loop_divides (positive : 0 < inputRate) {fuel : Nat} {i outsample : Int} (counted : 0 ≤ i)
    (left : 0 ≤ outsample) (fits : i + outsample < 2147483648) (enough : outsample < fuel) :
    ∃ q rest, wholeLoop inputRate fuel i outsample = some (i + q, rest) ∧ 0 ≤ q ∧
      outsample = q * inputRate + rest ∧ 0 ≤ rest ∧ rest < inputRate := by
  induction fuel generalizing i outsample with
  | zero => omega
  | succ fuel ih =>
    rw [wholeLoop]
    by_cases more : outsample ≥ inputRate
    · obtain ⟨q, rest, looped, some_times, parts, bounds⟩ :=
        @ih (i + 1) (outsample - inputRate) (by omega) (by omega) (by omega) (by omega)
      refine ⟨q + 1, rest, ?_, by omega, ?_, bounds⟩
      · rw [if_pos more, checked32_fits ⟨by omega, by omega⟩, checked32_fits ⟨by omega, by omega⟩]
        simp only [Option.bind_eq_bind, Option.bind_some, looped]
        rw [Int.add_right_comm, Int.add_assoc]
      · rw [Int.add_mul, Int.one_mul]
        omega
    · exact ⟨0, outsample, by rw [if_neg more, Int.add_zero], Int.le_refl 0, by omega, left, by omega⟩

end whole

section bits
variable {size inputRate outputRate : Int} {i : Nat} {outsample acc : Int}

/-- At the head of the loop: what `acc` lacks of the exact size is the part of the input size that the rest
    of the rate stands for, and the cuts `t` of the parts added so far, each below 1. -/
structure Balance (size inputRate outputRate : Int) (i : Nat) (outsample acc t : Int) : Prop where
  rest : 0 ≤ outsample ∧ outsample < inputRate
  exact : 2 ^ i * (size * outputRate - acc * inputRate) = 2 * size * outsample + inputRate * t
  cuts : 0 ≤ t ∧ t ≤ (i - 1) * 2 ^ i

theorem balance_skip {t : Int} (balance : Balance size inputRate outputRate i outsample acc t)
    (small : outsample * 2 - inputRate < 0) :
    Balance size inputRate outputRate (i + 1) (outsample * 2) acc (2 * t) := by
  obtain ⟨rest, exact, cuts⟩ := balance
  have room : (0 : Int) < 2 ^ i := Int.pow_pos (by decide)
  refine ⟨⟨by omega, by omega⟩, ?_, by omega, ?_⟩
  · rw [Int.pow_succ, Int.mul_right_comm, exact]
    ring
  · rw [Int.pow_succ, Int.natCast_add]
    have step : ((i : Int) + 1 - 1) * (2 ^ i * 2) = 2 * ((i - 1) * 2 ^ i) + 2 * 2 ^ i := by ring
    have same : ((1 : Nat) : Int) = 1 := rfl
    rw [same, step]
    omega

theorem balance_take {t : Int} (balance : Balance size inputRate outputRate i outsample acc t)
    (large : 0 ≤ outsample * 2 - inputRate) :
    Balance size inputRate outputRate (i + 1) (outsample * 2 - inputRate) (acc + size / 2 ^ i)
      (2 * t + 2 * (size % 2 ^ i)) := by
  obtain ⟨rest, exact, cuts⟩ := balance
  have room : (0 : Int) < 2 ^ i := Int.pow_pos (by decide)
  have cut_low := Int.emod_nonneg size (Int.ne_of_gt room)
  have cut_high := Int.emod_lt_of_pos size room
  have whole := Int.mul_ediv_add_emod size (2 ^ i)
  refine ⟨⟨by omega, by omega⟩, ?_, by omega, ?_⟩
  · calc 2 ^ (i + 1) * (size * outputRate - (acc + size / 2 ^ i) * inputRate)
        = 2 * (2 ^ i * (size * outputRate - acc * inputRate)) - 2 * inputRate * (2 ^ i * (size / 2 ^ i)) := by ring
      _ = 2 * (2 * size * outsample + inputRate * t) - 2 * inputRate * (size - size % 2 ^ i) := by
          rw [exact, show 2 ^ i * (size / 2 ^ i) = size - size % 2 ^ i by omega]
      _ = _ := by ring
  · rw [Int.pow_succ, Int.natCast_add]
    have step : ((i : Int) + 1 - 1) * (2 ^ i * 2) = 2 * ((i - 1) * 2 ^ i) + 2 * 2 ^ i := by ring
    have same : ((1 : Nat) : Int) = 1 := rfl
    rw [same, step]
    omega

theorem balance_below {t : Int} (balance : Balance size inputRate outputRate i outsample acc t)
    (some_size : 0 ≤ size) : acc * inputRate ≤ size * outputRate := by
  obtain ⟨rest, exact, cuts⟩ := balance
  have room : (0 : Int) < 2 ^ i := Int.pow_pos (by decide)
  have low : 0 ≤ 2 * size * outsample + inputRate * t :=
    Int.add_nonneg (Int.mul_nonneg (by omega) rest.1) (Int.mul_nonneg (by omega) cuts.1)
  rw [← exact] at low
  have lack := Int.nonneg_of_mul_nonneg_right low room
  omega

theorem balance_ended {t : Int} (balance : Balance size inputRate outputRate i outsample acc t)
    (few : i ≤ 30) (ended : size / 2 ^ i ≤ 2 ∨ outsample = 0) :
    size * outputRate - acc * inputRate < 36 * inputRate := by
  obtain ⟨rest, exact, cuts⟩ := balance
  have room : (0 : Int) < 2 ^ i := Int.pow_pos (by decide)
  have positive : 0 < inputRate := by omega
  have tail : 2 * size * outsample ≤ 6 * 2 ^ i * inputRate := by
    rcases ended with short | nothing
    · have low : size < 3 * 2 ^ i := by
        have bound := Int.lt_ediv_add_one_mul_self size room
        have most : (size / 2 ^ i + 1) * 2 ^ i ≤ 3 * 2 ^ i := Int.mul_le_mul_of_nonneg_right (by omega) (by omega)
        omega
      exact Int.mul_le_mul (by omega) (by omega) rest.1 (by omega)
    · rw [nothing, Int.mul_zero]
      exact Int.mul_nonneg (by omega) (by omega)
  have most : t ≤ 29 * 2 ^ i :=
    cuts.2.trans (Int.mul_le_mul_of_nonneg_right (by omega) (by omega))
  have cut : inputRate * t ≤ inputRate * (29 * 2 ^ i) := Int.mul_le_mul_of_nonneg_left most (by omega)
  have some_rate : 0 < 2 ^ i * inputRate := Int.mul_pos room positive
  refine Int.lt_of_mul_lt_mul_left ?_ (Int.le_of_lt room)
  rw [exact]
  calc 2 * size * outsample + inputRate * t ≤ 6 * 2 ^ i * inputRate + inputRate * (29 * 2 ^ i) := by omega
    _ = 35 * (2 ^ i * inputRate) := by ring
    _ < 36 * (2 ^ i * inputRate) := by omega
    _ = 2 ^ i * (36 * inputRate) := by ring

theorem shift_small (fits : size < 2147483648) (some_part : size / 2 ^ i > 2) : i < 30 := by
  by_contra large
  have power : (2 : Int) ^ 30 ≤ 2 ^ i := pow_le_pow_right₀ (by decide) (by omega)
  have room : (0 : Int) < 2 ^ i := Int.pow_pos (by decide)
  have bound := Int.mul_le_of_le_ediv room (show 3 ≤ size / 2 ^ i by omega)
  omega

theorem bit_loop_close {t : Int} (some_size : 0 ≤ size) (fits : size < 2147483648)
    (rate : inputRate < 1073741824) (total : size * outputRate < 2147483648 * inputRate) {fuel : Nat}
    (balance : Balance size inputRate outputRate i outsample acc t) (few : i ≤ 30) (some_acc : 0 ≤ acc)
    (enough : 31 ≤ fuel + i) :
    ∃ r, bitLoop size inputRate fuel i outsample acc = some r ∧ 0 ≤ r ∧
      r * inputRate ≤ size * outputRate ∧ size * outputRate - r * inputRate < 36 * inputRate := by
  induction fuel generalizing i outsample acc t with
  | zero => omega
  | succ fuel ih =>
    have rest := balance.rest
    have positive : 0 < inputRate := by omega
    rw [bitLoop, shr, if_pos (show i < 32 by omega)]
    simp only [Option.bind_eq_bind, Option.bind_some]
    by_cases goes : size / 2 ^ i > 2 ∧ outsample ≠ 0
    · have next := shift_small fits goes.1
      rw [if_pos goes, shl, if_pos rest.1, Int.pow_one, checked32_fits ⟨by omega, by omega⟩]
      simp only [Option.bind_some]
      rw [checked32_fits ⟨by omega, by omega⟩]
      simp only [Option.bind_some]
      by_cases large : outsample * 2 - inputRate ≥ 0
      · have taken := balance_take balance large
        have below := balance_below taken some_size
        have some_part : 0 ≤ size / 2 ^ i := by omega
        have fits' : acc + size / 2 ^ i < 2147483648 :=
          Int.lt_of_mul_lt_mul_right (Int.lt_of_le_of_lt below total) (by omega)
        rw [if_pos large, checked32_fits ⟨by omega, fits'⟩]
        simp only [Option.bind_some]
        exact ih taken (by omega) (by omega) (by omega)
      · rw [if_neg large]
        exact ih (balance_skip balance (by omega)) (by omega) some_acc (by omega)
    · rw [if_neg goes]
      refine ⟨acc, rfl, some_acc, balance_below balance some_size, ?_⟩
      exact balance_ended balance few (by omega)

end bits

theorem balance_start {size inputRate outputRate q rest : Int} (parts : outputRate = q * inputRate + rest)
    (bounds : 0 ≤ rest ∧ rest < inputRate) :
    Balance size inputRate outputRate 1 rest (q * size) 0 := by
  refine ⟨bounds, ?_, by simp⟩
  rw [parts]
  ring

theorem output_buffer_size_near {size inputRate outputRate : Int} (some_size : 0 ≤ size)
    (fits : size < 2147483648) (input : 0 < inputRate ∧ inputRate < 1073741824)
    (output : 0 < outputRate ∧ outputRate < 1073741824)
    (total : size * outputRate < 2147483648 * inputRate) {fuel : Nat} (enough : outputRate + 30 < fuel) :
    ∃ r, getOutputBufferSize fuel size inputRate outputRate = some r ∧ 8 ∣ r ∧
      r * inputRate ≤ size * outputRate ∧ size * outputRate - r * inputRate < 43 * inputRate := by
  obtain ⟨q, rest, divided, some_times, parts, bounds⟩ := whole_loop_divides input.1 (Int.le_refl 0)
    (Int.le_of_lt output.1) (show 0 + outputRate < 2147483648 by omega) (show outputRate < fuel by omega)
  have start : Balance size inputRate outputRate 1 rest (q * size) 0 := balance_start parts bounds
  have some_whole : 0 ≤ q * size := Int.mul_nonneg some_times some_size
  have whole_fits : q * size < 2147483648 :=
    Int.lt_of_mul_lt_mul_right (Int.lt_of_le_of_lt (balance_below start some_size) total) (by omega)
  obtain ⟨r, looped, some_result, below, close⟩ :=
    bit_loop_close some_size fits input.2 total start (by decide) some_whole (show 31 ≤ fuel + 1 by omega)
  have r_fits : r < 2147483648 := Int.lt_of_mul_lt_mul_right (Int.lt_of_le_of_lt below total) (by omega)
  refine ⟨r / 8 * 8, ?_, Int.dvd_mul_left _ _, ?_, ?_⟩
  · rw [getOutputBufferSize, divided]
    simp only [Option.bind_eq_bind, Option.bind_some, Int.zero_add]
    rw [checked32_fits ⟨by omega, whole_fits⟩]
    simp only [Option.bind_some, looped]
    rw [shr, if_pos (by decide)]
    simp only [Option.bind_some]
    rw [shl, if_pos (by omega), checked32_fits ⟨by omega, by omega⟩]
    rfl
  · have down : r / 8 * 8 * inputRate ≤ r * inputRate :=
      Int.mul_le_mul_of_nonneg_right (by omega) (by omega)
    omega
  · have up : r * inputRate ≤ (r / 8 * 8 + 7) * inputRate :=
      Int.mul_le_mul_of_nonneg_right (by omega) (by omega)
    rw [Int.add_mul] at up
    omega

/-- The result is a multiple of 8 below the exact size by less than 48. -/
theorem output_buffer_size_close {size inputRate outputRate : Int} (some_size : 0 ≤ size)
    (fits : size < 2147483648) (input : 0 < inputRate ∧ inputRate < 1073741824)
    (output : 0 < outputRate ∧ outputRate < 1073741824)
    (total : (size * outputRate / inputRate : ℚ) < 2147483648) {fuel : Nat}
    (enough : outputRate + 30 < fuel) :
    ∃ r, getOutputBufferSize fuel size inputRate outputRate = some r ∧ 8 ∣ r ∧
      (r : ℚ) ≤ size * outputRate / inputRate ∧ (size * outputRate / inputRate - r : ℚ) < 48 := by
  have positive : (0 : ℚ) < inputRate := by exact_mod_cast input.1
  rw [div_lt_iff₀ positive] at total
  obtain ⟨r, found, eighth, below, close⟩ :=
    output_buffer_size_near some_size fits input output (by exact_mod_cast total) enough
  refine ⟨r, found, eighth, ?_, ?_⟩
  · rw [le_div_iff₀ positive]
    exact_mod_cast below
  · rw [sub_lt_iff_lt_add, div_lt_iff₀ positive]
    have whole : size * outputRate < (48 + r) * inputRate := by
      rw [Int.add_mul]
      omega
    exact_mod_cast whole

theorem cd_to_dat_close :
    ∃ r, getOutputBufferSize 48100 4096 44100 48000 = some r ∧ 8 ∣ r ∧
      (r : ℚ) ≤ (4096 : Int) * (48000 : Int) / (44100 : Int) ∧
      ((4096 : Int) * (48000 : Int) / (44100 : Int) - r : ℚ) < 48 :=
  output_buffer_size_close (by decide) (by decide) (by decide) (by decide) (by norm_num) (by decide)

end Asrc
