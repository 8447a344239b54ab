import Mathlib.Algebra.Order.Floor.Ring
import Mathlib.Data.Int.Log
import Mathlib.Tactic.Linarith
import Mathlib.Tactic.Ring

/-!
Numbers with a bounded count of significant bits, with any exponent, and the rounding of a number to
the nearest of them, to the even one when there are two.
-/
namespace SigBits

section powers
variable {K : Type*} [Field K] {p : ℕ} {x : K}

def HasBits (p : ℕ) (x : K) : Prop := ∃ m e : ℤ, |m| < 2 ^ p ∧ x = m * 2 ^ e

theorem has_bits_zpow (some_bit : 1 ≤ p) (e : ℤ) : HasBits p ((2 : K) ^ e) := by
  refine ⟨1, e, ?_, by simp⟩
  rw [abs_one]
  exact one_lt_pow₀ (by norm_num) (by omega)

variable [CharZero K]

theorem zpow_split (p : ℕ) (e : ℤ) : (2 : K) ^ p * 2 ^ e = 2 ^ (e + p) := by
  rw [zpow_add₀ (by norm_num), zpow_natCast, mul_comm]

theorem has_bits_mul (bits : HasBits p x) (k : ℕ) : HasBits p (x * 2 ^ k) := by
  obtain ⟨m, e, small, rfl⟩ := bits
  refine ⟨m, e + k, small, ?_⟩
  rw [← zpow_split]
  ring

end powers

section rounding
variable {K : Type*} [Field K] [LinearOrder K] [IsStrictOrderedRing K] [FloorRing K] {p : ℕ} {x : K}

def roundEven (x : K) : ℤ :=
  if Int.fract x < 1 / 2 then ⌊x⌋
  else if 1 / 2 < Int.fract x then ⌊x⌋ + 1
  else if ⌊x⌋ % 2 = 0 then ⌊x⌋
  else ⌊x⌋ + 1

/-- The exponent of the last of the `p` bits. -/
def lastBit (p : ℕ) (x : K) : ℤ := Int.log 2 |x| + 1 - p

def roundBits (p : ℕ) (x : K) : K := roundEven (x / 2 ^ lastBit p x) * 2 ^ lastBit p x

theorem round_even_int (z : ℤ) : roundEven (z : K) = z := by
  unfold roundEven
  rw [Int.fract_intCast, Int.floor_intCast, if_pos (by positivity)]

theorem round_even_floor (x : K) : ⌊x⌋ ≤ roundEven x ∧ (roundEven x = ⌊x⌋ ∨
    roundEven x = ⌊x⌋ + 1 ∧ Int.fract x ≠ 0) := by
  have half : (0 : K) < 1 / 2 := by positivity
  unfold roundEven
  split_ifs with low high even
  · exact ⟨le_refl _, .inl rfl⟩
  · exact ⟨by omega, .inr ⟨rfl, fun none => low (none ▸ half)⟩⟩
  · exact ⟨le_refl _, .inl rfl⟩
  · exact ⟨by omega, .inr ⟨rfl, fun none => low (none ▸ half)⟩⟩

theorem round_even_abs_le {n : ℤ} (below : |x| ≤ n) : |roundEven x| ≤ n := by
  obtain ⟨low, high⟩ := abs_le.mp below
  have least : -n ≤ ⌊x⌋ := Int.le_floor.mpr (by push_cast; exact low)
  have most : ⌊x⌋ ≤ n := Int.cast_le.mp ((Int.floor_le x).trans high)
  obtain ⟨above, same | ⟨next, part⟩⟩ := round_even_floor x
  · rw [same, abs_le]
    exact ⟨least, most⟩
  · have inside : ⌊x⌋ < n := by
      rcases lt_or_eq_of_le most with less | whole
      · exact less
      · exfalso
        have upper : (⌊x⌋ : K) ≤ x := Int.floor_le x
        rw [whole] at upper
        have here : x = n := le_antisymm high upper
        exact part (by rw [here, Int.fract_intCast])
    rw [next, abs_le]
    omega

omit [FloorRing K] in
theorem two_zpow_pos (e : ℤ) : (0 : K) < 2 ^ e := zpow_pos (by norm_num) e

theorem scaled_lt (p : ℕ) (x : K) : |x / 2 ^ lastBit p x| < 2 ^ p := by
  have unit := two_zpow_pos (K := K) (lastBit p x)
  rw [abs_div, abs_of_pos unit, div_lt_iff₀ unit, zpow_split]
  have bound := Int.lt_zpow_succ_log_self (b := 2) (by norm_num) |x|
  rw [lastBit, sub_add_cancel]
  exact_mod_cast bound

/-- What is rounded has its bits; a carry out of the first one leaves a power of two. -/
theorem round_bits_has (some_bit : 1 ≤ p) (x : K) : HasBits p (roundBits p x) := by
  have scaled : |x / 2 ^ lastBit p x| ≤ ((2 ^ p : ℤ) : K) := by
    push_cast
    exact le_of_lt (scaled_lt p x)
  have most := round_even_abs_le scaled
  unfold roundBits
  generalize roundEven (x / 2 ^ lastBit p x) = m at most
  generalize lastBit p x = e
  rcases lt_or_eq_of_le most with small | carry
  · exact ⟨m, e, small, rfl⟩
  · have one : |(1 : ℤ)| < 2 ^ p := by
      rw [abs_one]
      exact one_lt_pow₀ (by norm_num) (by omega)
    rcases abs_eq (by positivity) |>.mp carry with up | down
    · refine ⟨1, e + p, one, ?_⟩
      rw [up, ← zpow_split]
      push_cast
      ring
    · refine ⟨-1, e + p, by rw [abs_neg]; exact one, ?_⟩
      rw [down, ← zpow_split]
      push_cast
      ring

theorem round_bits_same (bits : HasBits p x) : roundBits p x = x := by
  obtain ⟨m, e, small, here⟩ := bits
  by_cases zero : x = 0
  · rw [zero, roundBits, zero_div]
    have none := round_even_int (K := K) 0
    rw [Int.cast_zero] at none
    rw [none, Int.cast_zero, zero_mul]
  · -- the last bit of the number does not lie below the one that is kept
    have fits : lastBit p x ≤ e := by
      have lower := Int.zpow_log_le_self (b := 2) (by norm_num) (abs_pos.mpr zero)
      have upper : |x| < 2 ^ (e + p) := by
        have unit := two_zpow_pos (K := K) e
        rw [here, abs_mul, abs_of_pos unit, ← zpow_split]
        apply mul_lt_mul_of_pos_right _ unit
        exact_mod_cast small
      have order : ((2 : ℕ) : K) ^ Int.log 2 |x| < ((2 : ℕ) : K) ^ (e + p) := by
        refine lt_of_le_of_lt lower ?_
        exact_mod_cast upper
      have exponents := (zpow_lt_zpow_iff_right₀ (by norm_num)).mp order
      unfold lastBit
      omega
    obtain ⟨k, gap⟩ := Int.eq_ofNat_of_zero_le (sub_nonneg.mpr fits)
    have whole : x / 2 ^ lastBit p x = ((m * 2 ^ k : ℤ) : K) := by
      rw [div_eq_iff (ne_of_gt (two_zpow_pos _)), here]
      have sum : e = lastBit p x + k := by omega
      rw [← here]
      conv_lhs => rw [here, sum, zpow_add₀ (by norm_num), zpow_natCast]
      push_cast
      ring
    unfold roundBits
    rw [whole, round_even_int, ← whole, div_mul_cancel₀ _ (ne_of_gt (two_zpow_pos _))]

end rounding
end SigBits
