import Mathlib.Algebra.Order.Group.Unbundled.Int

/-!
Arithmetic on a C `int` of 32 bits: a result that does not fit wraps around. A number of 64 bits that
meets an unsigned one is taken modulo 2^64.
-/
namespace CInt

def int32 (x : Int) : Int := x.bmod 4294967296

theorem int32_small {x : Int} (low : -2147483648 ≤ x) (high : x < 2147483648) : int32 x = x :=
  Int.bmod_eq_of_le (by omega) (by omega)

theorem int32_lt (x : Int) : int32 x < 2147483648 := by
  rw [int32, Int.bmod_def]
  omega

theorem int32_wrapped {x : Int} (large : 2147483648 ≤ x) (sum : x < 4294967296) :
    int32 x = x - 4294967296 := by
  rw [int32, Int.bmod_def]
  omega

def u64 (x : Int) : Nat := (x % 18446744073709551616).toNat

def s64 (x : Int) : Int := x.bmod 18446744073709551616

theorem u64_small {x : Int} (low : 0 ≤ x) (high : x < 18446744073709551616) : (u64 x : Int) = x := by
  rw [u64, Int.emod_eq_of_lt low high, Int.toNat_of_nonneg low]

theorem u64_negative {x : Int} (low : -9223372036854775808 ≤ x) (high : x < 0) :
    (u64 x : Int) = x + 18446744073709551616 := by
  rw [u64, ← Int.add_emod_right, Int.emod_eq_of_lt (by omega) (by omega), Int.toNat_of_nonneg (by omega)]

theorem s64_small {x : Int} (low : -9223372036854775808 ≤ x) (high : x < 9223372036854775808) :
    s64 x = x :=
  Int.bmod_eq_of_le (by omega) (by omega)

/-- A signed result of `width` bits; one that does not fit is not defined. -/
def signed (width : Nat) (x : Int) : Option Int :=
  if -2 ^ (width - 1) ≤ x ∧ x < 2 ^ (width - 1) then some x else none

theorem signed_fits {width : Nat} {x : Int} (low : -2 ^ (width - 1) ≤ x)
    (high : x < 2 ^ (width - 1)) : signed width x = some x :=
  if_pos ⟨low, high⟩

theorem signed_overflow {width : Nat} {x : Int} (high : 2 ^ (width - 1) ≤ x) :
    signed width x = none :=
  if_neg fun fits => absurd fits.2 (by omega)

theorem signed_some {width : Nat} {x y : Int} (fits : signed width x = some y) :
    y = x ∧ -2 ^ (width - 1) ≤ x ∧ x < 2 ^ (width - 1) := by
  unfold signed at fits
  split at fits
  · rename_i bounds
    exact ⟨(Option.some.inj fits).symm, bounds⟩
  · cases fits

end CInt
