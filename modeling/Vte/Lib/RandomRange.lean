import Mathlib.Algebra.Order.Group.Unbundled.Int

/-!
lib/random_range.c: a random multiple of `mult` between two bounds, from one draw of `lrand48`.
-/
namespace VteRandomRange

/-- `random_range`, or none with the error message set. -/
def randomRange (min max mult : Int) (draw : Nat) : Option Int :=
  if mult < 1 then none
  else
    let lo := if max < min then max else min
    let hi := if max < min then min else max
    let first := if lo.tmod mult ≠ 0 then lo + (mult - lo.tmod mult) else lo
    let last := if hi.tmod mult ≠ 0 then hi - hi.tmod mult else hi
    if last < first then none
    else some (first + (draw : Int).tmod ((last - first).tdiv mult + 1) * mult)

theorem draw_in_range {lo hi : Int} (ordered : lo ≤ hi) (draw : Nat) :
    0 ≤ (draw : Int).tmod (hi - lo + 1) ∧ (draw : Int).tmod (hi - lo + 1) ≤ hi - lo := by
  have low := Int.tmod_nonneg (hi - lo + 1) (Int.natCast_nonneg draw)
  have high := Int.tmod_lt_of_pos (draw : Int) (show 0 < hi - lo + 1 by omega)
  omega

theorem random_range_one {min max : Int} (ordered : min ≤ max) (draw : Nat) :
    randomRange min max 1 draw = some (min + (draw : Int).tmod (max - min + 1)) := by
  rw [randomRange, if_neg (by omega)]
  simp only [Int.tmod_one, ne_eq, not_true_eq_false, if_false, if_neg (Int.not_lt.mpr ordered),
    Int.tdiv_one, Int.mul_one]

theorem random_range_bounds {min max : Int} (ordered : min ≤ max) (draw : Nat) :
    ∃ r, randomRange min max 1 draw = some r ∧ min ≤ r ∧ r ≤ max := by
  obtain ⟨low, high⟩ := draw_in_range ordered draw
  exact ⟨_, random_range_one ordered draw, by omega, by omega⟩

theorem random_range_hits {min max r : Int} (low : min ≤ r) (high : r ≤ max) :
    randomRange min max 1 (r - min).toNat = some r := by
  rw [random_range_one (by omega), Int.toNat_of_nonneg (by omega), Int.tmod_eq_of_lt (by omega) (by omega)]
  congr 1
  omega

end VteRandomRange
