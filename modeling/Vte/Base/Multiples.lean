import Mathlib.Algebra.Order.Group.Unbundled.Int

/-!
The multiples of a positive number around another one: the least that is not below, the greatest
that is not above, and what C's remainder says of them. Arithmetic that is checked to stay inside an
`int` or a `long`.
-/
namespace Multiples

def up (x m : Int) : Int := x + (-x) % m

def down (x m : Int) : Int := x - x % m

section rounding
variable {x y m r : Int}

theorem up_dvd (x m : Int) : m ∣ up x m := by
  have cut : m ∣ (-x) - (-x) % m := Int.dvd_self_sub_emod
  have back : up x m = -((-x) - (-x) % m) := by
    rw [up]
    omega
  rw [back]
  exact Int.dvd_neg.mpr cut

theorem down_dvd (x m : Int) : m ∣ down x m := Int.dvd_self_sub_emod

theorem le_up (x : Int) (some_step : 0 < m) : x ≤ up x m := by
  have low := Int.emod_nonneg (-x) (show m ≠ 0 by omega)
  rw [up]
  omega

theorem down_le (x : Int) (some_step : 0 < m) : down x m ≤ x := by
  have low := Int.emod_nonneg x (show m ≠ 0 by omega)
  rw [down]
  omega

theorem up_lt (x : Int) (some_step : 0 < m) : up x m < x + m := by
  have high := Int.emod_lt_of_pos (-x) some_step
  rw [up]
  omega

theorem lt_down (x : Int) (some_step : 0 < m) : x - m < down x m := by
  have high := Int.emod_lt_of_pos x some_step
  rw [down]
  omega

theorem multiples_close (some_step : 0 < m) (left : m ∣ x) (right : m ∣ y) (near : y < x + m) :
    y ≤ x := by
  obtain ⟨a, rfl⟩ := left
  obtain ⟨b, rfl⟩ := right
  by_contra past
  have more : a + 1 ≤ b := by
    by_contra fewer
    have below := Int.mul_le_mul_of_nonneg_left (show b ≤ a by omega) (Int.le_of_lt some_step)
    omega
  have above := Int.mul_le_mul_of_nonneg_left more (Int.le_of_lt some_step)
  rw [Int.mul_add, Int.mul_one] at above
  omega

theorem up_le (some_step : 0 < m) (multiple : m ∣ r) (above : x ≤ r) : up x m ≤ r := by
  have near := up_lt x some_step
  exact multiples_close some_step multiple (up_dvd x m) (by omega)

theorem le_down (some_step : 0 < m) (multiple : m ∣ r) (below : r ≤ x) : r ≤ down x m := by
  have near := lt_down x some_step
  exact multiples_close some_step (down_dvd x m) multiple (by omega)

theorem up_self (multiple : m ∣ x) : up x m = x := by
  rw [up, Int.emod_eq_zero_of_dvd (Int.dvd_neg.mpr multiple), Int.add_zero]

theorem down_self (multiple : m ∣ x) : down x m = x := by
  rw [down, Int.emod_eq_zero_of_dvd multiple, Int.sub_zero]

theorem up_down (some_step : 0 < m) (apart : ¬ m ∣ x) : up x m = down x m + m := by
  have low := lt_down x some_step
  have high := down_le x some_step
  have next : up x m ≤ down x m + m :=
    up_le some_step (Int.dvd_add (down_dvd x m) (Int.dvd_refl m)) (by omega)
  have above := le_up x some_step
  have past : ¬ up x m < down x m + m := by
    intro near
    have same := multiples_close some_step (down_dvd x m) (up_dvd x m) near
    have whole : x = down x m := by omega
    rw [whole] at apart
    exact apart (down_dvd x m)
  omega

theorem tmod_zero_iff : x.tmod m = 0 ↔ m ∣ x :=
  ⟨Int.dvd_of_tmod_eq_zero, Int.tmod_eq_zero_of_dvd⟩

theorem tmod_down (positive : 0 ≤ x) : x - x.tmod m = down x m := by
  rw [down, Int.tmod_eq_emod_of_nonneg positive]

theorem tmod_up (negative : x < 0) : x - x.tmod m = up x m := by
  have turned := Int.tmod_eq_emod_of_nonneg (a := -x) (b := m) (by omega)
  rw [Int.neg_tmod] at turned
  rw [up, ← turned]
  omega

end rounding

section checked

def Fits32 (x : Int) : Prop := -2147483648 ≤ x ∧ x < 2147483648

def Fits64 (x : Int) : Prop := -9223372036854775808 ≤ x ∧ x < 9223372036854775808

instance (x : Int) : Decidable (Fits32 x) := inferInstanceAs (Decidable (_ ∧ _))

instance (x : Int) : Decidable (Fits64 x) := inferInstanceAs (Decidable (_ ∧ _))

/-- The result of a sum or product in an `int`; none when it overflows. -/
def checked32 (x : Int) : Option Int := if Fits32 x then some x else none

def checked64 (x : Int) : Option Int := if Fits64 x then some x else none

variable {x y : Int}

theorem checked32_iff : checked32 x = some y ↔ Fits32 x ∧ x = y := by
  rw [checked32]
  split
  · rename_i fits
    simp [fits]
  · rename_i fits
    simp [fits]

theorem checked64_iff : checked64 x = some y ↔ Fits64 x ∧ x = y := by
  rw [checked64]
  split
  · rename_i fits
    simp [fits]
  · rename_i fits
    simp [fits]

theorem checked32_fits (fits : Fits32 x) : checked32 x = some x := if_pos fits

theorem checked64_fits (fits : Fits64 x) : checked64 x = some x := if_pos fits

end checked
end Multiples
