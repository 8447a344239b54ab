import Vte.Lib.RandomRangeSound

/-!
lib/random_range.c: `random_rangell` and the `divider` that chooses a number in a range wider than
31 bits. `draw` is the result of the one `lrand48` call a run makes.
-/
namespace VteRandomRange
open Multiples

/-- `rand & (1 << cnt)`; the shift is one of an `int`. -/
def drawnBit (rand : Int) (cnt : Nat) : Bool :=
  BitVec.ofInt 64 rand &&& (1#32 <<< cnt).signExtend 64 ≠ 0

def divider (draw : Nat) (min max : Int) (cnt : Nat) (rand : Int) : Option Int :=
  if 32 < cnt then some (-1)
  else do
    let rand := if cnt = 0 ∨ rand < -1 then (draw : Int) else rand
    let diff ← checked64 (max - min)
    if diff ≤ 2147483647 then checked64 (min + rand)
    else do
      let half := diff.tdiv 2
      let med ← checked64 (min + half)
      if half ≤ 2147483647 then
        if drawnBit rand cnt then checked64 (med + rand) else checked64 (min + rand)
      else if drawnBit rand cnt then divider draw med max (cnt + 1) rand
      else divider draw min med (cnt + 1) rand
termination_by 33 - cnt

/-- The number `random_rangell` scales into its range. -/
def source (first last : Int) (draw : Nat) : Option Int :=
  if last ≤ 2147483647 then some draw else divider draw first last 0 (-1)

def pickll (first last mult : Int) (draw : Nat) : Option Int := do
  let width ← checked64 (last - first)
  let nmults ← checked64 (width.tdiv mult + 1)
  let randnum ← source first last draw
  if nmults = 0 then none
  else
    let shift ← checked64 (randnum.tmod nmults * mult)
    checked64 (first + shift)

/-- `random_rangell`: none when an operation overflows or divides by zero, `some none` with the
    error message set. -/
def randomRangell (min max mult : Int) (draw : Nat) : Option (Option Int) :=
  if mult < 1 then some none
  else do
    let first ← bump checked64 (lower min max) mult
    let last ← reduce checked64 (upper min max) mult
    if last < first then some none
    else do
      let value ← pickll first last mult draw
      some (some value)

def Position (x : Int) : Prop := 0 ≤ x ∧ x ≤ 4611686018427387904

section halving
variable {draw : Nat}

theorem divider_nonneg {min max rand : Int} {cnt : Nat} (small : draw < 2147483648)
    (depth : cnt ≤ 31) (low : 0 ≤ min) (ordered : min ≤ max) (high : Position max)
    (narrow : max - min ≤ 2 ^ (62 - cnt)) (drawn : cnt = 0 ∨ rand = draw) :
    ∃ r, divider draw min max cnt rand = some r ∧ 0 ≤ r := by
  obtain ⟨-, top⟩ := high
  have chosen : (if cnt = 0 ∨ rand < -1 then (draw : Int) else rand) = draw := by
    split
    · rfl
    · rename_i kept
      rcases drawn with zero | same
      · exact absurd (.inl zero) kept
      · exact same
  have place : ∀ x : Int, 0 ≤ x → x ≤ 4611686018427387904 → checked64 (x + draw) = some (x + draw) :=
    fun x least most => checked64_fits ⟨by omega, by omega⟩
  unfold divider
  rw [if_neg (by omega), chosen, checked64_fits (show Fits64 (max - min) from ⟨by omega, by omega⟩)]
  simp only [Option.bind_eq_bind, Option.bind_some]
  by_cases near : max - min ≤ 2147483647
  · rw [if_pos near, place min low (by omega)]
    exact ⟨_, rfl, by omega⟩
  · have middle : (max - min).tdiv 2 = (max - min) / 2 := Int.tdiv_eq_ediv_of_nonneg (by omega)
    rw [if_neg near, middle, checked64_fits (show Fits64 (min + (max - min) / 2) from
      ⟨by omega, by omega⟩)]
    simp only [Option.bind_some]
    by_cases close : (max - min) / 2 ≤ 2147483647
    · rw [if_pos close]
      split
      · rw [place _ (by omega) (by omega)]
        exact ⟨_, rfl, by omega⟩
      · rw [place min low (by omega)]
        exact ⟨_, rfl, by omega⟩
    · rw [if_neg close]
      have deeper : cnt + 1 ≤ 31 := by
        by_contra past
        obtain rfl : cnt = 31 := by omega
        simp only [Nat.reduceSub, Int.reducePow] at narrow
        omega
      have halved : (2 : Int) ^ (62 - cnt) = 2 * 2 ^ (62 - (cnt + 1)) := by
        rw [show 62 - cnt = 62 - (cnt + 1) + 1 by omega, Int.pow_succ]
        omega
      split
      · exact divider_nonneg small deeper (by omega) (by omega) ⟨by omega, top⟩ (by omega)
          (.inr rfl)
      · exact divider_nonneg small deeper low (by omega) ⟨by omega, by omega⟩ (by omega)
          (.inr rfl)
termination_by 32 - cnt

end halving

section positions
variable {lo hi mult : Int}

theorem bump_position (some_step : 0 < mult) (low : 0 ≤ lo)
    (high : up lo mult ≤ 4611686018427387904) :
    bump checked64 lo mult = some (up lo mult) := by
  unfold bump
  by_cases multiple : mult ∣ lo
  · rw [tmod_zero_iff.mpr multiple, up_self multiple]
    simp
  · have left : lo.tmod mult ≠ 0 := fun zero => multiple (tmod_zero_iff.mp zero)
    have cut := tmod_down (m := mult) low
    have next := up_down some_step multiple
    have below := down_nonneg some_step low
    have under := down_le lo some_step
    have above := lt_down lo some_step
    rw [if_pos left, checked64_fits (show Fits64 (mult - lo.tmod mult) from ⟨by omega, by omega⟩)]
    simp only [Option.bind_eq_bind, Option.bind_some]
    rw [checked64_fits ⟨by omega, by omega⟩]
    congr 1
    omega

theorem reduce_position (some_step : 0 < mult) (position : Position hi) :
    reduce checked64 hi mult = some (down hi mult) := by
  obtain ⟨low, high⟩ := position
  have below := down_nonneg some_step low
  have under := down_le hi some_step
  have cut := tmod_down (m := mult) low
  unfold reduce
  by_cases left : hi.tmod mult ≠ 0
  · rw [if_pos left, cut]
    exact checked64_fits ⟨by omega, by omega⟩
  · rw [if_neg left, ← cut]
    congr 1
    omega

theorem source_nonneg {first last : Int} {draw : Nat} (small : draw < 2147483648)
    (low : 0 ≤ first) (ordered : first ≤ last) (high : Position last) :
    ∃ r, source first last draw = some r ∧ 0 ≤ r := by
  unfold source
  split
  · exact ⟨_, rfl, by omega⟩
  · have top := high.2
    exact divider_nonneg small (by omega) low ordered high (by
      simp only [Nat.sub_zero, Int.reducePow]
      omega) (.inl rfl)

theorem pickll_between {first last : Int} {draw : Nat} (some_step : 0 < mult)
    (small : draw < 2147483648) (low : 0 ≤ first) (ordered : first ≤ last) (high : Position last) :
    ∃ value k, pickll first last mult draw = some value ∧ value = first + k * mult ∧ first ≤ value ∧ value ≤ last := by
  obtain ⟨-, top⟩ := high
  obtain ⟨randnum, drawn, positive⟩ := source_nonneg small low ordered ⟨by omega, top⟩
  have width : (last - first).tdiv mult = (last - first) / mult :=
    Int.tdiv_eq_ediv_of_nonneg (by omega)
  have least : 0 ≤ (last - first) / mult := Int.ediv_nonneg (by omega) (by omega)
  have most : (last - first) / mult ≤ last - first := Int.ediv_le_self _ (by omega)
  have whole : (last - first) / mult * mult ≤ last - first := Int.ediv_mul_le _ (by omega)
  have index := Int.tmod_lt_of_pos randnum (show 0 < (last - first) / mult + 1 by omega)
  have start := Int.tmod_nonneg ((last - first) / mult + 1) positive
  have scaled := Int.mul_le_mul_of_nonneg_right
    (show randnum.tmod ((last - first) / mult + 1) ≤ (last - first) / mult by omega)
    (show 0 ≤ mult by omega)
  have above := Int.mul_nonneg start (show 0 ≤ mult by omega)
  refine ⟨_, randnum.tmod ((last - first) / mult + 1), ?_, rfl, by omega, by omega⟩
  simp only [pickll, Option.bind_eq_bind]
  rw [checked64_fits (show Fits64 (last - first) from ⟨by omega, by omega⟩)]
  simp only [Option.bind_some, width]
  rw [checked64_fits (show Fits64 ((last - first) / mult + 1) from ⟨by omega, by omega⟩), drawn]
  simp only [Option.bind_some]
  rw [if_neg (by omega), checked64_fits ⟨by omega, by omega⟩]
  simp only [Option.bind_some]
  exact checked64_fits ⟨by omega, by omega⟩

end positions

/-- `random_rangell` over file positions: the divider ends with a number that is not negative, and
    the result is a multiple between the bounds. -/
theorem random_rangell_multiple {min max mult : Int} {draw : Nat} (low : Position min)
    (high : Position max) (ordered : min ≤ max) (some_step : 1 ≤ mult)
    (found : ∃ value, min ≤ value ∧ value ≤ max ∧ mult ∣ value) (small : draw < 2147483648) :
    (∃ randnum, divider draw (up min mult) (down max mult) 0 (-1) = some randnum ∧ 0 ≤ randnum) ∧
    ∃ value, randomRangell min max mult draw = some (some value) ∧ mult ∣ value ∧ min ≤ value ∧ value ≤ max := by
  have positive : 0 < mult := by omega
  have straight := (has_multiple_iff positive).mpr found
  unfold HasMultiple at straight
  have least := le_up min positive
  have most := down_le max positive
  obtain ⟨bottom, -⟩ := low
  obtain ⟨start, top⟩ := high
  have last : Position (down max mult) := ⟨down_nonneg positive start, by omega⟩
  refine ⟨divider_nonneg small (by omega) (by omega) straight last (by
    simp only [Nat.sub_zero, Int.reducePow]
    omega) (.inl rfl), ?_⟩
  obtain ⟨value, k, chosen, place, above, below⟩ :=
    pickll_between positive small (by omega) straight last
  refine ⟨value, ?_, ?_, by omega, by omega⟩
  · have same_lower : lower min max = min := if_neg (by omega)
    have same_upper : upper min max = max := if_neg (by omega)
    rw [randomRangell, if_neg (by omega), same_lower, same_upper,
      bump_position positive bottom (by omega), reduce_position positive ⟨start, top⟩]
    simp only [Option.bind_eq_bind, Option.bind_some]
    rw [if_neg (by omega), chosen]
    rfl
  · rw [place]
    exact Int.dvd_add (up_dvd min mult) (Int.dvd_mul_left k mult)

theorem whole_disk_multiple :
    (∃ randnum, divider 77 (up 1 512) (down 4611686018427387904 512) 0 (-1) = some randnum ∧ 0 ≤ randnum) ∧
    ∃ value, randomRangell 1 4611686018427387904 512 77 = some (some value) ∧ 512 ∣ value ∧
      1 ≤ value ∧ value ≤ 4611686018427387904 :=
  random_rangell_multiple ⟨by decide, by decide⟩ ⟨by decide, by decide⟩ (by decide) (by decide)
    ⟨512, by decide, by decide, by decide⟩ (by decide)

end VteRandomRange
