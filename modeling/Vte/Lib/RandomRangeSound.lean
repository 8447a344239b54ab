import Vte.Base.Multiples
import Vte.Lib.RandomRange

/-!
lib/random_range.c: `random_range` with the overflow checks of its `int` and `long` arithmetic, and
the bounds for which its value is a multiple between them.
-/
namespace VteRandomRange
open Multiples

/-- `if ((r = min % mult)) min += mult - r`, each operation checked. -/
def bump (checked : Int → Option Int) (lo mult : Int) : Option Int :=
  if lo.tmod mult ≠ 0 then do
    let step ← checked (mult - lo.tmod mult)
    checked (lo + step)
  else some lo

def reduce (checked : Int → Option Int) (hi mult : Int) : Option Int :=
  if hi.tmod mult ≠ 0 then checked (hi - hi.tmod mult) else some hi

/-- `nmults = ((max - min) / mult) + 1` and the number chosen with it. -/
def pick (first last mult : Int) (draw : Nat) : Option Int := do
  let width ← checked32 (last - first)
  let nmults ← checked32 (width.tdiv mult + 1)
  if nmults = 0 then none
  else
    let shift ← checked64 ((draw : Int).tmod nmults * mult)
    checked64 (first + shift)

def lower (min max : Int) : Int := if max < min then max else min

def upper (min max : Int) : Int := if max < min then min else max

/-- `random_range`: none when an operation overflows or divides by zero, `some none` with the
    error message set. -/
def randomRangeChecked (min max mult : Int) (draw : Nat) : Option (Option Int) :=
  if mult < 1 then some none
  else do
    let first ← bump checked32 (lower min max) mult
    let last ← reduce checked32 (upper min max) mult
    if last < first then some none
    else do
      let value ← pick first last mult draw
      some (some value)

def Right (min max mult : Int) : Prop :=
  ∀ draw : Nat, draw < 2147483648 → ∃ out, randomRangeChecked min max mult draw = some out ∧
    match out with
    | some value => mult ∣ value ∧ lower min max ≤ value ∧ value ≤ upper min max
    | none => ∀ value, lower min max ≤ value → value ≤ upper min max → ¬ mult ∣ value

def firstMultiple (lo mult : Int) : Int :=
  if lo < 0 ∧ ¬ mult ∣ lo then up lo mult + mult else up lo mult

def lastMultiple (hi mult : Int) : Int := if hi < 0 then up hi mult else down hi mult

def HasMultiple (lo hi mult : Int) : Prop := up lo mult ≤ down hi mult

instance (lo hi mult : Int) : Decidable (HasMultiple lo hi mult) :=
  inferInstanceAs (Decidable (_ ≤ _))

/-- The bounds `random_range` is right for: the remainder of a negative bound is negative, so both
    ends move up a step too far when they are no multiples. -/
structure Sound (lo hi mult : Int) : Prop where
  step : lo < 0 → ¬ mult ∣ lo → mult + (-lo) % mult < 2147483648
  raised : up lo mult < 2147483648
  top : HasMultiple lo hi mult → hi < 0 → mult ∣ hi
  second : HasMultiple lo hi mult → lo < 0 → ¬ mult ∣ lo → up lo mult < down hi mult
  width : HasMultiple lo hi mult → down hi mult - firstMultiple lo mult < 2147483648
  count : HasMultiple lo hi mult → mult = 1 → down hi mult - firstMultiple lo mult < 2147483647

section ends
variable {lo hi mult : Int}

theorem has_multiple_iff (some_step : 0 < mult) :
    HasMultiple lo hi mult ↔ ∃ value, lo ≤ value ∧ value ≤ hi ∧ mult ∣ value := by
  unfold HasMultiple
  constructor
  · intro ordered
    have low := le_up lo some_step
    have high := down_le hi some_step
    exact ⟨up lo mult, low, by omega, up_dvd lo mult⟩
  · rintro ⟨value, low, high, multiple⟩
    have left := up_le some_step multiple low
    have right := le_down some_step multiple high
    omega

theorem bump_value (lo : Int) (some_step : 0 < mult) :
    (if lo.tmod mult ≠ 0 then lo + (mult - lo.tmod mult) else lo) = firstMultiple lo mult := by
  unfold firstMultiple
  by_cases multiple : mult ∣ lo
  · simp [multiple, up_self, tmod_zero_iff.mpr multiple]
  · have left : lo.tmod mult ≠ 0 := fun zero => multiple (tmod_zero_iff.mp zero)
    simp only [left, ne_eq, not_false_eq_true, if_true, multiple, and_true]
    by_cases negative : lo < 0
    · have turned := tmod_up (m := mult) negative
      rw [if_pos negative]
      omega
    · have cut := tmod_down (x := lo) (m := mult) (by omega)
      have next := up_down some_step multiple
      rw [if_neg negative]
      omega

theorem reduce_value (hi mult : Int) :
    (if hi.tmod mult ≠ 0 then hi - hi.tmod mult else hi) = lastMultiple hi mult := by
  unfold lastMultiple
  by_cases multiple : mult ∣ hi
  · simp [multiple, up_self, down_self, tmod_zero_iff.mpr multiple]
  · have left : hi.tmod mult ≠ 0 := fun zero => multiple (tmod_zero_iff.mp zero)
    rw [if_pos left]
    by_cases negative : hi < 0
    · rw [if_pos negative, tmod_up negative]
    · rw [if_neg negative, tmod_down (by omega)]

theorem up_nonpos (some_step : 0 < mult) (negative : lo < 0) : up lo mult ≤ 0 :=
  up_le some_step (Int.dvd_zero mult) (by omega)

theorem down_nonneg (some_step : 0 < mult) (positive : 0 ≤ hi) : 0 ≤ down hi mult :=
  le_down some_step (Int.dvd_zero mult) positive

theorem first_dvd (lo mult : Int) : mult ∣ firstMultiple lo mult := by
  unfold firstMultiple
  split
  · exact Int.dvd_add (up_dvd lo mult) (Int.dvd_refl mult)
  · exact up_dvd lo mult

theorem last_dvd (hi mult : Int) : mult ∣ lastMultiple hi mult := by
  unfold lastMultiple
  split
  · exact up_dvd hi mult
  · exact down_dvd hi mult

theorem le_first (lo : Int) (some_step : 0 < mult) : up lo mult ≤ firstMultiple lo mult := by
  unfold firstMultiple
  split
  · omega
  · omega

theorem last_le_iff (some_step : 0 < mult) :
    lastMultiple hi mult ≤ hi ↔ (hi < 0 → mult ∣ hi) := by
  unfold lastMultiple
  split
  · rename_i negative
    have above := le_up hi some_step
    constructor
    · intro below _
      have same : up hi mult = hi := by omega
      rw [← same]
      exact up_dvd hi mult
    · intro whole
      rw [up_self (whole negative)]
  · rename_i positive
    exact ⟨fun _ negative => absurd negative positive, fun _ => down_le hi some_step⟩

theorem last_down (kept : hi < 0 → mult ∣ hi) : lastMultiple hi mult = down hi mult := by
  unfold lastMultiple
  split
  · rename_i negative
    rw [up_self (kept negative), down_self (kept negative)]
  · rfl

theorem ends_cross (some_step : 0 < mult) (ordered : lo ≤ hi) (empty : ¬ HasMultiple lo hi mult) :
    lastMultiple hi mult < firstMultiple lo mult := by
  have above := le_first lo some_step
  unfold HasMultiple at empty
  unfold lastMultiple
  split
  · rename_i negative
    have apart : ¬ mult ∣ lo := by
      intro whole
      rw [up_self whole] at empty
      exact empty (le_down some_step whole ordered)
    have beyond := lt_down hi some_step
    have next : up hi mult ≤ down hi mult + mult :=
      up_le some_step (Int.dvd_add (down_dvd hi mult) (Int.dvd_refl mult)) (by omega)
    rw [firstMultiple, if_pos ⟨by omega, apart⟩]
    omega
  · omega

end ends

section overflow
variable {lo hi mult : Int}

theorem bump_iff {first : Int} (some_step : 0 < mult) (low : Fits32 lo) (size : Fits32 mult) :
    bump checked32 lo mult = some first ↔ first = firstMultiple lo mult ∧
      (lo < 0 → ¬ mult ∣ lo → mult + (-lo) % mult < 2147483648) ∧ up lo mult < 2147483648 := by
  have value := bump_value lo some_step
  unfold bump
  by_cases multiple : mult ∣ lo
  · have zero := tmod_zero_iff.mpr multiple
    rw [if_neg (by simpa using zero)] at value ⊢
    simp only [multiple, not_true_eq_false, false_implies, implies_true, true_and, up_self, Option.some.injEq, ← value]
    have fits : lo < 2147483648 := low.2
    simp [fits, eq_comm]
  · have left : lo.tmod mult ≠ 0 := fun zero => multiple (tmod_zero_iff.mp zero)
    rw [if_pos left] at value ⊢
    simp only [Option.bind_eq_bind, Option.bind_eq_some_iff, checked32_iff, multiple,
      not_false_eq_true, true_implies, ← value]
    unfold firstMultiple at value
    simp only [multiple, not_false_eq_true, and_true] at value
    have small := Int.emod_lt_of_pos (-lo) some_step
    have positive := Int.emod_nonneg (-lo) (show mult ≠ 0 by omega)
    have above := le_up lo some_step
    have expand : up lo mult = lo + (-lo) % mult := rfl
    unfold Fits32 at *
    by_cases negative : lo < 0
    · have below := up_nonpos some_step negative
      rw [if_pos negative] at value
      constructor
      · rintro ⟨_, ⟨fits, rfl⟩, inside, rfl⟩
        exact ⟨rfl, fun _ => by omega, by omega⟩
      · rintro ⟨rfl, fits, inside⟩
        have room := fits negative
        exact ⟨_, ⟨⟨by omega, by omega⟩, rfl⟩, ⟨by omega, by omega⟩, rfl⟩
    · rw [if_neg negative] at value
      constructor
      · rintro ⟨_, ⟨fits, rfl⟩, inside, rfl⟩
        exact ⟨rfl, fun below => absurd below negative, by omega⟩
      · rintro ⟨rfl, fits, inside⟩
        exact ⟨_, ⟨⟨by omega, by omega⟩, rfl⟩, ⟨by omega, by omega⟩, rfl⟩

theorem reduce_eq (some_step : 0 < mult) (high : Fits32 hi) :
    reduce checked32 hi mult = some (lastMultiple hi mult) := by
  rw [← reduce_value]
  have value := reduce_value hi mult
  unfold reduce
  by_cases left : hi.tmod mult ≠ 0
  · rw [if_pos left] at value ⊢
    rw [if_pos left]
    apply checked32_fits
    rw [value]
    unfold lastMultiple
    unfold Fits32 at *
    split
    · rename_i negative
      have above := le_up hi some_step
      have below := up_nonpos some_step negative
      omega
    · have above := down_nonneg some_step (show 0 ≤ hi by omega)
      have below := down_le hi some_step
      omega
  · rw [if_neg left, if_neg left]

theorem pick_iff (draw : Nat) {first last value : Int} (some_step : 0 < mult)
    (size : Fits32 mult) (low : Fits32 first) (ordered : first ≤ last) :
    pick first last mult draw = some value ↔ (last - first < 2147483648 ∧ (mult = 1 → last - first < 2147483647)) ∧
      value = first + (draw : Int).tmod ((last - first).tdiv mult + 1) * mult := by
  have width : (last - first).tdiv mult = (last - first) / mult :=
    Int.tdiv_eq_ediv_of_nonneg (by omega)
  have least : 0 ≤ (last - first) / mult := Int.ediv_nonneg (by omega) (by omega)
  have whole : (last - first) / mult * mult ≤ last - first := Int.ediv_mul_le _ (by omega)
  have room : mult = 1 ∨ 2 * ((last - first) / mult) ≤ last - first := by
    by_cases one : mult = 1
    · exact .inl one
    · have twice := Int.mul_le_mul_of_nonneg_left (show (2 : Int) ≤ mult by omega) least
      exact .inr (by omega)
  have index := Int.tmod_lt_of_pos (draw : Int) (show 0 < (last - first) / mult + 1 by omega)
  have start := Int.tmod_nonneg ((last - first) / mult + 1) (Int.natCast_nonneg draw)
  have inside : (draw : Int).tmod ((last - first) / mult + 1) * mult ≤ last - first := by
    have scaled := Int.mul_le_mul_of_nonneg_right
      (show (draw : Int).tmod ((last - first) / mult + 1) ≤ (last - first) / mult by omega)
      (show 0 ≤ mult by omega)
    omega
  have positive : 0 ≤ (draw : Int).tmod ((last - first) / mult + 1) * mult :=
    Int.mul_nonneg start (by omega)
  simp only [pick, Option.bind_eq_bind, Option.bind_eq_some_iff, checked32_iff]
  unfold Fits32 at *
  constructor
  · rintro ⟨_, ⟨fits, rfl⟩, _, ⟨counted, rfl⟩, chosen⟩
    rw [width] at counted chosen ⊢
    rw [if_neg (by omega)] at chosen
    simp only [Option.bind_eq_some_iff, checked64_iff] at chosen
    obtain ⟨_, ⟨_, rfl⟩, _, rfl⟩ := chosen
    refine ⟨⟨fits.2, ?_⟩, rfl⟩
    rintro rfl
    rw [Int.ediv_one] at counted
    omega
  · rintro ⟨⟨fits, counted⟩, rfl⟩
    rw [width]
    refine ⟨_, ⟨⟨by omega, fits⟩, rfl⟩, (last - first) / mult + 1, ⟨?_, by rw [width]⟩, ?_⟩
    · rcases room with rfl | room
      · have tight := counted rfl
        rw [Int.ediv_one] at *
        omega
      · omega
    · rw [if_neg (by omega)]
      simp only [Option.bind_eq_some_iff, checked64_iff]
      exact ⟨_, ⟨⟨by omega, by omega⟩, rfl⟩, ⟨by omega, by omega⟩, rfl⟩

end overflow

section draws
variable {min max mult : Int}

theorem lower_le_upper (min max : Int) : lower min max ≤ upper min max := by
  unfold lower upper
  split
  · omega
  · omega

theorem lower_fits (left : Fits32 min) (right : Fits32 max) : Fits32 (lower min max) := by
  unfold lower
  split
  · exact right
  · exact left

theorem upper_fits (left : Fits32 min) (right : Fits32 max) : Fits32 (upper min max) := by
  unfold upper
  split
  · exact left
  · exact right

theorem first_fits {lo : Int} (some_step : 0 < mult) (low : Fits32 lo) (size : Fits32 mult)
    (raised : up lo mult < 2147483648) : Fits32 (firstMultiple lo mult) := by
  have above := le_up lo some_step
  unfold firstMultiple
  unfold Fits32 at *
  split
  · rename_i turned
    have below := up_nonpos some_step turned.1
    omega
  · omega

theorem random_range_checked_iff {out : Option Int} {draw : Nat} (some_step : 0 < mult)
    (left : Fits32 min) (right : Fits32 max) (size : Fits32 mult) :
    randomRangeChecked min max mult draw = some out ↔ ((lower min max < 0 → ¬ mult ∣ lower min max →
          mult + (-lower min max) % mult < 2147483648) ∧
        up (lower min max) mult < 2147483648) ∧
      (if lastMultiple (upper min max) mult < firstMultiple (lower min max) mult then out = none
      else ∃ value, pick (firstMultiple (lower min max) mult) (lastMultiple (upper min max) mult)
        mult draw = some value ∧ out = some value) := by
  unfold randomRangeChecked
  rw [if_neg (by omega), reduce_eq some_step (upper_fits left right)]
  simp only [Option.bind_eq_bind, Option.bind_eq_some_iff,
    bump_iff some_step (lower_fits left right) size, Option.some.injEq, exists_eq_left']
  constructor
  · rintro ⟨_, ⟨rfl, fits⟩, result⟩
    refine ⟨fits, ?_⟩
    split at result
    · rename_i crossed
      rw [if_pos crossed]
      simpa [eq_comm] using result
    · rename_i ordered
      rw [if_neg ordered]
      simp only [Option.bind_eq_some_iff, Option.some.injEq] at result
      obtain ⟨value, chosen, rfl⟩ := result
      exact ⟨value, chosen, rfl⟩
  · rintro ⟨fits, result⟩
    refine ⟨_, ⟨rfl, fits⟩, ?_⟩
    split at result
    · rename_i crossed
      rw [if_pos crossed, result]
    · rename_i ordered
      obtain ⟨value, chosen, rfl⟩ := result
      rw [if_neg ordered]
      simp only [chosen, Option.bind_some]

theorem random_range_eq {draw : Nat} (some_step : 0 < mult) :
    randomRange min max mult draw =
      if lastMultiple (upper min max) mult < firstMultiple (lower min max) mult then none
      else some (firstMultiple (lower min max) mult + (draw : Int).tmod ((lastMultiple (upper min max) mult -
          firstMultiple (lower min max) mult).tdiv mult + 1) * mult) := by
  rw [randomRange, if_neg (by omega), ← bump_value _ some_step, ← reduce_value]
  rfl

theorem checked_agrees {out : Option Int} {draw : Nat} (left : Fits32 min) (right : Fits32 max)
    (size : Fits32 mult) (returned : randomRangeChecked min max mult draw = some out) :
    randomRange min max mult draw = out := by
  by_cases small : mult < 1
  · rw [randomRangeChecked, if_pos small, Option.some.injEq] at returned
    rw [randomRange, if_pos small, returned]
  · have some_step : 0 < mult := by omega
    obtain ⟨fits, result⟩ :=
      (random_range_checked_iff some_step left right size).mp returned
    rw [random_range_eq some_step]
    by_cases crossed : lastMultiple (upper min max) mult < firstMultiple (lower min max) mult
    · rw [if_pos crossed] at result ⊢
      exact result.symm
    · rw [if_neg crossed] at result ⊢
      obtain ⟨value, chosen, rfl⟩ := result
      have start := first_fits some_step (lower_fits left right) size fits.2
      have exactly := ((pick_iff _ some_step size start (by omega)).mp chosen).2
      rw [exactly]

end draws

section main
variable {lo hi mult : Int}

theorem reach_last {first last : Int} (some_step : 0 < mult) (ordered : first ≤ last)
    (left : mult ∣ first) (right : mult ∣ last) :
    first + (((last - first) / mult).toNat : Int).tmod ((last - first).tdiv mult + 1) * mult = last := by
  have least : 0 ≤ (last - first) / mult := Int.ediv_nonneg (by omega) (by omega)
  have whole := Int.ediv_mul_cancel (Int.dvd_sub right left)
  rw [Int.tdiv_eq_ediv_of_nonneg (by omega), Int.toNat_of_nonneg least, Int.tmod_eq_of_lt least (by omega), whole]
  omega

theorem chosen_between {first last : Int} (draw : Nat) (some_step : 0 < mult)
    (ordered : first ≤ last) :
    first ≤ first + (draw : Int).tmod ((last - first).tdiv mult + 1) * mult ∧
      first + (draw : Int).tmod ((last - first).tdiv mult + 1) * mult ≤ last := by
  rw [Int.tdiv_eq_ediv_of_nonneg (show 0 ≤ last - first by omega)]
  have least : 0 ≤ (last - first) / mult := Int.ediv_nonneg (by omega) (by omega)
  have index := Int.tmod_lt_of_pos (draw : Int) (show 0 < (last - first) / mult + 1 by omega)
  have start := Int.tmod_nonneg ((last - first) / mult + 1) (Int.natCast_nonneg draw)
  have positive := Int.mul_nonneg start (show 0 ≤ mult by omega)
  have whole : (last - first) / mult * mult ≤ last - first := Int.ediv_mul_le _ (by omega)
  have scaled := Int.mul_le_mul_of_nonneg_right
    (show (draw : Int).tmod ((last - first) / mult + 1) ≤ (last - first) / mult by omega)
    (show 0 ≤ mult by omega)
  omega

theorem draw_fits {first last : Int} (some_step : 0 < mult) (narrow : last - first < 2147483648) :
    ((last - first) / mult).toNat < 2147483648 := by
  have small : (last - first) / mult < 2147483648 := by
    apply Int.ediv_lt_of_lt_mul some_step
    have wide := Int.mul_le_mul_of_nonneg_left (show (1 : Int) ≤ mult by omega)
      (show (0 : Int) ≤ 2147483648 by omega)
    omega
  omega

section directions
variable {min max : Int}

/-- When every draw is right and there is a multiple, the ends are in order, and the last multiple is
the one that the draws reach. -/
theorem right_reaches (left : Fits32 min) (right : Fits32 max) (size : Fits32 mult)
    (some_step : 0 < mult) (correct : Right min max mult)
    (found : HasMultiple (lower min max) (upper min max) mult) :
    firstMultiple (lower min max) mult ≤ lastMultiple (upper min max) mult ∧
      (upper min max < 0 → mult ∣ upper min max) ∧
      (lastMultiple (upper min max) mult - firstMultiple (lower min max) mult < 2147483648 ∧
        (mult = 1 → lastMultiple (upper min max) mult - firstMultiple (lower min max) mult < 2147483647)) := by
  have program := @random_range_checked_iff min max mult
  obtain ⟨out, returned, meaning⟩ := correct 0 (by omega)
  obtain ⟨fits, result⟩ := (program some_step left right size).mp returned
  have start := first_fits some_step (lower_fits left right) size fits.2
  by_cases crossed : lastMultiple (upper min max) mult < firstMultiple (lower min max) mult
  · rw [if_pos crossed] at result
    subst result
    obtain ⟨value, low, high, multiple⟩ := (has_multiple_iff some_step).mp found
    exact absurd multiple (meaning value low high)
  · rw [if_neg crossed] at result
    obtain ⟨value, chosen, rfl⟩ := result
    have straight : firstMultiple (lower min max) mult ≤ lastMultiple (upper min max) mult := by
      omega
    have narrow := ((pick_iff _ some_step size start straight).mp chosen).1
    refine ⟨straight, ?_, narrow⟩
    rw [← last_le_iff some_step]
    -- the draw that gives the last multiple
    obtain ⟨out, returned, meaning⟩ := correct _ (draw_fits some_step narrow.1)
    have result := ((program some_step left right size).mp returned).2
    rw [if_neg crossed] at result
    obtain ⟨value, chosen, rfl⟩ := result
    have exactly := ((pick_iff _ some_step size start straight).mp chosen).2
    rw [reach_last some_step straight (first_dvd _ mult) (last_dvd _ mult)] at exactly
    rw [← exactly]
    exact meaning.2.2

theorem right_sound (left : Fits32 min) (right : Fits32 max) (size : Fits32 mult)
    (some_step : 0 < mult) (correct : Right min max mult) :
    Sound (lower min max) (upper min max) mult := by
  have reached := right_reaches left right size some_step correct
  obtain ⟨out, returned, -⟩ := correct 0 (by omega)
  obtain ⟨fits, -⟩ := (random_range_checked_iff some_step left right size).mp returned
  refine ⟨fits.1, fits.2, ?_, ?_, ?_, ?_⟩
  · exact fun found => (reached found).2.1
  · intro found negative apart
    obtain ⟨straight, kept, -⟩ := reached found
    rw [last_down kept, firstMultiple, if_pos ⟨negative, apart⟩] at straight
    omega
  · intro found
    obtain ⟨-, kept, narrow, -⟩ := reached found
    rwa [last_down kept] at narrow
  · intro found one
    obtain ⟨-, kept, -, tight⟩ := reached found
    rw [last_down kept] at tight
    exact tight one

theorem sound_straight (some_step : 0 < mult) (sound : Sound (lower min max) (upper min max) mult)
    (found : HasMultiple (lower min max) (upper min max) mult) :
    firstMultiple (lower min max) mult ≤ down (upper min max) mult := by
  unfold HasMultiple at found
  unfold firstMultiple
  split
  · rename_i turned
    have more := sound.second found turned.1 turned.2
    have next := up_dvd (lower min max) mult
    by_contra past
    have same := multiples_close some_step next (down_dvd (upper min max) mult) (by omega)
    omega
  · exact found

theorem sound_right (left : Fits32 min) (right : Fits32 max) (size : Fits32 mult)
    (some_step : 0 < mult) (sound : Sound (lower min max) (upper min max) mult) :
    Right min max mult := by
  have program := @random_range_checked_iff min max mult
  have ordered := lower_le_upper min max
  intro draw small
  have start := first_fits some_step (lower_fits left right) size sound.raised
  by_cases found : HasMultiple (lower min max) (upper min max) mult
  · have kept := last_down (sound.top found)
    have straight := sound_straight some_step sound found
    rw [← kept] at straight
    have inside := chosen_between draw some_step straight
    have chosen := (pick_iff draw some_step size start straight).mpr ⟨by
      rw [kept]
      exact ⟨sound.width found, sound.count found⟩, rfl⟩
    refine ⟨_, (program some_step left right size).mpr ⟨⟨sound.step, sound.raised⟩, by
      rw [if_neg (by omega)]
      exact ⟨_, chosen, rfl⟩⟩, ?_⟩
    have low := le_first (lower min max) some_step
    have least := le_up (lower min max) some_step
    have high := (last_le_iff some_step).mpr (sound.top found)
    exact ⟨Int.dvd_add (first_dvd _ mult) (Int.dvd_mul_left _ mult), by omega, by omega⟩
  · refine ⟨none, (program some_step left right size).mpr ⟨⟨sound.step, sound.raised⟩, ?_⟩, ?_⟩
    · rw [if_pos (ends_cross some_step ordered found)]
    · intro value low high multiple
      exact found ((has_multiple_iff some_step).mpr ⟨value, low, high, multiple⟩)

end directions

/-- `random_range` is right for every draw just when its bounds are sound. -/
theorem random_range_right {min max : Int} (left : Fits32 min) (right : Fits32 max)
    (size : Fits32 mult) (positive : 1 ≤ mult) :
    Right min max mult ↔ Sound (lower min max) (upper min max) mult := by
  have some_step : 0 < mult := by omega
  constructor
  · exact right_sound left right size some_step
  · exact sound_right left right size some_step

theorem around_zero_right : Right (-7) 10 3 :=
  (random_range_right (by decide) (by decide) (by decide) (by decide)).mpr
    ⟨by decide, by decide, by decide, by decide, by decide, by decide⟩

theorem above_both_bounds : randomRangeChecked (-5) (-2) 3 0 = some (some 0) ∧ ¬ Right (-5) (-2) 3 := by
  have returned : randomRangeChecked (-5) (-2) 3 0 = some (some 0) := by decide
  refine ⟨returned, ?_⟩
  intro correct
  obtain ⟨out, again, meaning⟩ := correct 0 (by omega)
  rw [returned, Option.some.injEq] at again
  subst again
  exact absurd meaning.2.2 (by decide)

end main
end VteRandomRange
