import Mathlib.Order.Bounds.Basic
import Vte.Base.Multiples

/-!
lib/tlibio.c: `stride_bounds`, the lowest and highest byte of a strided request. Each `int`
operation is checked.
-/
namespace VteStride
open Multiples

/-- `if (stride == 0) stride = bytes_per_stride` -/
def effective (stride bytesPerStride : Int) : Int := if stride = 0 then bytesPerStride else stride

/-- `stride_bounds`: none on overflow; the length returned and what `*min` and `*max` are set to,
    nothing when a count is refused. -/
def strideBounds (offset stride nstrides bytesPerStride : Int) :
    Option (Int × Option (Int × Int)) :=
  if nstrides < 0 ∨ bytesPerStride < 0 then some (-1, none)
  else do
    let stride := effective stride bytesPerStride
    let size ← checked32 |stride|
    let gaps ← checked32 (nstrides - 1)
    let span ← checked32 (size * gaps)
    let nbytes ← checked32 (span + bytesPerStride)
    if stride < 0 then
      let stop ← checked32 (offset + bytesPerStride)
      let maxByte ← checked32 (stop - 1)
      let before ← checked32 (maxByte - nbytes)
      let minByte ← checked32 (before + 1)
      some (nbytes, some (minByte, maxByte))
    else
      let minByte := offset
      let stop ← checked32 (minByte + nbytes)
      let maxByte ← checked32 (stop - 1)
      some (nbytes, some (minByte, maxByte))

def touched (offset stride nstrides bytesPerStride : Int) : Set Int :=
  {x | ∃ i j, 0 ≤ i ∧ i < nstrides ∧ 0 ≤ j ∧ j < bytesPerStride ∧ x = offset + i * stride + j}

def Exact (offset stride nstrides bytesPerStride : Int) : Prop :=
  ∃ length low high, strideBounds offset stride nstrides bytesPerStride = some (length, some (low, high)) ∧
    IsLeast (touched offset (effective stride bytesPerStride) nstrides bytesPerStride) low ∧
    IsGreatest (touched offset (effective stride bytesPerStride) nstrides bytesPerStride) high ∧
    length = high - low + 1 ∧ 0 ≤ length

def gap (stride nstrides bytesPerStride : Int) : Int :=
  |effective stride bytesPerStride| * (nstrides - 1)

/-- Some byte is touched and every `int` on the way holds its value. -/
structure Bounded (offset stride nstrides bytesPerStride : Int) : Prop where
  strides : 1 ≤ nstrides
  bytes : 1 ≤ bytesPerStride
  size : -2147483648 < stride
  length : gap stride nstrides bytesPerStride + bytesPerStride < 2147483648
  upward : 0 ≤ stride → offset + (gap stride nstrides bytesPerStride + bytesPerStride) < 2147483648
  downward : stride < 0 → offset + bytesPerStride < 2147483648 ∧
    -2147483648 ≤ offset - 1 - gap stride nstrides bytesPerStride

section hull
variable {offset stride nstrides bytesPerStride : Int}

theorem effective_negative_iff (stride : Int) (bytes : 0 ≤ bytesPerStride) :
    effective stride bytesPerStride < 0 ↔ stride < 0 := by
  unfold effective
  split
  · omega
  · exact Iff.rfl

theorem gap_nonneg (stride bytesPerStride : Int) (strides : 1 ≤ nstrides) :
    0 ≤ gap stride nstrides bytesPerStride :=
  Int.mul_nonneg (abs_nonneg _) (by omega)

theorem touched_upward (offset : Int) (strides : 1 ≤ nstrides) (bytes : 1 ≤ bytesPerStride)
    (up : 0 ≤ stride) :
    IsLeast (touched offset stride nstrides bytesPerStride) offset ∧
    IsGreatest (touched offset stride nstrides bytesPerStride)
      (offset + stride * (nstrides - 1) + bytesPerStride - 1) := by
  refine ⟨⟨⟨0, 0, by omega, by omega, by omega, by omega, by omega⟩, ?_⟩,
    ⟨⟨nstrides - 1, bytesPerStride - 1, by omega, by omega, by omega, by omega, ?_⟩, ?_⟩⟩
  · rintro x ⟨i, j, first, -, start, -, rfl⟩
    have forward := Int.mul_nonneg first up
    omega
  · rw [Int.mul_comm]
    omega
  · rintro x ⟨i, j, -, last, -, stop, rfl⟩
    have forward := Int.mul_le_mul_of_nonneg_right (show i ≤ nstrides - 1 by omega) up
    rw [Int.mul_comm (nstrides - 1)] at forward
    omega

theorem touched_downward (offset : Int) (strides : 1 ≤ nstrides)
    (bytes : 1 ≤ bytesPerStride) (down : stride < 0) :
    IsLeast (touched offset stride nstrides bytesPerStride)
      (offset + stride * (nstrides - 1)) ∧
    IsGreatest (touched offset stride nstrides bytesPerStride) (offset + bytesPerStride - 1) := by
  refine ⟨⟨⟨nstrides - 1, 0, by omega, by omega, by omega, by omega, ?_⟩, ?_⟩,
    ⟨⟨0, bytesPerStride - 1, by omega, by omega, by omega, by omega, by omega⟩, ?_⟩⟩
  · rw [Int.mul_comm]
    omega
  · rintro x ⟨i, j, -, last, start, -, rfl⟩
    have backward := Int.mul_le_mul_of_nonpos_right (show i ≤ nstrides - 1 by omega)
      (show stride ≤ 0 by omega)
    rw [Int.mul_comm (nstrides - 1)] at backward
    omega
  · rintro x ⟨i, j, first, -, -, stop, rfl⟩
    have backward := Int.mul_nonpos_of_nonneg_of_nonpos first (show stride ≤ 0 by omega)
    omega

theorem touched_some (found : (touched offset stride nstrides bytesPerStride).Nonempty) :
    1 ≤ nstrides ∧ 1 ≤ bytesPerStride := by
  obtain ⟨x, i, j, first, last, start, stop, -⟩ := found
  omega

end hull

section checkedRun
variable {offset stride nstrides bytesPerStride : Int}

theorem abs_fits (bytes : 1 ≤ bytesPerStride) (word : Fits32 stride) (room : Fits32 bytesPerStride) :
    Fits32 |effective stride bytesPerStride| ↔ -2147483648 < stride := by
  unfold effective
  unfold Fits32 at *
  split
  · rw [abs_of_nonneg (by omega)]
    omega
  · rcases Int.le_total 0 stride with up | down
    · rw [abs_of_nonneg up]
      omega
    · rw [abs_of_nonpos down]
      omega

theorem stride_bounds_iff (strides : 1 ≤ nstrides) (bytes : 1 ≤ bytesPerStride)
    (place : Fits32 offset) (word : Fits32 stride) (count : Fits32 nstrides)
    (room : Fits32 bytesPerStride) {length low high : Int} :
    strideBounds offset stride nstrides bytesPerStride = some (length, some (low, high)) ↔
      Bounded offset stride nstrides bytesPerStride ∧
      length = gap stride nstrides bytesPerStride + bytesPerStride ∧
      (if stride < 0 then high = offset + bytesPerStride - 1 ∧ low = offset - gap stride nstrides bytesPerStride
      else low = offset ∧ high = offset + gap stride nstrides bytesPerStride + bytesPerStride - 1) := by
  have flat := gap_nonneg stride bytesPerStride strides
  have whole : |effective stride bytesPerStride| * (nstrides - 1) = gap stride nstrides bytesPerStride := rfl
  have sign := effective_negative_iff stride (show 0 ≤ bytesPerStride by omega)
  rw [strideBounds, if_neg (by omega)]
  simp only [Option.bind_eq_bind, Option.bind_eq_some_iff, checked32_iff, sign]
  constructor
  · rintro ⟨_, ⟨size, rfl⟩, _, ⟨-, rfl⟩, _, ⟨-, rfl⟩, _, ⟨total, rfl⟩, result⟩
    rw [abs_fits bytes word room] at size
    rw [whole] at total result
    split at result
    · rename_i down
      simp only [Option.bind_eq_some_iff, checked32_iff, Option.some.injEq, Prod.mk.injEq] at result
      obtain ⟨_, ⟨stop, rfl⟩, _, ⟨-, rfl⟩, _, ⟨before, rfl⟩, _, ⟨-, rfl⟩, rfl, rfl, rfl⟩ := result
      rw [if_pos down]
      unfold Fits32 at *
      exact ⟨⟨strides, bytes, size, by omega, by omega, fun _ => by omega⟩, rfl, rfl, by omega⟩
    · rename_i up
      simp only [Option.bind_eq_some_iff, checked32_iff, Option.some.injEq, Prod.mk.injEq] at result
      obtain ⟨_, ⟨stop, rfl⟩, _, ⟨-, rfl⟩, rfl, rfl, rfl⟩ := result
      rw [if_neg up]
      unfold Fits32 at *
      exact ⟨⟨strides, bytes, size, by omega, by omega, fun down => absurd down up⟩, rfl, rfl,
        by omega⟩
  · rintro ⟨bounded, rfl, ends⟩
    have total := bounded.length
    refine ⟨_, ⟨(abs_fits bytes word room).mpr bounded.size, rfl⟩, _, ⟨?_, rfl⟩, _, ⟨?_, rfl⟩, _, ⟨?_, rfl⟩, ?_⟩
    · unfold Fits32 at *
      omega
    · rw [whole]
      unfold Fits32
      omega
    · rw [whole]
      unfold Fits32
      omega
    · rw [whole]
      split at ends
      · rename_i down
        obtain ⟨rfl, rfl⟩ := ends
        have stop := bounded.downward down
        rw [if_pos down]
        simp only [Option.bind_eq_some_iff, checked32_iff, Option.some.injEq, Prod.mk.injEq]
        unfold Fits32 at *
        exact ⟨_, ⟨by omega, rfl⟩, _, ⟨by omega, rfl⟩, _, ⟨by omega, rfl⟩, _, ⟨by omega, rfl⟩, trivial, by omega, rfl⟩
      · rename_i up
        obtain ⟨rfl, rfl⟩ := ends
        have stop := bounded.upward (by omega)
        rw [if_neg up]
        simp only [Option.bind_eq_some_iff, checked32_iff, Option.some.injEq, Prod.mk.injEq]
        unfold Fits32 at *
        exact ⟨_, ⟨by omega, rfl⟩, _, ⟨by omega, rfl⟩, trivial, trivial, by omega⟩

end checkedRun

/-- `stride_bounds` gives the bounds of the bytes touched just when there is one and no `int`
    overflows. -/
theorem stride_bounds_exact {offset stride nstrides bytesPerStride : Int} (place : Fits32 offset)
    (word : Fits32 stride) (count : Fits32 nstrides) (room : Fits32 bytesPerStride) :
    Exact offset stride nstrides bytesPerStride ↔ Bounded offset stride nstrides bytesPerStride := by
  constructor
  · rintro ⟨length, low, high, returned, least, -⟩
    obtain ⟨strides, bytes⟩ := touched_some ⟨low, least.1⟩
    exact ((stride_bounds_iff strides bytes place word count room).mp returned).1
  · intro bounded
    have strides := bounded.strides
    have bytes := bounded.bytes
    have flat := gap_nonneg stride bytesPerStride strides
    have sign := effective_negative_iff stride (show 0 ≤ bytesPerStride by omega)
    have returns := @stride_bounds_iff offset stride nstrides bytesPerStride strides bytes place
      word count room
    by_cases down : stride < 0
    · have lowered : effective stride bytesPerStride * (nstrides - 1) = -gap stride nstrides bytesPerStride := by
        rw [gap, abs_of_neg (sign.mpr down), Int.neg_mul, Int.neg_neg]
      obtain ⟨least, greatest⟩ := touched_downward offset strides bytes (sign.mpr down)
      refine ⟨_, _, _, returns.mpr ⟨bounded, rfl, ?_⟩, least, greatest, by omega, by omega⟩
      rw [if_pos down]
      exact ⟨rfl, by omega⟩
    · have raised : effective stride bytesPerStride * (nstrides - 1) = gap stride nstrides bytesPerStride := by
        rw [gap, abs_of_nonneg (by omega)]
      obtain ⟨least, greatest⟩ := touched_upward offset strides bytes
        (show 0 ≤ effective stride bytesPerStride by omega)
      refine ⟨_, _, _, returns.mpr ⟨bounded, rfl, ?_⟩, least, greatest, by omega, by omega⟩
      rw [if_neg down]
      exact ⟨rfl, by omega⟩

theorem overlapping_back_exact : Exact 100 (-2) 5 4 :=
  (stride_bounds_exact (by decide) (by decide) (by decide) (by decide)).mpr
    ⟨by decide, by decide, by decide, by decide, by decide, by decide⟩

theorem no_strides_negative :
    strideBounds 0 10 0 4 = some (-6, some (0, -7)) ∧ ¬ Exact 0 10 0 4 := by
  refine ⟨by decide, ?_⟩
  rintro ⟨length, low, high, -, least, -⟩
  have some_stride := (touched_some ⟨low, least.1⟩).1
  omega

end VteStride
