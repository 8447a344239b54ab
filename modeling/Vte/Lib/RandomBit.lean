import Mathlib.Data.Nat.Count
import Vte.Lib.LioAsync
import Vte.Lib.RandomRange

/-!
lib/random_range.c: `random_bit`, one of the bits of a mask; lib/tlibio.c: `lio_random_methods`, which
draws an io type and a wait method with it. A `long` is a 64 bit word.
-/
namespace VteRandomBit
open VteLio VteRandomRange

def countBits (mask : BitVec 64) : Nat → BitVec 64 → Nat → Nat
  | 0, _, nbits => nbits
  | rounds + 1, bit, nbits =>
    countBits mask rounds (bit <<< 1) (if mask &&& bit ≠ 0#64 then nbits + 1 else nbits)

def shiftBits : Nat → BitVec 64 → Int → Nat → Option Nat
  | 0, _, _, _ => none
  | fuel + 1, mask, bit, nshift =>
    if bit = 0 then some nshift
    else
      shiftBits fuel (mask.sshiftRight 1) (if mask &&& 1#64 ≠ 0#64 then bit - 1 else bit)
        (nshift + 1)

def randomBit (fuel : Nat) (mask : BitVec 64) (draw : Nat) : Option (BitVec 64) :=
  if mask = 0#64 then some 0#64
  else do
    let nbits := countBits mask 64 1#64 0
    let bit := (randomRange 1 nbits 1 draw).getD (-1)
    let nshift ← shiftBits fuel mask bit 0
    some (1#64 <<< (nshift - 1))

/-- `lio_random_methods`, with the draws of its two calls of `random_bit`. -/
def lioRandomMethodsDrawn (fuel : Nat) (currMask : BitVec 64) (ioDraw waitDraw : Nat) :
    Option (BitVec 32) := do
  let mask := (currMask &&& (~~~(lioIoTypes ||| lioWaitTypes ||| lioRandom)).signExtend 64).setWidth 32
  let ioBit ← randomBit fuel (currMask &&& lioIoTypes.signExtend 64) ioDraw
  let mask := (mask.signExtend 64 ||| ioBit).setWidth 32
  let waitBit ← randomBit fuel (currMask &&& lioWaitTypes.signExtend 64) waitDraw
  some ((mask.signExtend 64 ||| waitBit).setWidth 32)

section counting
variable {mask : BitVec 64}

def below (mask : BitVec 64) (i : Nat) : Nat := Nat.count (fun k => mask.getLsbD k = true) i

theorem below_succ (mask : BitVec 64) (i : Nat) :
    below mask (i + 1) = below mask i + if mask.getLsbD i = true then 1 else 0 :=
  Nat.count_succ (fun k => mask.getLsbD k = true) i

theorem and_bit_iff (mask : BitVec 64) (i : Nat) :
    mask &&& 1#64 <<< i ≠ 0#64 ↔ mask.getLsbD i = true := by
  constructor
  · intro some_bit
    by_contra unset
    apply some_bit
    apply BitVec.eq_of_getLsbD_eq
    intro k _
    simp only [BitVec.getLsbD_and, BitVec.getLsbD_shiftLeft, BitVec.getLsbD_one, BitVec.getLsbD_zero]
    by_cases here : k = i
    · subst here
      simp [Bool.eq_false_iff.mpr unset]
    · by_cases lower : k < i
      · simp [lower]
      · simp [show k - i ≠ 0 by omega]
  · intro set zero
    have inside := BitVec.lt_of_getLsbD set
    have bit := congrArg (fun word => word.getLsbD i) zero
    simp only [BitVec.getLsbD_and, set, BitVec.getLsbD_shiftLeft, BitVec.getLsbD_one, BitVec.getLsbD_zero] at bit
    simp [inside] at bit

theorem count_bits_below (mask : BitVec 64) (rounds i : Nat) :
    countBits mask rounds (1#64 <<< i) (below mask i) = below mask (i + rounds) := by
  induction rounds generalizing i with
  | zero => rfl
  | succ rounds ih =>
    rw [countBits, ← BitVec.shiftLeft_add]
    have counted : (if mask &&& 1#64 <<< i ≠ 0#64 then below mask i + 1 else below mask i) = below mask (i + 1) := by
      rw [below_succ]
      by_cases set : mask.getLsbD i = true
      · rw [if_pos ((and_bit_iff mask i).mpr set), if_pos set]
      · rw [if_neg (fun found => set ((and_bit_iff mask i).mp found)), if_neg set, Nat.add_zero]
    rw [counted, ih, show i + 1 + rounds = i + (rounds + 1) by omega]

theorem count_bits_eq (mask : BitVec 64) : countBits mask 64 1#64 0 = below mask 64 := by
  have counted := count_bits_below mask 64 0
  simpa [below] using counted

theorem bits_positive (some_bit : mask ≠ 0#64) : 1 ≤ below mask 64 := by
  by_contra none_set
  apply some_bit
  apply BitVec.eq_of_getLsbD_eq
  intro i inside
  rw [BitVec.getLsbD_zero, Bool.eq_false_iff]
  have nothing : Nat.count (fun k => mask.getLsbD k = true) 64 = 0 := by
    unfold below at none_set
    omega
  exact Nat.count_iff_forall_not.mp nothing i inside

theorem below_last {i t : Nat} (set : mask.getLsbD i = true) (last : mask.getLsbD t = true)
    (same : below mask (t + 1) = below mask (i + 1)) : t = i := by
  rw [below_succ, below_succ, if_pos set, if_pos last] at same
  have equal : below mask t = below mask i := by omega
  exact Nat.count_injective (p := fun k => mask.getLsbD k = true) last set equal

theorem shift_bits_ends (mask : BitVec 64) (i left : Nat) {shifted : BitVec 64}
    {fuel : Nat} (low : i ≤ 64)
    (rest : ∀ k, i + k < 64 → shifted.getLsbD k = mask.getLsbD (i + k))
    (enough : below mask i + left ≤ below mask 64) (some_fuel : 65 - i ≤ fuel) :
    ∃ t, shiftBits fuel shifted left i = some t ∧ below mask t = below mask i + left ∧
      t ≤ 64 ∧ (left ≠ 0 → ∃ last, t = last + 1 ∧ mask.getLsbD last = true) := by
  induction fuel generalizing shifted i left with
  | zero => omega
  | succ fuel ih =>
    rw [shiftBits]
    by_cases done : left = 0
    · subst done
      exact ⟨i, rfl, rfl, low, fun some_left => absurd rfl some_left⟩
    · rw [if_neg (by omega)]
      have inside : i < 64 := by
        by_contra past
        obtain rfl : i = 64 := by omega
        omega
      have next := below_succ mask i
      have moved : ∀ k, i + 1 + k < 64 → (shifted.sshiftRight 1).getLsbD k = mask.getLsbD (i + 1 + k) := by
        intro k within
        rw [show i + 1 + k = i + (k + 1) by omega, ← rest (k + 1) (by omega), BitVec.getLsbD_sshiftRight]
        simp [show ¬ 64 ≤ k by omega, show k + 1 < 64 by omega, Nat.add_comm]
      have bit : shifted &&& 1#64 ≠ 0#64 ↔ mask.getLsbD i = true := by
        rw [← Nat.add_zero i, ← rest 0 (by omega), ← and_bit_iff, BitVec.shiftLeft_zero]
      by_cases set : mask.getLsbD i = true
      · rw [if_pos (bit.mpr set), show (left : Int) - 1 = ((left - 1 : Nat) : Int) by omega]
        rw [if_pos set] at next
        obtain ⟨t, ends, counted, bound, last⟩ :=
          ih (i + 1) (left - 1) (by omega) moved (by omega) (by omega)
        have passed : below mask t = below mask i + left := by
          clear last
          omega
        refine ⟨t, ends, passed, bound, ?_⟩
        intro _
        by_cases final : left - 1 = 0
        · rw [final] at ends
          obtain ⟨fuel, rfl⟩ : ∃ n, fuel = n + 1 := ⟨fuel - 1, by omega⟩
          rw [shiftBits, if_pos (by rfl), Option.some.injEq] at ends
          exact ⟨i, ends.symm, set⟩
        · exact last final
      · rw [if_neg (fun found => set (bit.mp found))]
        rw [if_neg set] at next
        obtain ⟨t, ends, counted, bound, last⟩ :=
          ih (i + 1) left (by omega) moved (by omega) (by omega)
        exact ⟨t, ends, by omega, bound, last⟩

theorem random_bit_at {b draw : Nat} (some_bit : mask ≠ 0#64) (first : 1 ≤ b)
    (bound : b ≤ below mask 64) (chosen : randomRange 1 (below mask 64) 1 draw = some (b : Int)) :
    ∃ i, mask.getLsbD i = true ∧ below mask (i + 1) = b ∧
      ∀ fuel, 65 ≤ fuel → randomBit fuel mask draw = some (1#64 <<< i) := by
  have start : below mask 0 = 0 := Nat.count_zero _
  have walk : ∀ fuel, 65 ≤ fuel → ∃ i, shiftBits fuel mask b 0 = some (i + 1) ∧
      mask.getLsbD i = true ∧ below mask (i + 1) = b := by
    intro fuel enough
    obtain ⟨t, ends, counted, -, last⟩ := shift_bits_ends mask 0 b (by omega)
      (fun k _ => by rw [Nat.zero_add]) (by omega) enough
    obtain ⟨i, rfl, set⟩ := last (by omega)
    exact ⟨i, ends, set, by omega⟩
  obtain ⟨i, -, set, place⟩ := walk 65 (by omega)
  refine ⟨i, set, place, ?_⟩
  intro fuel enough
  obtain ⟨j, ends, last, same⟩ := walk fuel enough
  obtain rfl : j = i := below_last set last (by omega)
  rw [randomBit, if_neg some_bit, count_bits_eq]
  simp only [chosen, Option.getD_some, ends, Option.bind_eq_bind, Option.bind_some, Nat.add_sub_cancel]

theorem random_bit_single (some_bit : mask ≠ 0#64) (draw : Nat) :
    ∃ i, mask.getLsbD i = true ∧ ∀ fuel, 65 ≤ fuel → randomBit fuel mask draw = some (1#64 <<< i) := by
  have positive := bits_positive some_bit
  obtain ⟨r, chosen, low, high⟩ :=
    random_range_bounds (show (1 : Int) ≤ below mask 64 by omega) draw
  have whole : r = ((r.toNat : Nat) : Int) := by omega
  rw [whole] at chosen
  obtain ⟨i, set, -, returns⟩ := random_bit_at some_bit (by omega) (by omega) chosen
  exact ⟨i, set, returns⟩

theorem random_bit_hits {i : Nat} (set : mask.getLsbD i = true) :
    ∃ draw, draw < 2147483648 ∧ ∀ fuel, 65 ≤ fuel → randomBit fuel mask draw = some (1#64 <<< i) := by
  have some_bit : mask ≠ 0#64 := by
    rintro rfl
    simp at set
  have inside := BitVec.lt_of_getLsbD set
  have counted := below_succ mask i
  rw [if_pos set] at counted
  have bound : below mask (i + 1) ≤ below mask 64 := Nat.count_monotone _ (by omega)
  have few : below mask 64 ≤ 64 := Nat.count_le _
  have chosen := random_range_hits (show (1 : Int) ≤ (below mask (i + 1) : Nat) by omega)
    (show ((below mask (i + 1) : Nat) : Int) ≤ below mask 64 by omega)
  obtain ⟨j, last, same, returns⟩ := random_bit_at some_bit (by omega) bound chosen
  obtain rfl : j = i := below_last set last same
  exact ⟨_, by omega, returns⟩

end counting

section methods

def Chosen (currMask : BitVec 64) (types result : BitVec 32) : Prop :=
  (result &&& types = 0#32 ∧ currMask &&& types.signExtend 64 = 0#64) ∨
  ∃ i, currMask.getLsbD i = true ∧ types.getLsbD i = true ∧ result &&& types = 1#32 <<< i

/-- Outside `bits` the result is the low half of the mask. -/
def KeepsOthers (currMask : BitVec 64) (bits result : BitVec 32) : Prop :=
  result &&& ~~~bits = currMask.setWidth 32 &&& ~~~bits

theorem random_bit_group (currMask : BitVec 64) {types : BitVec 32} (plain : types.msb = false)
    (draw : Nat) : ∃ bit, (∀ fuel, 65 ≤ fuel → randomBit fuel (currMask &&& types.signExtend 64) draw = some bit) ∧
      bit.setWidth 32 &&& ~~~types = 0#32 ∧ Chosen currMask types (bit.setWidth 32) := by
  by_cases empty : currMask &&& types.signExtend 64 = 0#64
  · refine ⟨0#64, ?_, by simp, .inl ⟨by simp, empty⟩⟩
    intro fuel _
    rw [randomBit, if_pos empty]
  · obtain ⟨i, set, returns⟩ := random_bit_single empty draw
    have parts : currMask.getLsbD i = true ∧ types.getLsbD i = true := by
      rw [BitVec.signExtend_eq_setWidth_of_msb_false plain] at set
      simp only [BitVec.getLsbD_and, BitVec.getLsbD_setWidth, Bool.and_eq_true] at set
      exact ⟨set.1, set.2.2⟩
    have low := BitVec.lt_of_getLsbD parts.2
    have cut : (1#64 <<< i).setWidth 32 = BitVec.twoPow 32 i := by
      rw [BitVec.twoPow_eq]
      apply BitVec.eq_of_getLsbD_eq
      intro k inside
      simp [inside]
    refine ⟨_, returns, ?_, .inr ⟨i, parts.1, parts.2, ?_⟩⟩
    · rw [cut, BitVec.twoPow_and]
      simp [low, parts.2]
    · rw [cut, BitVec.twoPow_and, if_pos parts.2, BitVec.twoPow_eq]

theorem methods_drawn_eq {fuel : Nat} {currMask io wait : BitVec 64} {ioDraw waitDraw : Nat}
    (ioReturns : randomBit fuel (currMask &&& lioIoTypes.signExtend 64) ioDraw = some io)
    (waitReturns : randomBit fuel (currMask &&& lioWaitTypes.signExtend 64) waitDraw = some wait) :
    lioRandomMethodsDrawn fuel currMask ioDraw waitDraw =
      some (lioRandomMethods (currMask.setWidth 32) (io.setWidth 32) (wait.setWidth 32)) := by
  have narrow : ∀ x : BitVec 32, (x.signExtend 64).setWidth 32 = x := by
    intro x
    apply BitVec.eq_of_getLsbD_eq
    intro k inside
    rw [BitVec.getLsbD_setWidth, BitVec.getLsbD_signExtend, if_pos inside]
    simp [show k < 64 by omega, inside]
  simp only [lioRandomMethodsDrawn, ioReturns, waitReturns, Option.bind_eq_bind, Option.bind_some,
    BitVec.setWidth_or, BitVec.setWidth_and, narrow, lioRandomMethods]

theorem groups_apart (currMask io wait : BitVec 32)
    (io_only : io &&& ~~~lioIoTypes = 0#32) (wait_only : wait &&& ~~~lioWaitTypes = 0#32) :
    lioRandomMethods currMask io wait &&& lioIoTypes = io &&& lioIoTypes ∧
    lioRandomMethods currMask io wait &&& lioWaitTypes = wait &&& lioWaitTypes ∧
    lioRandomMethods currMask io wait &&& ~~~(lioIoTypes ||| lioWaitTypes ||| lioRandom) =
      currMask &&& ~~~(lioIoTypes ||| lioWaitTypes ||| lioRandom) := by
  have apart : lioIoTypes &&& lioWaitTypes = 0#32 := by decide
  refine ⟨?_, ?_, ?_⟩
  all_goals
    apply BitVec.eq_of_getLsbD_eq
    intro k inside
    have io_bit := congrArg (fun word => word.getLsbD k) io_only
    have wait_bit := congrArg (fun word => word.getLsbD k) wait_only
    have either := congrArg (fun word => word.getLsbD k) apart
    simp only [lioRandomMethods, BitVec.getLsbD_and, BitVec.getLsbD_or, BitVec.getLsbD_not,
      BitVec.getLsbD_zero, inside, decide_true, Bool.true_and] at *
    grind

/-- `random_bit` gives one bit of any mask and can give each; `lio_random_methods` keeps what is no
    method bit and not `LIO_RANDOM`, and gives one bit of each group that has one. -/
theorem random_bit_methods :
    (∀ mask : BitVec 64, mask ≠ 0#64 → (∀ draw, ∃ i, mask.getLsbD i = true ∧
        ∀ fuel, 65 ≤ fuel → randomBit fuel mask draw = some (1#64 <<< i)) ∧
      ∀ i, mask.getLsbD i = true → ∃ draw, draw < 2147483648 ∧
        ∀ fuel, 65 ≤ fuel → randomBit fuel mask draw = some (1#64 <<< i)) ∧
    ∀ (currMask : BitVec 64) (ioDraw waitDraw : Nat), ∃ result, (∀ fuel, 65 ≤ fuel →
        lioRandomMethodsDrawn fuel currMask ioDraw waitDraw = some result) ∧
      KeepsOthers currMask (lioIoTypes ||| lioWaitTypes ||| lioRandom) result ∧
      Chosen currMask lioIoTypes result ∧ Chosen currMask lioWaitTypes result := by
  constructor
  · intro mask some_bit
    exact ⟨random_bit_single some_bit, fun i set => random_bit_hits set⟩
  · intro currMask ioDraw waitDraw
    obtain ⟨io, ioReturns, io_only, ioChosen⟩ :=
      random_bit_group currMask (show lioIoTypes.msb = false by decide) ioDraw
    obtain ⟨wait, waitReturns, wait_only, waitChosen⟩ :=
      random_bit_group currMask (show lioWaitTypes.msb = false by decide) waitDraw
    obtain ⟨ioKept, waitKept, others⟩ := groups_apart (currMask.setWidth 32) _ _ io_only wait_only
    refine ⟨_, fun fuel enough => methods_drawn_eq (ioReturns fuel enough) (waitReturns fuel enough), others, ?_, ?_⟩
    · rw [Chosen, ioKept]
      exact ioChosen
    · rw [Chosen, waitKept]
      exact waitChosen

theorem random_cleared :
    lioRandomMethodsDrawn 65 (lioRandom.signExtend 64) 0 0 = some 0#32 ∧
      ¬ KeepsOthers (lioRandom.signExtend 64) (lioIoTypes ||| lioWaitTypes) 0#32 := by
  unfold KeepsOthers
  constructor
  · decide
  · decide

end methods
end VteRandomBit
