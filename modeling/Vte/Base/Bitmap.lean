import Mathlib.Data.List.Basic
import Vte.Base.Bytes

/-!
Sets of numbers as the bits of a byte array. An operation on a byte outside the array has no result.
-/
namespace Bitmap
open Bytes

def mask (j : Nat) : Byte := 1#8 <<< (j % 8)

/-- Whether `j` is in the set; nothing outside the array is. -/
def marked (bits : List Byte) (j : Nat) : Bool := (byteAt bits (j / 8)).getLsbD (j % 8)

def testBit (bits : List Byte) (j : Nat) : Option Bool :=
  bits[j / 8]?.map fun b => decide (b &&& mask j ≠ 0)

def modify (bits : List Byte) (i : Nat) (f : Byte → Byte) : Option (List Byte) :=
  bits[i]?.map fun b => bits.set i (f b)

def setBit (bits : List Byte) (j : Nat) : Option (List Byte) := modify bits (j / 8) (· ||| mask j)

def clearBit (bits : List Byte) (j : Nat) : Option (List Byte) :=
  modify bits (j / 8) (· &&& ~~~ mask j)

def clearByte (bits : List Byte) (j : Nat) : Option (List Byte) := modify bits (j / 8) fun _ => 0

/-- `while (size-- > 0) *hold++ |= *bits++;` -/
def orBits : Nat → List Byte → List Byte → Option (List Byte)
  | 0, hold, _ => some hold
  | size + 1, h :: hold, b :: bits => (orBits size hold bits).map ((h ||| b) :: ·)
  | _ + 1, _, _ => none

section laws
variable {bits : List Byte} {i j : Nat}

theorem mask_bit (j k : Nat) :
    (mask j).getLsbD k = decide (k = j % 8) := by
  rw [mask, BitVec.getLsbD_shiftLeft, BitVec.getLsbD_one]
  by_cases same : k = j % 8
  · simp [same, Nat.mod_lt]
  · by_cases low : k < j % 8
    · simp [same, low]
    · have apart : k - j % 8 ≠ 0 := by omega
      simp [same, apart]

theorem byte_at_set (inside : i < bits.length) (b : Byte) (k : Nat) :
    byteAt (bits.set i b) k = if i = k then b else byteAt bits k := by
  by_cases same : i = k
  · subst same
    rw [byte_at_inside (by rwa [List.length_set]), List.getElem_set_self, if_pos rfl]
  · simp [byteAt, same]

theorem marked_beyond (beyond : 8 * bits.length ≤ j) : marked bits j = false := by
  rw [marked, byte_at_beyond (by omega)]
  simp

theorem test_bit_some (inside : j / 8 < bits.length) : testBit bits j = some (marked bits j) := by
  have low : j % 8 < 8 := Nat.mod_lt j (by decide)
  rw [testBit, marked, byte_at_inside inside, List.getElem?_eq_getElem inside, Option.map_some]
  congr 1
  cases found : (bits[j / 8]).getLsbD (j % 8) with
  | true =>
    refine decide_eq_true fun zero => ?_
    have bit := congrArg (fun b => BitVec.getLsbD b (j % 8)) zero
    simp [BitVec.getLsbD_and, found, mask_bit] at bit
  | false =>
    refine decide_eq_false (not_not_intro ?_)
    apply BitVec.eq_of_getLsbD_eq
    intro k inside
    rw [BitVec.getLsbD_and, mask_bit]
    by_cases same : k = j % 8
    · simp [same, found]
    · simp [same]

theorem modify_some (f : Byte → Byte) (inside : i < bits.length) :
    modify bits i f = some (bits.set i (f (byteAt bits i))) := by
  rw [modify, byte_at_inside inside, List.getElem?_eq_getElem inside, Option.map_some]

theorem marked_set (f : Byte → Byte) (inside : i < bits.length) (k : Nat) :
    marked (bits.set i (f (byteAt bits i))) k =
      if i = k / 8 then (f (byteAt bits (k / 8))).getLsbD (k % 8) else marked bits k := by
  rw [marked, byte_at_set inside]
  by_cases same : i = k / 8
  · rw [if_pos same, if_pos same, same]
  · rw [if_neg same, if_neg same, marked]

theorem set_bit_some (inside : j / 8 < bits.length) :
    ∃ after, setBit bits j = some after ∧ after.length = bits.length ∧
      ∀ k, marked after k = (marked bits k || decide (k = j)) := by
  refine ⟨_, modify_some _ inside, List.length_set, fun k => ?_⟩
  rw [marked_set (· ||| mask j) inside]
  split
  · rename_i same
    rw [BitVec.getLsbD_or, mask_bit, ← marked]
    have iff : k % 8 = j % 8 ↔ k = j := by omega
    rw [decide_eq_decide.mpr iff]
  · have other : k ≠ j := by omega
    simp [other]

theorem clear_bit_some (inside : j / 8 < bits.length) :
    ∃ after, clearBit bits j = some after ∧ after.length = bits.length ∧
      ∀ k, marked after k = (marked bits k && decide (k ≠ j)) := by
  refine ⟨_, modify_some _ inside, List.length_set, fun k => ?_⟩
  have low : k % 8 < 8 := Nat.mod_lt k (by decide)
  rw [marked_set (· &&& ~~~ mask j) inside]
  split
  · rename_i same
    rw [BitVec.getLsbD_and, BitVec.getLsbD_not, mask_bit, ← marked]
    have iff : k % 8 = j % 8 ↔ k = j := by omega
    simp [iff, low]
  · have other : k ≠ j := by omega
    simp [other]

theorem clear_byte_some (inside : j / 8 < bits.length) :
    ∃ after, clearByte bits j = some after ∧ after.length = bits.length ∧
      ∀ k, marked after k = (marked bits k && decide (k / 8 ≠ j / 8)) := by
  refine ⟨_, modify_some _ inside, List.length_set, fun k => ?_⟩
  rw [marked_set (fun _ => 0) inside]
  split
  · rename_i same
    simp [same]
  · rename_i other
    simp [Ne.symm other]

theorem marked_zeros (n j : Nat) : marked (List.replicate n 0) j = false := by
  by_cases inside : j / 8 < n
  · rw [marked, byte_at_inside (by rwa [List.length_replicate]), List.getElem_replicate]
    simp
  · rw [marked, byte_at_beyond (by simp; omega)]
    simp

theorem or_bits_some (size : Nat) {hold : List Byte} (wide : size ≤ hold.length)
    (read : size ≤ bits.length) :
    ∃ after, orBits size hold bits = some after ∧ after.length = hold.length := by
  induction size generalizing hold bits with
  | zero => exact ⟨hold, rfl, rfl⟩
  | succ size ih =>
    cases hold with
    | nil => simp at wide
    | cons h hold =>
      cases bits with
      | nil => simp at read
      | cons b bits =>
        obtain ⟨after, done, same⟩ := ih (Nat.le_of_succ_le_succ wide) (Nat.le_of_succ_le_succ read)
        refine ⟨(h ||| b) :: after, ?_, ?_⟩
        · rw [orBits, done, Option.map_some]
        · rw [List.length_cons, List.length_cons, same]

end laws

/-- How many of the numbers below `n` are in the set. -/
def population (bits : List Byte) (n : Nat) : Nat := (List.range n).countP (marked bits)

section counting
variable {bits after : List Byte} {j n : Nat}

theorem population_succ (bits : List Byte) (n : Nat) :
    population bits (n + 1) = population bits n + if marked bits n then 1 else 0 := by
  rw [population, List.range_succ, List.countP_append, List.countP_singleton, population]

theorem population_le (bits : List Byte) (n : Nat) : population bits n ≤ n := by
  have bound := List.countP_le_length (p := marked bits) (l := List.range n)
  rwa [List.length_range] at bound

theorem population_zeros (m n : Nat) : population (List.replicate m 0) n = 0 := by
  rw [population, List.countP_eq_zero]
  intro k _
  rw [marked_zeros]
  exact Bool.false_ne_true

theorem population_full (full : n ≤ population bits n) : ∀ k < n, marked bits k = true := by
  have all : population bits n = (List.range n).length := by
    rw [List.length_range]
    exact Nat.le_antisymm (population_le bits n) full
  rw [population, List.countP_eq_length] at all
  intro k low
  exact all k (List.mem_range.mpr low)

theorem population_add (added : ∀ k, marked after k = (marked bits k || decide (k = j)))
    (fresh : marked bits j = false) (n : Nat) :
    population after n = population bits n + if j < n then 1 else 0 := by
  induction n with
  | zero => rfl
  | succ n ih =>
    rw [population_succ, population_succ, ih, added]
    by_cases last : n = j
    · subst last
      simp [fresh]
    · have same : j < n + 1 ↔ j < n := by omega
      simp only [last, decide_false, Bool.or_false, same]
      omega

end counting
end Bitmap
