import Mathlib.Data.List.Range
import Mathlib.Data.Nat.ModEq
import Mathlib.Tactic.Common

/-!
A file taken in blocks of one size, the last of them shorter where the size does not divide the length: each
byte is in exactly one block.
-/
namespace FileBlocks
variable {w n b i k : Nat}

abbrev Piece := Nat × Nat

/-- The piece holds the byte at offset `b`. -/
def covers (b : Nat) (p : Piece) : Bool := decide (p.1 ≤ b ∧ b < p.1 + p.2)

/-- The blocks of `w` bytes that `n` bytes take. -/
def howmany (n w : Nat) : Nat := (n + (w - 1)) / w

def block (w n i : Nat) : Piece := (i * w, min w (n - i * w))

def blocks (w n k : Nat) : List Piece := (List.range k).map (block w n)

theorem blocks_succ (w n k : Nat) : blocks w n (k + 1) = blocks w n k ++ [block w n k] := by
  simp [blocks, List.range_succ]

theorem blocks_length (w n k : Nat) : (blocks w n k).length = k := by simp [blocks]

theorem lt_howmany (some_size : 0 < w) : i < howmany n w ↔ i * w < n := by
  rw [howmany, Nat.lt_div_iff_mul_lt some_size]
  omega

theorem howmany_le (some_size : 0 < w) : howmany n w ≤ k ↔ n ≤ k * w := by
  rw [← Nat.not_lt, ← Nat.not_lt, lt_howmany some_size]

theorem howmany_rest (some_size : 0 < w) (inside : k * w ≤ n) :
    howmany (n - k * w) w = howmany n w - k := by
  apply Nat.le_antisymm
  · rw [howmany_le some_size, Nat.sub_mul]
    have whole := (howmany_le some_size).mp (Nat.le_refl (howmany n w))
    omega
  · rw [Nat.sub_le_iff_le_add, howmany_le some_size, Nat.add_mul]
    have rest := (howmany_le some_size).mp (Nat.le_refl (howmany (n - k * w) w))
    omega

theorem block_end (w n i : Nat) (inside : i * w ≤ n) : (block w n i).1 + (block w n i).2 ≤ n := by
  rw [block]
  omega

theorem block_whole (inside : i * w + w ≤ n) : block w n i = (i * w, w) := by
  rw [block, Nat.min_eq_left (by omega)]

theorem howmany_exact (some_size : 0 < w) (whole : k * w = n) : howmany n w = k := by
  apply Nat.le_antisymm
  · exact (howmany_le some_size).mpr (Nat.le_of_eq whole.symm)
  · have ends := (howmany_le some_size).mp (Nat.le_refl (howmany n w))
    rw [← whole] at ends ⊢
    exact Nat.le_of_mul_le_mul_right ends some_size

theorem covers_block (inside : b < n) (i : Nat) :
    covers b (block w n i) = true ↔ i * w ≤ b ∧ b < i * w + w := by
  rw [covers, decide_eq_true_iff, block]
  omega

theorem count_range (some_size : 0 < w) (inside : b < n) (k : Nat) :
    (blocks w n k).countP (covers b) = if b / w < k then 1 else 0 := by
  induction k with
  | zero => simp [blocks]
  | succ k ih =>
    have here : covers b (block w n k) = true ↔ b / w = k := by
      rw [covers_block inside, ← Nat.succ_mul, Nat.div_eq_iff some_size, Nat.succ_mul]
      omega
    rw [blocks_succ, List.countP_append, ih, List.countP_singleton]
    by_cases last : b / w = k
    · rw [if_pos (here.mpr last), if_neg (by omega), if_pos (by omega)]
    · rw [if_neg fun covered => last (here.mp covered), Nat.add_zero]
      exact if_congr (by omega) rfl rfl

theorem blocks_once (some_size : 0 < w) (inside : b < n) :
    (blocks w n (howmany n w)).countP (covers b) = 1 := by
  rw [count_range some_size inside, if_pos]
  rw [lt_howmany some_size]
  exact Nat.lt_of_le_of_lt (Nat.div_mul_le_self b w) inside

end FileBlocks
