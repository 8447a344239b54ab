import Vte.Base.Patterned

/-!
Files whose holes read as zero, in terms of single bytes: what a read gives, what a write and a
truncation change. A byte at or past the end counts as zero.
-/
namespace SparseFile
open Bytes Patterned

/-- `lseek`, which refuses a position before the start. -/
def seek (pos : Int) : Option Nat := if 0 ≤ pos then some pos.toNat else none

/-- `read`: less than `n` bytes where the file ends earlier. -/
def readAt (file : List Byte) (pos n : Nat) : List Byte := (file.drop pos).take n

/-- The `n` bytes from `pos` on are all `v`. -/
def Filled (file : List Byte) (pos n : Nat) (v : Byte) : Prop := ∀ k < n, byteAt file (pos + k) = v

section laws
variable {file ys : List Byte} {pos n : Nat} {v : Byte}

theorem seek_nat (pos : Nat) : seek pos = some pos := by simp [seek]

theorem read_length (file : List Byte) (pos n : Nat) :
    (readAt file pos n).length = min n (file.length - pos) := by
  simp [readAt]

theorem byte_joined (xs ys : List Byte) (k : Nat) :
    byteAt (xs ++ ys) k = if k < xs.length then byteAt xs k else byteAt ys (k - xs.length) := by
  simp only [byteAt, List.getD_eq_getElem?_getD]
  split
  · rename_i inside
    rw [List.getElem?_append_left inside]
  · rename_i past
    rw [List.getElem?_append_right (Nat.le_of_not_lt past)]

theorem byte_take (xs : List Byte) (n k : Nat) :
    byteAt (xs.take n) k = if k < n then byteAt xs k else 0 := by
  simp only [byteAt, List.getD_eq_getElem?_getD, List.getElem?_take]
  split <;> rfl

theorem byte_drop (xs : List Byte) (n k : Nat) : byteAt (xs.drop n) k = byteAt xs (n + k) := by
  simp only [byteAt, List.getD_eq_getElem?_getD, List.getElem?_drop]

theorem byte_replicate (n : Nat) (v : Byte) (k : Nat) :
    byteAt (List.replicate n v) k = if k < n then v else 0 := by
  simp only [byteAt, List.getD_eq_getElem?_getD, List.getElem?_replicate]
  split <;> rfl

theorem byte_read {k : Nat} (low : k < n) : byteAt (readAt file pos n) k = byteAt file (pos + k) := by
  rw [readAt, byte_take, if_pos low, byte_drop]

theorem byte_write (file : List Byte) (pos : Nat) (ys : List Byte) (k : Nat) :
    byteAt (writeAt 0 file pos ys) k =
      if pos ≤ k ∧ k < pos + ys.length then byteAt ys (k - pos) else byteAt file k := by
  have reaches : min pos file.length + (pos - file.length) = pos := by omega
  simp only [writeAt, byte_joined, List.length_append, List.length_replicate, List.length_take,
    reaches, byte_take, byte_replicate, byte_drop]
  by_cases before : k < pos
  · have outside : ¬ (pos ≤ k ∧ k < pos + ys.length) := by omega
    rw [if_pos (by omega), if_pos before, if_neg outside, if_pos before]
    split
    · rfl
    · rename_i past
      rw [ite_self, byte_at_beyond (by omega)]
  · by_cases inside : k < pos + ys.length
    · rw [if_pos inside, if_neg before, if_pos ⟨by omega, inside⟩]
    · rw [if_neg inside, if_neg (by omega)]
      congr 1
      omega

theorem byte_resize (file : List Byte) (n k : Nat) :
    byteAt (resize 0 file n) k = if k < n then byteAt file k else 0 := by
  simp only [resize, byte_joined, byte_take, byte_replicate, ite_self, List.length_take]
  split
  · rfl
  · rename_i past
    split
    · rw [byte_at_beyond (by omega)]
    · rfl

theorem filled_beyond (beyond : file.length ≤ pos) (n : Nat) : Filled file pos n 0 := by
  intro k _
  exact byte_at_beyond (by omega)

theorem read_filled (inside : pos + n ≤ file.length) :
    readAt file pos n = List.replicate n v ↔ Filled file pos n v := by
  constructor
  · intro same k low
    rw [← byte_read low, same, byte_replicate, if_pos low]
  · intro filled
    have wide : (readAt file pos n).length = n := by
      rw [read_length]
      omega
    apply List.ext_getElem
    · rw [wide, List.length_replicate]
    · intro k low _
      have byte : byteAt (readAt file pos n) k = byteAt file (pos + k) := byte_read (wide ▸ low)
      rw [filled k (wide ▸ low)] at byte
      rw [List.getElem_replicate, ← byte, byte_at_inside low]

theorem filled_write (file : List Byte) (pos n : Nat) (v : Byte) :
    Filled (writeAt 0 file pos (List.replicate n v)) pos n v := by
  intro k low
  rw [byte_write, if_pos (by simp; omega), Nat.add_sub_cancel_left, byte_replicate, if_pos low]

theorem filled_write_apart {place : Nat} (apart : pos + n ≤ place ∨ place + ys.length ≤ pos) :
    Filled (writeAt 0 file place ys) pos n v ↔ Filled file pos n v := by
  refine forall_congr' fun k => forall_congr' fun low => ?_
  rw [byte_write, if_neg (by omega)]

theorem filled_resize_below {size : Nat} (below : pos + n ≤ size) :
    Filled (resize 0 file size) pos n v ↔ Filled file pos n v := by
  refine forall_congr' fun k => forall_congr' fun low => ?_
  rw [byte_resize, if_pos (by omega)]

end laws

section blocks
variable {a b size c : Nat}

theorem block_before (less : a < b) (c : Nat) : a * c + c ≤ b * c := by
  have next : (a + 1) * c ≤ b * c := Nat.mul_le_mul_right c less
  rwa [Nat.succ_mul] at next

theorem blocks_apart (other : a ≠ b) (c : Nat) : a * c + c ≤ b * c ∨ b * c + c ≤ a * c := by
  rcases Nat.lt_or_gt_of_ne other with less | more
  · exact .inl (block_before less c)
  · exact .inr (block_before more c)

theorem block_whole (whole : c ∣ size) (below : a * c < size) : a * c + c ≤ size := by
  obtain ⟨n, rfl⟩ := whole
  rw [Nat.mul_comm c n] at below ⊢
  exact block_before (Nat.lt_of_mul_lt_mul_right below) c

theorem grown_whole (whole : c ∣ size) (a : Nat) : c ∣ max size (a * c + c) := by
  rcases Nat.le_total size (a * c + c) with low | high
  · rw [Nat.max_eq_right low, ← Nat.succ_mul]
    exact Nat.dvd_mul_left _ _
  · rw [Nat.max_eq_left high]
    exact whole

end blocks
end SparseFile
