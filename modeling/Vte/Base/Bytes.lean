import Mathlib.Data.List.Basic

/-!
Bytes, bit-fields of 32-bit storage units, and positioned writes into a byte list.
A unit is stored with its low byte first; a field occupies consecutive bits of one unit.
-/
namespace Bytes

abbrev Byte := BitVec 8
abbrev Unit32 := BitVec 32

structure Field (width : Nat) where
  lo : Nat
  inside : lo + width ≤ 32

section fields
variable {m n : Nat}

def Field.get (f : Field n) (u : Unit32) : BitVec n := u.extractLsb' f.lo n

def Field.mask (f : Field n) : Unit32 := (BitVec.allOnes n).setWidth 32 <<< f.lo

def Field.set (f : Field n) (u : Unit32) (v : BitVec n) : Unit32 :=
  (u &&& ~~~ f.mask) ||| (v.setWidth 32 <<< f.lo)

def Field.Apart (f : Field m) (g : Field n) : Prop := f.lo + m ≤ g.lo ∨ g.lo + n ≤ f.lo

theorem field_mask_bit (f : Field n) (i : Nat) :
    f.mask.getLsbD i = (decide (f.lo ≤ i) && decide (i < f.lo + n)) := by
  have inside := f.inside
  simp only [Field.mask, BitVec.getLsbD_shiftLeft, BitVec.getLsbD_setWidth, BitVec.getLsbD_allOnes]
  by_cases low : f.lo ≤ i <;> by_cases high : i < f.lo + n <;> simp [low, high] <;> omega

theorem field_set_bit (f : Field n) (u : Unit32) (v : BitVec n) (i : Nat) (hi : i < 32) :
    (f.set u v).getLsbD i =
      if f.lo ≤ i ∧ i < f.lo + n then v.getLsbD (i - f.lo) else u.getLsbD i := by
  simp only [Field.set, BitVec.getLsbD_or, BitVec.getLsbD_and, BitVec.getLsbD_not,
    field_mask_bit, BitVec.getLsbD_shiftLeft, BitVec.getLsbD_setWidth]
  by_cases low : f.lo ≤ i
  · by_cases high : i < f.lo + n
    · have small : i - f.lo < 32 := by omega
      simp [low, high, hi, small, Nat.not_lt.mpr low]
    · have past : v.getLsbD (i - f.lo) = false := BitVec.getLsbD_of_ge _ _ (by omega)
      simp [low, high, hi, past]
  · simp [low, hi, Nat.lt_of_not_le low]

@[simp] theorem field_get_set (f : Field n) (u : Unit32) (v : BitVec n) :
    f.get (f.set u v) = v := by
  have inside := f.inside
  apply BitVec.eq_of_getLsbD_eq
  intro i hi
  rw [Field.get, BitVec.getLsbD_extractLsb', field_set_bit f u v _ (by omega)]
  simp [hi]

theorem field_get_set_apart (f : Field m) (g : Field n) (apart : f.Apart g) (u : Unit32)
    (v : BitVec n) : f.get (g.set u v) = f.get u := by
  have inside := f.inside
  apply BitVec.eq_of_getLsbD_eq
  intro i hi
  have outside : ¬ (g.lo ≤ f.lo + i ∧ f.lo + i < g.lo + n) := by
    rcases apart with before | after <;> omega
  simp only [Field.get, BitVec.getLsbD_extractLsb']
  rw [field_set_bit g u v _ (by omega), if_neg outside]

end fields

def unitBytes (u : Unit32) : List Byte :=
  [u.extractLsb' 0 8, u.extractLsb' 8 8, u.extractLsb' 16 8, u.extractLsb' 24 8]

def byteAt (bs : List Byte) (i : Nat) : Byte := bs.getD i 0

def unitAt (bs : List Byte) (i : Nat) : Unit32 :=
  byteAt bs (i + 3) ++ byteAt bs (i + 2) ++ byteAt bs (i + 1) ++ byteAt bs i

@[simp] theorem unit_bytes_length (u : Unit32) : (unitBytes u).length = 4 := rfl

theorem unit_at_bytes (u : Unit32) (bs : List Byte) : unitAt (unitBytes u ++ bs) 0 = u := by
  apply BitVec.eq_of_getLsbD_eq
  intro i hi
  simp only [unitAt, unitBytes, byteAt, List.cons_append, List.nil_append, Nat.zero_add,
    List.getD_cons_zero, List.getD_cons_succ, BitVec.getLsbD_append,
    BitVec.getLsbD_extractLsb']
  by_cases b0 : i < 8
  · simp [b0]
  · by_cases b1 : i < 16
    · have at1 : 8 + (i - 8) = i := by omega
      simp [b0, at1, show i - 8 < 8 by omega]
    · by_cases b2 : i < 24
      · have at2 : 16 + (i - 8 - 8) = i := by omega
        simp [b0, at2, show ¬ i - 8 < 8 by omega, show i - 8 - 8 < 8 by omega]
      · have at3 : 24 + (i - 8 - 8 - 8) = i := by omega
        simp [b0, at3, show ¬ i - 8 < 8 by omega, show ¬ i - 8 - 8 < 8 by omega, show i - 8 - 8 - 8 < 8 by omega]

theorem byte_at_inside {bs : List Byte} {i : Nat} (inside : i < bs.length) :
    byteAt bs i = bs[i] := by
  simp [byteAt, inside]

theorem byte_at_beyond {bs : List Byte} {i : Nat} (beyond : bs.length ≤ i) : byteAt bs i = 0 := by
  simp [byteAt, beyond]

theorem byte_at_append (pre bs : List Byte) (i : Nat) :
    byteAt (pre ++ bs) (pre.length + i) = byteAt bs i := by
  simp [byteAt, List.getD_eq_getElem?_getD, List.getElem?_append_right]

theorem unit_at_append (pre bs : List Byte) (i : Nat) :
    unitAt (pre ++ bs) (pre.length + i) = unitAt bs i := by
  simp only [unitAt, Nat.add_assoc, byte_at_append]

variable {α : Type}

/-- A write of `ys` at position `pos`; a gap before `pos` is filled. -/
def writeAt (fill : α) (xs : List α) (pos : Nat) (ys : List α) : List α :=
  xs.take pos ++ List.replicate (pos - xs.length) fill ++ ys ++ xs.drop (pos + ys.length)

theorem write_at_length (fill : α) (xs : List α) (pos : Nat) (ys : List α) :
    (writeAt fill xs pos ys).length = max xs.length (pos + ys.length) := by
  simp [writeAt]
  omega

theorem write_at_append (fill : α) (pre rest ys : List α) :
    writeAt fill (pre ++ rest) pre.length ys = pre ++ ys ++ rest.drop ys.length := by
  simp [writeAt, List.drop_append]

theorem write_at_middle (fill : α) (pre old new post : List α) (same : new.length = old.length) :
    writeAt fill (pre ++ old ++ post) pre.length new = pre ++ new ++ post := by
  rw [List.append_assoc, write_at_append, same, List.drop_left]

/-- Copies `n` bytes of `src` into `dst` at `pos`; undefined when it leaves either array. -/
def memcpy (dst : List Byte) (pos : Nat) (src : List Byte) (n : Nat) : Option (List Byte) :=
  if n ≤ src.length ∧ pos + n ≤ dst.length then some (writeAt 0 dst pos (src.take n)) else none

theorem memcpy_append (pre rest src : List Byte) (n : Nat) (readable : n ≤ src.length)
    (room : n ≤ rest.length) :
    memcpy (pre ++ rest) pre.length src n = some (pre ++ src.take n ++ rest.drop n) := by
  have inside : n ≤ src.length ∧ pre.length + n ≤ (pre ++ rest).length := by
    refine ⟨readable, ?_⟩
    simp only [List.length_append]
    omega
  rw [memcpy, if_pos inside, write_at_append, List.length_take, Nat.min_eq_left readable]

/-- The same copy into a cleared array of `n` bytes. -/
def zeroedCopy (n : Nat) (src : List Byte) (len : Nat) : Option (Vector Byte n) :=
  if fits : len ≤ n ∧ len ≤ src.length then
    some ⟨(src.take len ++ List.replicate (n - len) 0).toArray, by simp; omega⟩
  else none

theorem zeroed_copy_take {n : Nat} {src : List Byte} {len : Nat} {out : Vector Byte n}
    (copied : zeroedCopy n src len = some out) : out.toList.take len = src.take len := by
  unfold zeroedCopy at copied
  split at copied
  · rename_i fits
    obtain rfl := Option.some.inj copied
    have exact : (src.take len).length = len := by simp [fits.2]
    simp [Vector.toList, List.take_append_of_le_length (Nat.le_of_eq exact.symm), List.take_take]
  · cases copied

theorem zeroed_copy_append {n len : Nat} {src : List Byte} (rest : List Byte)
    (full : src.length = len) : zeroedCopy n (src ++ rest) len = zeroedCopy n src len := by
  have readable : len ≤ src.length := Nat.le_of_eq full.symm
  have taken : (src ++ rest).take len = src.take len := List.take_append_of_le_length readable
  have more : len ≤ (src ++ rest).length := by rw [List.length_append]; omega
  unfold zeroedCopy
  by_cases room : len ≤ n
  · rw [dif_pos ⟨room, more⟩, dif_pos ⟨room, readable⟩]
    simp only [taken]
  · rw [dif_neg (fun h => room h.1), dif_neg (fun h => room h.1)]

theorem zeroed_copy_isSome {n : Nat} {src : List Byte} {len : Nat} (room : len ≤ n)
    (readable : len ≤ src.length) : ∃ out, zeroedCopy n src len = some out :=
  ⟨_, dif_pos ⟨room, readable⟩⟩

end Bytes
