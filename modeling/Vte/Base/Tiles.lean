import Mathlib.Data.List.Basic
import Vte.Base.Bytes
import Vte.Base.Patterned

/-!
Lists laid out as tiles of one size, where the tile at an address is a function of the address.
-/
namespace Tiles
open Bytes Patterned
variable {α : Type}

/-- The tiles of `n` consecutive addresses. -/
def lay (f : Int → List α) : Nat → Int → List α
  | 0, _ => []
  | n + 1, a => f a ++ lay f n (a + 1)

def tile (size : Nat) (xs : List α) (k : Nat) : List α := (xs.drop (k * size)).take size

section layout
variable {f g : Int → List α} {size : Nat}

theorem lay_length (all : ∀ a, (f a).length = size) (n : Nat) :
    ∀ a, (lay f n a).length = n * size := by
  induction n with
  | zero =>
    intro a
    simp [lay]
  | succ n ih =>
    intro a
    rw [lay, List.length_append, all, ih, Nat.succ_mul, Nat.add_comm]

theorem lay_add (m n : Nat) : ∀ a, lay f (m + n) a = lay f m a ++ lay f n (a + m) := by
  induction m with
  | zero =>
    intro a
    simp [lay]
  | succ m ih =>
    intro a
    have next : a + 1 + (m : Int) = a + (m + 1 : Nat) := by omega
    rw [Nat.succ_add, lay, lay, ih, List.append_assoc, next]

theorem lay_last (n : Nat) (a : Int) : lay f (n + 1) a = lay f n a ++ f (a + n) := by
  rw [lay_add, lay, lay, List.append_nil]

theorem lay_congr {n : Nat} : ∀ {a : Int}, (∀ i < n, f (a + i) = g (a + i)) → lay f n a = lay g n a := by
  induction n with
  | zero =>
    intro a same
    rfl
  | succ n ih =>
    intro a same
    have first := same 0 (by omega)
    have rest : lay f n (a + 1) = lay g n (a + 1) := by
      apply ih
      intro i inside
      have place : a + 1 + (i : Int) = a + (i + 1 : Nat) := by omega
      rw [place]
      exact same (i + 1) (by omega)
    have here : a + (0 : Nat) = a := by omega
    rw [here] at first
    rw [lay, lay, first, rest]

theorem lay_const (xs : List α) (n : Nat) :
    ∀ a, lay (fun _ => xs) n a = (List.replicate n xs).flatten := by
  induction n with
  | zero =>
    intro a
    rfl
  | succ n ih =>
    intro a
    rw [lay, ih, List.replicate_succ, List.flatten_cons]

theorem tile_lay (all : ∀ a, (f a).length = size) {k n : Nat} (inside : k < n) (a : Int)
    (rest : List α) : tile size (lay f n a ++ rest) k = f (a + k) := by
  obtain ⟨m, rfl⟩ := Nat.exists_eq_add_of_lt inside
  have before := lay_length all k a
  have count : k + m + 1 = k + (m + 1) := by omega
  rw [tile, count, lay_add, List.append_assoc, ← before, List.drop_left, lay, List.append_assoc,
    ← all (a + k), List.take_left]

theorem lay_take (all : ∀ a, (f a).length = size) {k n : Nat} (inside : k ≤ n) (a : Int) :
    (lay f n a).take (k * size) = lay f k a := by
  obtain ⟨m, rfl⟩ := Nat.exists_eq_add_of_le inside
  rw [lay_add, ← lay_length all k a, List.take_left]

theorem generate_lay {f : Nat → α} (repeats : ∀ i, f (i + size) = f i) (n : Nat) :
    ∀ a, generate f (n * size) 0 = lay (fun _ => generate f size 0) n a := by
  have again : ∀ k i, f (k * size + i) = f i := by
    intro k
    induction k with
    | zero =>
      intro i
      simp
    | succ k ih =>
      intro i
      have order : (k + 1) * size + i = k * size + i + size := by rw [Nat.succ_mul]; omega
      rw [order, repeats, ih]
  induction n with
  | zero =>
    intro a
    simp [generate, lay]
  | succ n ih =>
    intro a
    have before := ih a
    simp only [generate, Nat.zero_add] at before ⊢
    rw [Nat.succ_mul, List.range_add, List.map_append, List.map_map, lay_last, before]
    congr 1
    apply List.map_congr_left
    intro i _
    exact again n i

theorem flatten_lay (word : List α) (words n : Nat) : ∀ a, (List.replicate (n * words) word).flatten =
      lay (fun _ => (List.replicate words word).flatten) n a := by
  induction n with
  | zero =>
    intro a
    simp [lay]
  | succ n ih =>
    intro a
    rw [Nat.succ_mul, List.replicate_add, List.flatten_append, ih a, lay_last]

end layout

/-! A store that stays inside one part of a buffer is a store into that part. -/
section inside
variable {pre part post src : List Byte}

theorem write_at_inside (fill : α) (pre part post ys : List α) (off : Nat)
    (room : off + ys.length ≤ part.length) :
    writeAt fill (pre ++ part ++ post) (pre.length + off) ys = pre ++ writeAt fill part off ys ++ post := by
  have front : pre.length + off - (pre ++ part ++ post).length = 0 := by
    simp only [List.length_append]
    omega
  have none : off - part.length = 0 := by omega
  have place : pre.length + off + ys.length = pre.length + (off + ys.length) := by omega
  have short : off ≤ part.length := by omega
  rw [writeAt, writeAt, front, none, place, List.append_assoc pre, List.take_length_add_append,
    List.drop_length_add_append, List.take_append_of_le_length short,
    List.drop_append_of_le_length room]
  simp

theorem memcpy_inside {off n : Nat} (readable : n ≤ src.length) (room : off + n ≤ part.length) :
    memcpy (pre ++ part ++ post) (pre.length + off) src n = some (pre ++ writeAt 0 part off (src.take n) ++ post) := by
  have fits : n ≤ src.length ∧ pre.length + off + n ≤ (pre ++ part ++ post).length := by
    constructor
    · exact readable
    · simp only [List.length_append]
      omega
  have taken : (src.take n).length = n := by simp [readable]
  rw [memcpy, if_pos fits, write_at_inside 0 _ _ _ _ _ (by omega)]

end inside
end Tiles
