import Mathlib.Algebra.BigOperators.Group.List.Basic
import Mathlib.Algebra.Order.Ring.Nat
import Vte.Base.Bytes

/-!
One's complement sums of 16-bit words and the checksum of RFC 1071: bytes are taken in pairs, the
first of a pair as the high byte, an odd last one with a zero behind it. A sum of the words with their
bytes exchanged is the sum with its bytes exchanged, so that a host may add in its own byte order.
-/
namespace OnesComplement
open Bytes

def add (a b : Nat) : Nat := if a + b < 65536 then a + b else a + b - 65535

def sum (words : List Nat) : Nat := words.foldl add 0

def reduce (n : Nat) : Nat := if n = 0 then 0 else (n - 1) % 65535 + 1

def swap (word : Nat) : Nat := word % 256 * 256 + word / 256

def networkWords : List Byte → List Nat
  | a :: b :: rest => (256 * a.toNat + b.toNat) :: networkWords rest
  | [a] => [256 * a.toNat]
  | [] => []

def checksum (bytes : List Byte) : Nat := 65535 - sum (networkWords bytes)

section words
variable {words : List Nat} {a b n : Nat}

theorem reduce_le (n : Nat) : reduce n ≤ 65535 := by
  unfold reduce
  split <;> omega

theorem reduce_parts (some_bits : n ≠ 0) : ∃ q, n = 65535 * q + reduce n ∧ 0 < reduce n := by
  refine ⟨(n - 1) / 65535, ?_, ?_⟩ <;> rw [reduce, if_neg some_bits]
  · have whole := Nat.div_add_mod (n - 1) 65535
    omega
  · exact Nat.succ_pos _

theorem reduce_add_mul (q : Nat) (some_bits : n ≠ 0) : reduce (65535 * q + n) = reduce n := by
  rw [reduce, reduce, if_neg (by omega), if_neg some_bits, Nat.add_sub_assoc (Nat.pos_of_ne_zero some_bits),
    Nat.mul_add_mod]

theorem add_reduce (small : b ≤ 65535) : add (reduce a) b = reduce (a + b) := by
  unfold add reduce
  split_ifs <;> omega

theorem sum_reduce (small : ∀ w ∈ words, w ≤ 65535) : sum words = reduce words.sum := by
  have general : ∀ a, words.foldl add (reduce a) = reduce (a + words.sum) := by
    induction words with
    | nil => simp
    | cons w ws ih =>
      intro a
      rw [List.foldl_cons, add_reduce (small w List.mem_cons_self),
        ih fun v mem => small v (List.mem_cons_of_mem w mem), List.sum_cons, Nat.add_assoc]
  have whole := general 0
  rwa [Nat.zero_add] at whole

theorem reduce_eq_iff : reduce a = reduce b ↔ a % 65535 = b % 65535 ∧ (a = 0 ↔ b = 0) := by
  have positive : ∀ n, n ≠ 0 → reduce n = (n - 1) % 65535 + 1 := fun n some_bits => if_neg some_bits
  by_cases first : a = 0 <;> by_cases second : b = 0
  · subst first second
    simp
  · subst first
    rw [positive b second, reduce, if_pos rfl]
    exact iff_of_false (by omega) fun same => second (same.2.mp rfl)
  · subst second
    rw [positive a first, reduce, if_pos rfl]
    exact iff_of_false (by omega) fun same => first (same.2.mpr rfl)
  · rw [positive a first, positive b second]
    constructor
    · intro same
      exact ⟨by omega, by omega⟩
    · rintro ⟨congruent, -⟩
      omega

theorem folds_reduce (small : n < 4294967296) :
    (n % 65536 + n / 65536) % 65536 + (n % 65536 + n / 65536) / 65536 = reduce n := by
  unfold reduce
  split_ifs <;> omega

theorem swap_reduce (n : Nat) : swap (reduce n) = reduce (256 * n) := by
  by_cases zero : n = 0
  · subst zero
    rfl
  · obtain ⟨q, parts, some_bits⟩ := reduce_parts zero
    have small := reduce_le n
    have product : 256 * n = 65535 * (256 * q) + 256 * reduce n := by omega
    rw [product, reduce_add_mul _ (by omega)]
    generalize reduce n = m at some_bits small
    rw [reduce, if_neg (by omega), swap]
    omega

theorem swap_le (small : a ≤ 65535) : swap a ≤ 65535 := by
  unfold swap
  omega

theorem swap_complement (small : a ≤ 65535) : 65535 - swap a = swap (65535 - a) := by
  unfold swap
  omega

theorem swap_sum (small : ∀ w ∈ words, w ≤ 65535) :
    (words.map swap).sum % 65535 = 256 * words.sum % 65535 ∧ ((words.map swap).sum = 0 ↔ words.sum = 0) := by
  induction words with
  | nil => simp
  | cons w ws ih =>
    have rest := ih fun v mem => small v (List.mem_cons_of_mem w mem)
    have here := small w List.mem_cons_self
    simp only [List.map_cons, List.sum_cons, swap] at rest ⊢
    omega

/-- Adding the words with their bytes exchanged gives the sum with its bytes exchanged. -/
theorem reduce_swap_sum (small : ∀ w ∈ words, w ≤ 65535) :
    reduce (words.map swap).sum = swap (reduce words.sum) := by
  obtain ⟨congruent, zero⟩ := swap_sum small
  rw [swap_reduce, reduce_eq_iff]
  exact ⟨congruent, zero.trans (by omega)⟩

end words

section bytes
variable {xs ys : List Byte}

theorem network_words_small : ∀ xs : List Byte, ∀ w ∈ networkWords xs, w ≤ 65535
  | [], w, mem => by cases mem
  | [a], w, mem => by
    have := a.isLt
    simp only [networkWords, List.mem_singleton] at mem
    omega
  | a :: b :: rest, w, mem => by
    have := a.isLt
    have := b.isLt
    rcases List.mem_cons.mp mem with here | later
    · omega
    · exact network_words_small rest w later

theorem network_words_append : ∀ xs : List Byte, xs.length % 2 = 0 →
    networkWords (xs ++ ys) = networkWords xs ++ networkWords ys
  | [], _ => rfl
  | [a], even => by cases even
  | a :: b :: rest, even => by
    rw [List.length_cons, List.length_cons] at even
    have tail := network_words_append rest (by omega)
    simp only [List.cons_append, networkWords, tail]

theorem network_sum (xs : List Byte) : sum (networkWords xs) = reduce (networkWords xs).sum :=
  sum_reduce (network_words_small xs)

/-- Whoever adds all the words of a message whose checksum is right has all bits set. -/
theorem checksum_valid (total : Nat) : reduce (total + (65535 - reduce total)) = 65535 := by
  by_cases zero : total = 0
  · subst zero
    rfl
  · obtain ⟨q, parts, _⟩ := reduce_parts zero
    have small := reduce_le total
    have whole : total + (65535 - reduce total) = 65535 * q + 65535 := by omega
    rw [whole, reduce_add_mul q (by decide)]
    rfl

theorem valid_congruent {total other : Nat}
    (valid : reduce (total + (65535 - reduce other)) = 65535) : total % 65535 = other % 65535 := by
  have congruent := (reduce_eq_iff.mp (valid.trans (show 65535 = reduce 65535 from rfl))).1
  have same : reduce other % 65535 = other % 65535 := by
    unfold reduce
    split <;> omega
  have small := reduce_le other
  omega

end bytes
end OnesComplement
