import Mathlib.Algebra.Order.Ring.Nat
import Mathlib.Data.List.Induction
import Vte.Base.Text

/-!
The words of a length over the letters from `a` to `z`, in the order of a dictionary.
-/
namespace Words
open Text

def letter (d : Nat) : Char := Char.ofNat (97 + d)

/-- The word at a place of the dictionary: the digits of the number to base 26, as letters. -/
def word : Nat → Nat → Str
  | 0, _ => []
  | len + 1, n => word len (n / 26) ++ [letter (n % 26)]

theorem letter_to_nat {d : Nat} (small : d < 26) : (letter d).toNat = 97 + d := by
  have valid : (97 + d).isValidChar := Or.inl (by omega)
  rw [letter, Char.ofNat, dif_pos valid]
  rfl

theorem letter_lt {d e : Nat} (less : d < e) (small : e < 26) : letter d < letter e := by
  rw [Char.lt_def, UInt32.lt_iff_toNat_lt]
  have left := letter_to_nat (show d < 26 by omega)
  have right := letter_to_nat small
  rw [Char.toNat] at left right
  omega

theorem letter_injective {d e : Nat} (small : d < 26) (small' : e < 26) (same : letter d = letter e) :
    d = e := by
  have left := letter_to_nat small
  rw [same, letter_to_nat small'] at left
  omega

@[simp] theorem word_length (len n : Nat) : (word len n).length = len := by
  induction len generalizing n with
  | zero => rfl
  | succ len ih => rw [word, List.length_append, ih, List.length_singleton]

theorem word_letters {len n : Nat} {c : Char} (member : c ∈ word len n) : ∃ d < 26, c = letter d := by
  induction len generalizing n with
  | zero => simp [word] at member
  | succ len ih =>
    rw [word, List.mem_append, List.mem_singleton] at member
    rcases member with before | rfl
    · exact ih before
    · exact ⟨n % 26, by omega, rfl⟩

theorem word_injective {len n m : Nat} (small : n < 26 ^ len) (small' : m < 26 ^ len)
    (same : word len n = word len m) : n = m := by
  induction len generalizing n m with
  | zero =>
    rw [Nat.pow_zero] at small small'
    omega
  | succ len ih =>
    rw [Nat.pow_succ] at small small'
    obtain ⟨before, last⟩ := List.append_inj' same rfl
    have high := ih (by omega) (by omega) before
    have low := letter_injective (by omega) (by omega) (List.singleton_inj.mp last)
    omega

theorem lt_append {a b : Str} (less : a < b) (same : a.length = b.length) (x y : Str) :
    a ++ x < b ++ y := by
  induction a generalizing b with
  | nil =>
    have empty : b = [] := List.length_eq_zero_iff.mp same.symm
    exact absurd less (by simp [empty])
  | cons c a ih =>
    cases b with
    | nil => simp at same
    | cons d b =>
      rw [List.cons_lt_cons_iff] at less
      rw [List.cons_append, List.cons_append, List.cons_lt_cons_iff]
      rcases less with first | ⟨equal, rest⟩
      · exact Or.inl first
      · exact Or.inr ⟨equal, ih rest (Nat.succ.inj same)⟩

theorem append_lt (a : Str) {x y : Str} (less : x < y) : a ++ x < a ++ y := by
  induction a with
  | nil => exact less
  | cons c a ih =>
    rw [List.cons_append, List.cons_append, List.cons_lt_cons_iff]
    exact Or.inr ⟨rfl, ih⟩

theorem word_lt {len n m : Nat} (less : n < m) (small : m < 26 ^ len) : word len n < word len m := by
  induction len generalizing n m with
  | zero =>
    rw [Nat.pow_zero] at small
    omega
  | succ len ih =>
    rw [Nat.pow_succ] at small
    rw [word, word]
    by_cases same : n / 26 = m / 26
    · rw [same]
      have last : letter (n % 26) < letter (m % 26) := letter_lt (by omega) (by omega)
      exact append_lt _ (List.cons_lt_cons_iff.mpr (Or.inl last))
    · exact lt_append (ih (by omega) (by omega)) (by simp) _ _

end Words
