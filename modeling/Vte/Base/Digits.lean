import Mathlib.Tactic.Ring
import Vte.Base.CInt
import Vte.Base.Text

/-!
Numbers written in a base of at most 36: the digits at the head of a text and their value, and the
library's `strtoll` with base 0, which finds the base by the prefix and stays within 64 bits.
-/
namespace Digits
open Text CInt

def digit (c : Char) : Nat :=
  if 48 ≤ c.toNat ∧ c.toNat ≤ 57 then c.toNat - 48
  else if 65 ≤ c.toNat ∧ c.toNat ≤ 90 then c.toNat - 55
  else if 97 ≤ c.toNat ∧ c.toNat ≤ 122 then c.toNat - 87
  else 36

/-- The number that the digits at the head of the text go on to, from `v`. -/
def numberFrom (base : Nat) : Nat → Str → Nat
  | v, [] => v
  | v, c :: cs => if digit c < base then numberFrom base (v * base + digit c) cs else v

def number (base : Nat) (s : Str) : Nat := numberFrom base 0 s

def OnlyZeros (base : Nat) (s : Str) : Prop :=
  ∀ c ∈ (s.dropWhile (· == '0')).head?, base ≤ digit c

/-- After its zeros the text goes on with at most one decimal digit, which is an octal one. -/
def OneOctal (s : Str) : Prop :=
  OnlyZeros 10 s ∨ ∃ c cs, s.dropWhile (· == '0') = c :: cs ∧ digit c < 8 ∧ ∀ d ∈ cs.head?, 10 ≤ digit d

def signOf : Str → Bool × Str
  | '-' :: s => (true, s)
  | '+' :: s => (false, s)
  | s => (false, s)

def baseOf : Str → Nat × Str
  | '0' :: 'x' :: s => (16, s)
  | '0' :: 'X' :: s => (16, s)
  | '0' :: s => (8, s)
  | s => (10, s)

def nearest64 (negative : Bool) (n : Nat) : Int :=
  if negative then max (-(n : Int)) (-9223372036854775808) else min n 9223372036854775807

def strtoll (s : Str) : Int :=
  let (negative, s) := signOf (s.dropWhile isSpace)
  let (base, s) := baseOf s
  nearest64 negative (number base s)

/-- `strtoul(s, NULL, 0)`: a number that is too large gives the largest one. -/
def strtoul (s : Str) : Nat :=
  let (negative, s) := signOf (s.dropWhile isSpace)
  let (base, s) := baseOf s
  let n := number base s
  if 18446744073709551615 < n then 18446744073709551615
  else if negative then u64 (-n) else n

section numbers
variable {base v : Nat} {c : Char} {s : Str}

theorem zero_of_digit (zero : digit c = 0) : c = '0' := by
  have code : c.toNat = 48 := by
    unfold digit at zero
    split_ifs at zero <;> omega
  exact Char.toNat_inj.mp code

theorem number_from_le (v : Nat) (s : Str) (some_base : 1 ≤ base) : v ≤ numberFrom base v s := by
  induction s generalizing v with
  | nil => exact Nat.le_refl v
  | cons c cs ih =>
    rw [numberFrom]
    split
    · have grows : v ≤ v * base := Nat.le_mul_of_pos_right v some_base
      exact Nat.le_trans (by omega) (ih _)
    · exact Nat.le_refl v

theorem number_cons_digit (small : digit c < base) :
    number base (c :: s) = numberFrom base (digit c) s := by
  rw [number, numberFrom, if_pos small, Nat.zero_mul, Nat.zero_add]

theorem number_cons_zero (some_base : 1 ≤ base) : number base ('0' :: s) = number base s :=
  number_cons_digit (c := '0') some_base

theorem number_cons_other (other : base ≤ digit c) : number base (c :: s) = 0 := by
  rw [number, numberFrom, if_neg (by omega)]

theorem only_zeros_cons_zero : OnlyZeros base ('0' :: s) ↔ OnlyZeros base s := Iff.rfl

theorem number_zero_iff (some_base : 1 ≤ base) : number base s = 0 ↔ OnlyZeros base s := by
  induction s with
  | nil => exact iff_of_true rfl (by simp [OnlyZeros])
  | cons c cs ih =>
    by_cases zero : c = '0'
    · subst zero
      rw [number_cons_zero some_base, ih, only_zeros_cons_zero]
    · have head : OnlyZeros base (c :: cs) ↔ base ≤ digit c := by
        simp [OnlyZeros, zero]
      rw [head]
      constructor
      · intro nothing
        by_contra small
        rw [number_cons_digit (by omega)] at nothing
        have grows := number_from_le (digit c) cs some_base
        exact zero (zero_of_digit (by omega))
      · exact number_cons_other

theorem number_from_mono {base' v' : Nat} (smaller : base ≤ base') (some_base : 1 ≤ base)
    (start : v ≤ v') : numberFrom base v s ≤ numberFrom base' v' s := by
  induction s generalizing v v' with
  | nil => exact start
  | cons c cs ih =>
    have product : v * base ≤ v' * base' := Nat.mul_le_mul start smaller
    rw [numberFrom]
    by_cases low : digit c < base
    · rw [if_pos low, numberFrom, if_pos (by omega)]
      exact ih (by omega)
    · rw [if_neg low]
      exact Nat.le_trans start (number_from_le v' (c :: cs) (by omega))

theorem number_from_lt {base' v' : Nat} (smaller : base ≤ base') (some_base : 1 ≤ base)
    (start : v < v') : numberFrom base v s < numberFrom base' v' s := by
  induction s generalizing v v' with
  | nil => exact start
  | cons c cs ih =>
    have product : v * base < v' * base' := Nat.mul_lt_mul_of_lt_of_le start smaller (by omega)
    rw [numberFrom]
    by_cases low : digit c < base
    · rw [if_pos low, numberFrom, if_pos (by omega)]
      exact ih (by omega)
    · rw [if_neg low]
      exact Nat.lt_of_lt_of_le start (number_from_le v' (c :: cs) (by omega))

/-- Read as decimal and as octal a text gives the same number just when that has one digit. -/
theorem decimal_octal_iff : number 10 s = number 8 s ↔ OneOctal s := by
  induction s with
  | nil => exact iff_of_true rfl (.inl (by simp [OnlyZeros]))
  | cons c cs ih =>
    by_cases zero : c = '0'
    · subst zero
      rw [number_cons_zero (by decide), number_cons_zero (by decide), ih]
      exact Iff.rfl
    · have some_digit : digit c ≠ 0 := fun nothing => zero (zero_of_digit nothing)
      have head : OneOctal (c :: cs) ↔ 10 ≤ digit c ∨ digit c < 8 ∧ ∀ d ∈ cs.head?, 10 ≤ digit d := by
        simp [OneOctal, OnlyZeros, zero]
      rw [head]
      rcases Nat.lt_or_ge (digit c) 8 with octal | large
      · rw [number_cons_digit (by omega), number_cons_digit octal]
        cases cs with
        | nil => simp [numberFrom, octal]
        | cons d ds =>
          by_cases decimal : digit d < 10
          · -- the second digit counts ten times the first in one base only
            rw [numberFrom, if_pos decimal]
            have larger : numberFrom 8 (digit c) (d :: ds) < numberFrom 10 (digit c * 10 + digit d) ds := by
              rw [numberFrom]
              split
              · exact number_from_lt (by decide) (by decide) (by omega)
              · have least := number_from_le (digit c * 10 + digit d) ds (show 1 ≤ 10 by decide)
                omega
            refine iff_of_false (by omega) ?_
            rintro (wide | ⟨-, ended⟩)
            · omega
            · have := ended d rfl
              omega
          · rw [numberFrom, numberFrom, if_neg decimal, if_neg (by omega)]
            refine iff_of_true rfl (.inr ⟨octal, ?_⟩)
            intro d' here
            obtain rfl := Option.some.inj here
            omega
      · rw [number_cons_other large]
        by_cases decimal : digit c < 10
        · have grows := number_from_le (digit c) cs (show 1 ≤ 10 by decide)
          rw [number_cons_digit decimal]
          refine iff_of_false (by omega) (by omega)
        · rw [number_cons_other (by omega)]
          exact iff_of_true rfl (.inl (by omega))

theorem one_octal_small (one : OneOctal s) : number 10 s < 8 := by
  have same := decimal_octal_iff.mpr one
  rcases one with zeros | ⟨c, cs, rest, octal, ended⟩
  · rw [(number_zero_iff (by decide)).mpr zeros]
    decide
  · induction s with
    | nil => cases rest
    | cons d ds ih =>
      by_cases zero : d = '0'
      · subst zero
        rw [number_cons_zero (by decide), number_cons_zero (by decide)] at same
        rw [number_cons_zero (by decide)]
        exact ih same rest
      · rw [List.dropWhile_cons_of_neg (by simpa using zero)] at rest
        obtain ⟨rfl, rfl⟩ := List.cons.inj rest
        rw [number_cons_digit (by omega)]
        cases ds with
        | nil => exact octal
        | cons e es =>
          have other := ended e rfl
          rw [numberFrom, if_neg (by omega)]
          exact octal

end numbers

section strtoll
variable {s : Str}

theorem nearest64_iff {negative : Bool} {n m : Nat} (small : m < 9223372036854775808)
    (below : n ≤ m ∨ m = 0) :
    (if negative then -(m : Int) else m) = nearest64 negative n ↔ m = n := by
  cases negative <;> simp only [nearest64, Bool.false_eq_true, if_true, if_false] <;> omega

theorem strtoll_blanks (blanks : Str) (blank : ∀ c ∈ blanks, c = ' ' ∨ c = '\t')
    (start : ∀ c ∈ s.head?, isSpace c = false) :
    strtoll (blanks ++ s) = nearest64 (signOf s).1 (number (baseOf (signOf s).2).1 (baseOf (signOf s).2).2) := by
  have spaces : ∀ c ∈ blanks, isSpace c = true := by
    intro c mem
    rcases blank c mem with rfl | rfl <;> rfl
  have skipped : (blanks ++ s).dropWhile isSpace = s := by
    rw [List.dropWhile_append_of_pos spaces]
    cases s with
    | nil => rfl
    | cons c cs => rw [List.dropWhile_cons_of_neg (by rw [start c rfl]; decide)]
  rw [strtoll, skipped]

end strtoll

section decimals
variable {s a b : Str}

def OnlyDigits (s : Str) : Prop := ∀ c ∈ s, c.isDigit = true

instance (s : Str) : Decidable (OnlyDigits s) :=
  decidable_of_iff (s.all Char.isDigit = true) List.all_eq_true

theorem digit_lt_ten {c : Char} (decimal : c.isDigit = true) : digit c < 10 := by
  obtain ⟨low, high⟩ := digit_range decimal
  rw [digit, if_pos ⟨low, high⟩]
  omega

theorem number_from_digits (digits : OnlyDigits s) (v : Nat) :
    numberFrom 10 v s = v * 10 ^ s.length + number 10 s := by
  unfold number
  induction s generalizing v with
  | nil => simp [numberFrom]
  | cons c s ih =>
    have small := digit_lt_ten (digits c (List.mem_cons_self ..))
    have rest : OnlyDigits s := fun d member => digits d (List.mem_cons_of_mem c member)
    rw [numberFrom, numberFrom, if_pos small, if_pos small, ih rest, ih rest (0 * 10 + digit c),
      List.length_cons, Nat.pow_succ]
    ring

theorem number_append (digits : OnlyDigits a) (b : Str) :
    number 10 (a ++ b) = numberFrom 10 (number 10 a) b := by
  unfold number
  generalize 0 = v
  induction a generalizing v with
  | nil => rfl
  | cons c a ih =>
    have small := digit_lt_ten (digits c (List.mem_cons_self ..))
    rw [List.cons_append, numberFrom, numberFrom, if_pos small, if_pos small]
    exact ih (fun d member => digits d (List.mem_cons_of_mem c member)) _

theorem number_lt_pow (digits : OnlyDigits s) : number 10 s < 10 ^ s.length := by
  induction s with
  | nil => exact Nat.one_pos
  | cons c s ih =>
    have small := digit_lt_ten (digits c (List.mem_cons_self ..))
    have rest : OnlyDigits s := fun d member => digits d (List.mem_cons_of_mem c member)
    have below := ih rest
    have most : digit c * 10 ^ s.length ≤ 9 * 10 ^ s.length := Nat.mul_le_mul_right _ (by omega)
    rw [number_cons_digit small, number_from_digits rest, List.length_cons, Nat.pow_succ]
    omega

theorem sign_of_digits (digits : OnlyDigits s) : signOf s = (false, s) := by
  unfold signOf
  split
  · have bad := digits '-' (List.mem_cons_self ..)
    cases bad
  · have bad := digits '+' (List.mem_cons_self ..)
    cases bad
  · rfl

theorem base_of_digits (digits : OnlyDigits s) :
    number (baseOf s).1 (baseOf s).2 = number (if s.head? = some '0' then 8 else 10) s := by
  unfold baseOf
  split
  · have bad := digits 'x' (by simp)
    cases bad
  · have bad := digits 'X' (by simp)
    cases bad
  · rename_i rest _ _
    have octal : number 8 ('0' :: rest) = number 8 rest := number_cons_zero (by decide)
    exact octal.symm
  · rename_i plain
    rw [if_neg]
    intro zero
    obtain ⟨rest, rfl⟩ := List.head?_eq_some_iff.mp zero
    exact plain rest rfl

theorem strtoul_digits (digits : OnlyDigits s) : strtoul s =
    min (number (if s.head? = some '0' then 8 else 10) s) 18446744073709551615 := by
  have spaces : s.dropWhile isSpace = s := by
    cases s with
    | nil => rfl
    | cons c s =>
      rw [List.dropWhile_cons_of_neg]
      rw [digit_not_space (digits c (List.mem_cons_self ..))]
      exact Bool.false_ne_true
  unfold strtoul
  rw [spaces, sign_of_digits digits]
  dsimp only
  rw [base_of_digits digits, if_neg Bool.false_ne_true]
  generalize number (if s.head? = some '0' then 8 else 10) s = n
  by_cases large : 18446744073709551615 < n
  · rw [if_pos large]
    omega
  · rw [if_neg large]
    omega

end decimals
end Digits
