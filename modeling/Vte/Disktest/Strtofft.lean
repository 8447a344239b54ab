import Vte.Base.Digits

/-!
`my_strtofft` of disktest's sfunc.c against `strtoll` with base 0. One loop passes over blanks, zeros,
letters x and a sign in whatever order they come, with a flag for the zeros and one for an x behind a
zero; then digits are read in the base that the flags say. A sum that does not fit has no result.
-/
namespace VteDisktest
open Text CInt Digits

structure Prefix where
  neg : Bool
  bOct : Bool
  bHex : Bool
  pStr : Str
deriving DecidableEq

def prefixLoop (bOct bHex : Bool) : Str → Prefix
  | [] => ⟨false, bOct, bHex, []⟩
  | c :: pStr =>
    if c = '0' then prefixLoop true bHex pStr
    else if c = 'x' then prefixLoop bOct (if bOct then true else bHex) pStr
    else if c = ' ' ∨ c = '\t' then prefixLoop bOct bHex pStr
    else if c = '-' then ⟨true, bOct, bHex, pStr⟩
    else if c = '+' then ⟨false, bOct, bHex, pStr⟩
    else ⟨false, bOct, bHex, c :: pStr⟩

def decDigit (c : Char) : Option Nat :=
  if 48 ≤ c.toNat ∧ c.toNat ≤ 57 then some (c.toNat - 48) else none

def hexDigit (c : Char) : Option Nat :=
  if 48 ≤ c.toNat ∧ c.toNat ≤ 57 then some (c.toNat - 48)
  else if 65 ≤ c.toNat ∧ c.toNat ≤ 70 then some (10 + (c.toNat - 65))
  else if 97 ≤ c.toNat ∧ c.toNat ≤ 102 then some (10 + (c.toNat - 97))
  else none

def octDigit (c : Char) : Option Nat :=
  if 48 ≤ c.toNat ∧ c.toNat ≤ 55 then some (c.toNat - 48) else none

/-- The three `while` loops: a shift by four is a product with 16. -/
def digitLoop (base : Nat) (digitOf : Char → Option Nat) : Int → Str → Option Int
  | value, [] => some value
  | value, c :: pStr =>
    match digitOf c with
    | none => some value
    | some d => do
      let shifted ← signed 64 (value * base)
      let value ← signed 64 (shifted + d)
      digitLoop base digitOf value pStr

def Prefix.value (p : Prefix) : Option Int :=
  if !p.bOct && !p.bHex then digitLoop 10 decDigit 0 p.pStr
  else if p.bHex then digitLoop 16 hexDigit 0 p.pStr
  else digitLoop 8 octDigit 0 p.pStr

def myStrtofft (pStr : Str) : Option Int := do
  let p := prefixLoop false false pStr
  let value ← p.value
  if p.neg then signed 64 (-value) else some value

def inPrefix (c : Char) : Bool := c == '0' || c == 'x' || c == ' ' || c == '\t'

/-- The zeros, or the 0x and zeros, that also `strtoll` passes over. -/
def Plain (run : Str) : Prop := ∀ c ∈ (baseOf run).2, c = '0'

/-- A number without a sign that starts with a zero: `run` is what the first loop passes over and
    `rest` what follows. -/
def UnsignedAgrees (run rest : Str) : Prop :=
  let base := if 'x' ∈ run then 16 else 8
  (Plain run ∧ (signOf rest).2 = rest ∧ ¬ (run = ['0'] ∧ rest.head? = some 'X') ∧
      number base rest < 9223372036854775808) ∨
    OnlyZeros base (signOf rest).2 ∧ (run = ['0'] → ∀ s, rest = 'X' :: s → OnlyZeros 16 s)

/-- A number with a sign that starts with a zero, of which `my_strtofft` reads decimal digits. -/
def SignedAgrees (s : Str) : Prop :=
  match baseOf s with
  | (16, digits) => OnlyZeros 16 digits
  | _ => OneOctal s

def Agrees (sign s : Str) : Prop :=
  if s.head? = some '0' then
    if sign = [] then UnsignedAgrees (s.takeWhile inPrefix) (s.dropWhile inPrefix)
    else SignedAgrees s
  else number 10 s < 9223372036854775808

section loops
variable {base v : Nat} {s : Str}

theorem digit_loop_number {digitOf : Char → Option Nat} (some_base : 1 ≤ base)
    (same : ∀ c, digitOf c = if digit c < base then some (digit c) else none)
    (small : v < 9223372036854775808) :
    digitLoop base digitOf v s =
      if numberFrom base v s < 9223372036854775808 then some (numberFrom base v s : Int)
      else none := by
  induction s generalizing v with
  | nil => rw [digitLoop, numberFrom, if_pos small]
  | cons c cs ih =>
    rw [digitLoop, same, numberFrom]
    by_cases low : digit c < base
    · simp only [if_pos low]
      have cast : (v : Int) * base = (v * base : Nat) := by push_cast; rfl
      have grows := number_from_le (v * base + digit c) cs some_base
      by_cases fits : v * base + digit c < 9223372036854775808
      · rw [cast, signed_fits (by omega) (by omega), Option.bind_eq_bind, Option.bind_some,
          signed_fits (by omega) (by omega), Option.bind_some, ← ih fits]
        rfl
      · rw [if_neg (by omega), cast]
        by_cases shifted : v * base < 9223372036854775808
        · rw [signed_fits (by omega) (by omega), Option.bind_eq_bind, Option.bind_some, signed_overflow (by omega)]
          rfl
        · rw [signed_overflow (by omega)]
          rfl
    · simp only [if_neg low, if_pos small]

theorem dec_digit_eq (c : Char) : decDigit c = if digit c < 10 then some (digit c) else none := by
  unfold decDigit digit
  split_ifs <;> first | rfl | omega

theorem oct_digit_eq (c : Char) : octDigit c = if digit c < 8 then some (digit c) else none := by
  unfold octDigit digit
  split_ifs <;> first | rfl | omega

theorem hex_digit_eq (c : Char) : hexDigit c = if digit c < 16 then some (digit c) else none := by
  unfold hexDigit digit
  split_ifs <;> first | rfl | omega | exact congrArg some (by omega)

def flagBase (bOct bHex : Bool) : Nat := if !bOct && !bHex then 10 else if bHex then 16 else 8

def signedNumber (neg : Bool) (n : Nat) : Option Int :=
  if n < 9223372036854775808 then some (if neg then -(n : Int) else n) else none

theorem my_strtofft_eq {neg bOct bHex : Bool} {t : Str}
    (start : prefixLoop false false s = ⟨neg, bOct, bHex, t⟩) :
    myStrtofft s = signedNumber neg (number (flagBase bOct bHex) t) := by
  have value : (Prefix.mk neg bOct bHex t).value =
      if number (flagBase bOct bHex) t < 9223372036854775808 then
        some (number (flagBase bOct bHex) t : Int) else none := by
    cases bHex with
    | true => cases bOct <;> exact digit_loop_number (v := 0) (by decide) hex_digit_eq (by decide)
    | false =>
      cases bOct with
      | true => exact digit_loop_number (v := 0) (by decide) oct_digit_eq (by decide)
      | false => exact digit_loop_number (v := 0) (by decide) dec_digit_eq (by decide)
  rw [myStrtofft, start]
  simp only [value]
  rw [signedNumber]
  by_cases fits : number (flagBase bOct bHex) t < 9223372036854775808
  · rw [if_pos fits, if_pos fits, Option.bind_eq_bind, Option.bind_some, signed_fits (by omega) (by omega)]
    cases neg <;> rfl
  · rw [if_neg fits, if_neg fits]
    rfl

theorem prefix_blanks {blanks : Str} (blank : ∀ c ∈ blanks, c = ' ' ∨ c = '\t') (bOct bHex : Bool) :
    prefixLoop bOct bHex (blanks ++ s) = prefixLoop bOct bHex s := by
  induction blanks with
  | nil => rfl
  | cons c cs ih =>
    have rest := ih fun d mem => blank d (List.mem_cons_of_mem c mem)
    rcases blank c List.mem_cons_self with rfl | rfl
    · exact rest
    · exact rest

theorem prefix_run {run : Str} (inside : ∀ c ∈ run, inPrefix c = true) (bHex : Bool) :
    prefixLoop true bHex (run ++ s) = prefixLoop true (bHex || decide ('x' ∈ run)) s := by
  induction run generalizing bHex with
  | nil => simp
  | cons c cs ih =>
    have rest := ih fun d mem => inside d (List.mem_cons_of_mem c mem)
    have here := inside c List.mem_cons_self
    simp only [inPrefix, Bool.or_eq_true, beq_iff_eq] at here
    rw [List.cons_append]
    rcases here with ((rfl | rfl) | rfl) | rfl
    · exact (rest bHex).trans (by simp)
    · exact (rest true).trans (by simp)
    · exact (rest bHex).trans (by simp)
    · exact (rest bHex).trans (by simp)

theorem prefix_end (bOct bHex : Bool) (outside : ∀ c ∈ s.head?, inPrefix c = false) :
    prefixLoop bOct bHex s = ⟨(signOf s).1, bOct, bHex, (signOf s).2⟩ := by
  cases s with
  | nil => rfl
  | cons c cs =>
    have here := outside c rfl
    simp only [inPrefix, Bool.or_eq_false_iff, beq_eq_false_iff_ne] at here
    obtain ⟨⟨⟨zero, x⟩, space⟩, tab⟩ := here
    rw [prefixLoop, if_neg zero, if_neg x, if_neg (by simp [space, tab])]
    by_cases minus : c = '-'
    · subst minus
      rfl
    · rw [if_neg minus]
      by_cases plus : c = '+'
      · subst plus
        rfl
      · rw [if_neg plus, signOf]
        · exact fun cs' same => minus (List.cons.inj same).1
        · exact fun cs' same => plus (List.cons.inj same).1

end loops

section agreement
variable {base : Nat} {s run rest : Str} {c : Char} {cs : Str}

theorem signed_number_iff {neg : Bool} {n m : Nat} (below : n ≤ m ∨ m = 0) :
    signedNumber neg m = some (nearest64 neg n) ↔ m < 9223372036854775808 ∧ m = n := by
  rw [signedNumber]
  by_cases small : m < 9223372036854775808
  · rw [if_pos small, Option.some.injEq, nearest64_iff small below]
    simp [small]
  · simp [small]

theorem signed_zero_iff {neg : Bool} {m : Nat} :
    signedNumber neg m = some (nearest64 false 0) ↔ m = 0 := by
  rw [signedNumber]
  by_cases small : m < 9223372036854775808
  · rw [if_pos small, Option.some.injEq]
    cases neg <;> simp [nearest64]
  · rw [if_neg small]
    exact iff_of_false (by simp) (by omega)

theorem number_run (rest : Str) (some_base : 1 ≤ base) (letters : base ≤ 33)
    (inside : ∀ c ∈ run, inPrefix c = true) :
    ((∀ c ∈ run, c = '0') ∧ number base (run ++ rest) = number base rest) ∨
      (¬ (∀ c ∈ run, c = '0') ∧ number base (run ++ rest) = 0) := by
  induction run with
  | nil => exact .inl ⟨by simp, rfl⟩
  | cons c cs ih =>
    by_cases zero : c = '0'
    · subst zero
      rw [List.cons_append, number_cons_zero some_base]
      rcases ih fun d mem => inside d (List.mem_cons_of_mem _ mem) with ⟨zeros, same⟩ | ⟨other, none⟩
      · exact .inl ⟨by simpa using zeros, same⟩
      · exact .inr ⟨by simpa using other, none⟩
    · have wide : base ≤ digit c := by
        have here := inside c List.mem_cons_self
        simp only [inPrefix, Bool.or_eq_true, beq_iff_eq] at here
        rcases here with ((rfl | rfl) | rfl) | rfl
        · exact absurd rfl zero
        all_goals exact Nat.le_trans letters (by decide)
      exact .inr ⟨fun zeros => zero (zeros c List.mem_cons_self), number_cons_other wide⟩

theorem base_of_decimal (other : c ≠ '0') : baseOf (c :: cs) = (10, c :: cs) := by
  unfold baseOf
  split <;> simp_all

theorem base_of_octal (lower : c ≠ 'x') (upper : c ≠ 'X') :
    baseOf ('0' :: c :: cs) = (8, c :: cs) := by
  rw [baseOf]
  · intro s same
    exact lower (List.cons.inj same).1
  · intro s same
    exact upper (List.cons.inj same).1

/-- The number that `strtoll` reads after the run that the first loop passes over. -/
def libraryNumber (run rest : Str) : Nat :=
  number (baseOf (run ++ rest)).1 (baseOf (run ++ rest)).2

theorem library_number_cases (first : ∃ cs, run = '0' :: cs)
    (inside : ∀ c ∈ run, inPrefix c = true) (outside : ∀ c ∈ rest.head?, inPrefix c = false) :
    (∃ cs, run = ['0'] ∧ rest = 'X' :: cs ∧ libraryNumber run rest = number 16 cs) ∨
    (Plain run ∧ ¬ (run = ['0'] ∧ rest.head? = some 'X') ∧
      libraryNumber run rest = number (if 'x' ∈ run then 16 else 8) rest) ∨
    (¬ Plain run ∧ run ≠ ['0'] ∧ libraryNumber run rest = 0) := by
  obtain ⟨cs, rfl⟩ := first
  have tail : ∀ c ∈ cs, inPrefix c = true := fun c mem => inside c (List.mem_cons_of_mem _ mem)
  cases cs with
  | nil =>
    cases rest with
    | nil => exact .inr (.inl ⟨by simp [Plain, baseOf], by simp, rfl⟩)
    | cons d ds =>
      have no_x : d ≠ 'x' := by
        rintro rfl
        exact absurd (outside 'x' rfl) (by decide)
      by_cases upper : d = 'X'
      · subst upper
        exact .inl ⟨ds, rfl, rfl, rfl⟩
      · refine .inr (.inl ⟨by simp [Plain, baseOf], by simp [upper], ?_⟩)
        rw [libraryNumber, List.cons_append, List.nil_append, base_of_octal no_x upper]
        rfl
  | cons c cs =>
    by_cases x : c = 'x'
    · subst x
      have digits := number_run rest (show 1 ≤ 16 by decide) (by decide)
        fun c mem => tail c (List.mem_cons_of_mem _ mem)
      rcases digits with ⟨zeros, same⟩ | ⟨other, none⟩
      · refine .inr (.inl ⟨zeros, by simp, ?_⟩)
        rw [if_pos (by simp)]
        exact same
      · exact .inr (.inr ⟨other, by simp, none⟩)
    · have here := tail c List.mem_cons_self
      have octal : ∀ ds, baseOf ('0' :: c :: ds) = (8, c :: ds) := by
        intro ds
        refine base_of_octal x ?_
        rintro rfl
        exact absurd here (by decide)
      have digits := number_run rest (show 1 ≤ 8 by decide) (by decide) tail
      have library : libraryNumber ('0' :: c :: cs) rest = number 8 (c :: cs ++ rest) := by
        rw [libraryNumber, List.cons_append, List.cons_append, octal]
      have plain : Plain ('0' :: c :: cs) ↔ ∀ d ∈ c :: cs, d = '0' := by
        rw [Plain, octal]
      rw [library]
      rcases digits with ⟨zeros, same⟩ | ⟨other, none⟩
      · refine .inr (.inl ⟨plain.mpr zeros, by simp, ?_⟩)
        have no_x : 'x' ∉ '0' :: c :: cs := by
          intro mem
          rcases List.mem_cons.mp mem with zero | later
          · exact absurd zero (by decide)
          · exact absurd (zeros 'x' later) (by decide)
        rw [if_neg no_x]
        exact same
      · exact .inr (.inr ⟨fun all => other (plain.mp all), by simp, none⟩)

theorem sign_cases (rest : Str) : signOf rest = (false, rest) ∨
    ((signOf rest).2 ≠ rest ∧ (∀ cs, rest ≠ 'X' :: cs) ∧ ∀ base ≤ 16, number base rest = 0) := by
  unfold signOf
  split
  · exact .inr ⟨by simp, by simp, fun base small => number_cons_other (Nat.le_trans small (by decide))⟩
  · exact .inr ⟨by simp, by simp, fun base small => number_cons_other (Nat.le_trans small (by decide))⟩
  · exact .inl rfl

theorem unsigned_zero_iff (run : Str) (first : ∃ cs, run = '0' :: cs)
    (inside : ∀ c ∈ run, inPrefix c = true) (outside : ∀ c ∈ rest.head?, inPrefix c = false) :
    signedNumber (signOf rest).1
        (number (flagBase true (decide ('x' ∈ run))) (signOf rest).2) =
      some (nearest64 false (libraryNumber run rest)) ↔ UnsignedAgrees run rest := by
  obtain ⟨base, same_base⟩ : ∃ base, base = if 'x' ∈ run then 16 else 8 := ⟨_, rfl⟩
  have some_base : 1 ≤ base := by
    rw [same_base]
    split <;> decide
  have small_base : base ≤ 16 := by
    rw [same_base]
    split <;> decide
  have flags : flagBase true (decide ('x' ∈ run)) = base := by
    rw [same_base]
    by_cases x : 'x' ∈ run <;> simp [flagBase, x]
  have condition : UnsignedAgrees run rest ↔
      (Plain run ∧ (signOf rest).2 = rest ∧ ¬ (run = ['0'] ∧ rest.head? = some 'X') ∧
        number base rest < 9223372036854775808) ∨
      OnlyZeros base (signOf rest).2 ∧ (run = ['0'] → ∀ s, rest = 'X' :: s → OnlyZeros 16 s) := by
    rw [same_base]
    exact Iff.rfl
  rw [flags, condition]
  rcases library_number_cases first inside outside with
    ⟨cs, lone, upper, library⟩ | ⟨plain, no_upper, library⟩ | ⟨odd, longer, library⟩
  · -- my_strtofft reads nothing behind the zero, strtoll a hexadecimal number
    subst upper
    have nothing : number base ('X' :: cs) = 0 :=
      number_cons_other (Nat.le_trans small_base (by decide))
    have zeros : OnlyZeros base ('X' :: cs) := (number_zero_iff some_base).mp nothing
    rw [library]
    change signedNumber false (number base ('X' :: cs)) = _ ↔ (_ ∧ _ ∧ _ ∧ _) ∨ OnlyZeros base ('X' :: cs) ∧ _
    rw [nothing, signed_number_iff (.inr rfl), eq_comm, number_zero_iff (by decide)]
    constructor
    · intro ⟨_, same⟩
      refine .inr ⟨zeros, fun _ s tail => ?_⟩
      obtain rfl := (List.cons.inj tail).2
      exact same
    · rintro (⟨-, -, no_upper, -⟩ | ⟨-, same⟩)
      · exact absurd ⟨lone, rfl⟩ no_upper
      · exact ⟨by decide, same lone cs rfl⟩
  · rw [← same_base] at library
    rw [library]
    rcases sign_cases rest with plus | ⟨longer, no_x, nothing⟩
    · rw [plus, signed_number_iff (.inl (Nat.le_refl _))]
      constructor
      · intro ⟨small, _⟩
        exact .inl ⟨plain, rfl, no_upper, small⟩
      · rintro (⟨-, -, -, small⟩ | ⟨zeros, -⟩)
        · exact ⟨small, rfl⟩
        · rw [(number_zero_iff some_base).mpr zeros]
          exact ⟨by decide, rfl⟩
    · rw [nothing base small_base, signed_zero_iff, number_zero_iff some_base]
      constructor
      · intro zeros
        exact .inr ⟨zeros, fun _ s upper => absurd upper (no_x s)⟩
      · rintro (⟨-, same, -⟩ | ⟨zeros, -⟩)
        · exact absurd same longer
        · exact zeros
  · rw [library, signed_zero_iff, number_zero_iff some_base]
    constructor
    · intro zeros
      exact .inr ⟨zeros, fun lone => absurd lone longer⟩
    · rintro (⟨plain, -⟩ | ⟨zeros, -⟩)
      · exact absurd plain odd
      · exact zeros

theorem base_of_zero (cs : Str) : (∃ x digits, cs = x :: digits ∧ 16 ≤ digit x ∧
    baseOf ('0' :: cs) = (16, digits)) ∨ baseOf ('0' :: cs) = (8, cs) := by
  cases cs with
  | nil => exact .inr rfl
  | cons c cs =>
    by_cases lower : c = 'x'
    · subst lower
      exact .inl ⟨'x', cs, rfl, by decide, rfl⟩
    · by_cases upper : c = 'X'
      · subst upper
        exact .inl ⟨'X', cs, rfl, by decide, rfl⟩
      · exact .inr (base_of_octal lower upper)

theorem signed_zero_agrees (neg : Bool) (cs : Str) :
    signedNumber neg (number 10 ('0' :: cs)) =
      some (nearest64 neg (number (baseOf ('0' :: cs)).1 (baseOf ('0' :: cs)).2)) ↔
    SignedAgrees ('0' :: cs) := by
  rw [number_cons_zero (by decide), SignedAgrees]
  rcases base_of_zero cs with ⟨x, digits, rfl, letter, hex⟩ | octal
  · rw [hex, number_cons_other (by omega)]
    change signedNumber neg 0 = some (nearest64 neg (number 16 digits)) ↔ OnlyZeros 16 digits
    rw [signed_number_iff (.inr rfl), eq_comm, number_zero_iff (by decide)]
    exact and_iff_right (by decide)
  · rw [octal]
    change signedNumber neg (number 10 cs) = some (nearest64 neg (number 8 cs)) ↔ OneOctal ('0' :: cs)
    have below : number 8 cs ≤ number 10 cs :=
      number_from_mono (by decide) (by decide) (Nat.le_refl 0)
    rw [signed_number_iff (.inl below)]
    have same := decimal_octal_iff (s := cs)
    constructor
    · intro ⟨_, equal⟩
      exact same.mp equal
    · intro one
      have small := one_octal_small (s := cs) one
      exact ⟨by omega, same.mpr one⟩

theorem nonzero_agrees (neg : Bool) (other : c ≠ '0') :
    signedNumber neg (number 10 (c :: cs)) = some (nearest64 neg (number (baseOf (c :: cs)).1 (baseOf (c :: cs)).2)) ↔
    number 10 (c :: cs) < 9223372036854775808 := by
  rw [base_of_decimal other, signed_number_iff (.inl (Nat.le_refl _))]
  exact and_iff_left rfl

end agreement

section results
variable {blanks sign s cs : Str} {c : Char}

theorem unsigned_agrees (cs : Str) :
    myStrtofft ('0' :: cs) = some (nearest64 false (number (baseOf ('0' :: cs)).1 (baseOf ('0' :: cs)).2)) ↔
    UnsignedAgrees (('0' :: cs).takeWhile inPrefix) (('0' :: cs).dropWhile inPrefix) := by
  obtain ⟨run, same_run⟩ : ∃ run, run = cs.takeWhile inPrefix := ⟨_, rfl⟩
  obtain ⟨rest, same_rest⟩ : ∃ rest, rest = cs.dropWhile inPrefix := ⟨_, rfl⟩
  have parts : run ++ rest = cs := by rw [same_run, same_rest, List.takeWhile_append_dropWhile]
  have inside : ∀ c ∈ run, inPrefix c = true := by
    intro c mem
    rw [same_run] at mem
    exact List.all_eq_true.mp List.all_takeWhile c mem
  have outside : ∀ c ∈ rest.head?, inPrefix c = false := by
    intro c here
    rw [same_rest] at here
    have stop := List.head?_dropWhile_not inPrefix cs
    rw [here] at stop
    exact stop
  have whole : ('0' :: cs).takeWhile inPrefix = '0' :: run ∧ ('0' :: cs).dropWhile inPrefix = rest := by
    rw [same_run, same_rest]
    exact ⟨rfl, rfl⟩
  have start : prefixLoop false false ('0' :: cs) =
      ⟨(signOf rest).1, true, decide ('x' ∈ '0' :: run), (signOf rest).2⟩ := by
    change prefixLoop true false cs = _
    rw [← parts, prefix_run inside, prefix_end _ _ outside]
    simp
  rw [whole.1, whole.2, my_strtofft_eq start]
  have agrees := unsigned_zero_iff ('0' :: run) ⟨run, rfl⟩ (by simpa [inPrefix] using inside)
    outside
  rw [libraryNumber, List.cons_append, parts] at agrees
  exact agrees

theorem digit_heads (small : digit c < 10) : isSpace c = false ∧ c ≠ '-' ∧ c ≠ '+' ∧
    (c ≠ '0' → inPrefix c = false) := by
  have apart : ∀ d, 10 ≤ digit d → c ≠ d := by
    rintro d large rfl
    omega
  refine ⟨?_, apart '-' (by decide), apart '+' (by decide), ?_⟩
  · simp [isSpace, apart ' ' (by decide), apart '\t' (by decide), apart '\n' (by decide),
      apart '\x0b' (by decide), apart '\x0c' (by decide), apart '\r' (by decide)]
  · intro other
    simp [inPrefix, other, apart 'x' (by decide), apart ' ' (by decide), apart '\t' (by decide)]

/-- `my_strtofft` returns the value of `strtoll` for just these strings. -/
theorem my_strtofft_strtoll_iff (blank : ∀ c ∈ blanks, c = ' ' ∨ c = '\t')
    (signs : sign = [] ∨ sign = ['-'] ∨ sign = ['+'])
    (digits : ∃ c cs, s = c :: cs ∧ digit c < 10) :
    myStrtofft (blanks ++ (sign ++ s)) = some (strtoll (blanks ++ (sign ++ s))) ↔ Agrees sign s := by
  obtain ⟨c, cs, rfl, small⟩ := digits
  obtain ⟨no_space, no_minus, no_plus, no_prefix⟩ := digit_heads small
  have skipped : ∀ s, myStrtofft (blanks ++ s) = myStrtofft s := by
    intro s
    rw [myStrtofft, prefix_blanks blank, myStrtofft]
  have behind : ∀ neg : Bool, myStrtofft ((if neg then '-' else '+') :: c :: cs) =
      signedNumber neg (number 10 (c :: cs)) := by
    intro neg
    cases neg <;> exact my_strtofft_eq rfl
  rw [skipped]
  rcases signs with rfl | rfl | rfl
  · rw [List.nil_append, strtoll_blanks blanks blank (by rintro d ⟨⟩; exact no_space)]
    have unsigned : signOf (c :: cs) = (false, c :: cs) := by
      rw [signOf]
      · exact fun s same => no_minus (List.cons.inj same).1
      · exact fun s same => no_plus (List.cons.inj same).1
    rw [unsigned, Agrees]
    by_cases zero : c = '0'
    · subst zero
      exact unsigned_agrees cs
    · rw [if_neg (by simpa using zero)]
      have ended := prefix_end (s := c :: cs) false false (by rintro d ⟨⟩; exact no_prefix zero)
      rw [unsigned] at ended
      rw [my_strtofft_eq ended]
      exact nonzero_agrees false zero
  · rw [List.cons_append, List.nil_append, strtoll_blanks blanks blank (by rintro d ⟨⟩; rfl), Agrees]
    have read := behind true
    change myStrtofft ('-' :: c :: cs) = _ at read
    rw [read]
    change _ = some (nearest64 true (number (baseOf (c :: cs)).1 (baseOf (c :: cs)).2)) ↔ _
    by_cases zero : c = '0'
    · subst zero
      exact signed_zero_agrees true cs
    · rw [if_neg (by simpa using zero)]
      exact nonzero_agrees true zero
  · rw [List.cons_append, List.nil_append, strtoll_blanks blanks blank (by rintro d ⟨⟩; rfl), Agrees]
    have read := behind false
    change myStrtofft ('+' :: c :: cs) = _ at read
    rw [read]
    change _ = some (nearest64 false (number (baseOf (c :: cs)).1 (baseOf (c :: cs)).2)) ↔ _
    by_cases zero : c = '0'
    · subst zero
      exact signed_zero_agrees false cs
    · rw [if_neg (by simpa using zero)]
      exact nonzero_agrees false zero

theorem signed_prefix_not_read :
    myStrtofft ['-', '0', 'x', '1', '0'] ≠ some (strtoll ['-', '0', 'x', '1', '0']) ∧
      myStrtofft ['+', '0', '1', '0'] ≠ some (strtoll ['+', '0', '1', '0']) := by
  constructor
  · rw [my_strtofft_eq (t := ['0', 'x', '1', '0']) rfl]
    decide
  · rw [my_strtofft_eq (t := ['0', '1', '0']) rfl]
    decide

theorem hex_with_suffix_agrees :
    myStrtofft ([' '] ++ ([] ++ ['0', 'x', '1', 'F', 'k'])) =
      some (strtoll ([' '] ++ ([] ++ ['0', 'x', '1', 'F', 'k']))) ↔
    Agrees [] ['0', 'x', '1', 'F', 'k'] :=
  my_strtofft_strtoll_iff (by simp) (.inl rfl) ⟨'0', _, rfl, by decide⟩

end results
end VteDisktest
