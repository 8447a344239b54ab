import Mathlib.Data.Rat.Floor
import Vte.Base.CInt
import Vte.Base.ScanFloat
import Vte.Base.SigBits

/-!
lib/bytes_by_prefix.c: the sizes on the command lines of the I/O tests, a number with a multiplier.
A float has 24 significant bits and a double 53; each operation rounds to them. Their exponents are
not bounded here: what would overflow is beyond the integers too, and what would underflow is
truncated to zero. A result that is not defined is none.
-/
namespace VteBytesByPrefix
open Text CInt Digits ScanFloat SigBits

section inputs

inductive Abi where
  | ilp32
  | lp64

def Abi.sizeofLong : Abi → Nat
  | .ilp32 => 4
  | .lp64 => 8

end inputs

section code

def B_MULT : Nat := 512
def K_MULT : Nat := 1024
def M_MULT : Nat := 1048576
def G_MULT : Nat := 1073741824

/-- What `sscanf` returns and stores; `junk` is not read. -/
structure Conv where
  nconv : Int
  num : Option Number
  mult : Option Char

/-- A number in a variable with `bits` significant bits. -/
def round (bits : Nat) : Number → Number
  | .finite x => .finite (roundBits bits x)
  | .special => .special

def times (bits : Nat) (num : Number) (factor : ℚ) : Number :=
  match num with
  | .finite x => .finite (roundBits bits (x * factor))
  | .special => .special

def asFloat (n : Nat) : ℚ := roundBits 24 n

def truncate (x : ℚ) : Int := if x < 0 then ⌈x⌉ else ⌊x⌋

def toSigned (width : Nat) : Number → Option Int
  | .finite x => signed width (truncate x)
  | .special => none

/-- `sscanf(s, "%f%c%c", &num, &mult, &junk)` -/
def sscanf (bits : Nat) (s : Str) : Conv :=
  let s := s.dropWhile isSpace
  if s = [] then ⟨-1, none, none⟩
  else
    match scanFloat s with
    | none => ⟨0, none, none⟩
    | some (num, []) => ⟨1, some (round bits num), none⟩
    | some (num, [mult]) => ⟨2, some (round bits num), some mult⟩
    | some (num, mult :: _ :: _) => ⟨3, some (round bits num), some mult⟩

def product (bits size : Nat) (num : Number) (mult : Char) : Option Number :=
  match mult with
  | 'b' => some (times bits num (asFloat B_MULT))
  | 'k' => some (times bits num (asFloat K_MULT))
  | 'K' => some (times bits (times bits num (asFloat K_MULT)) (roundBits bits size))
  | 'm' => some (times bits num (asFloat M_MULT))
  | 'M' => some (times bits (times bits num (asFloat M_MULT)) (roundBits bits size))
  | 'g' => some (times bits num (asFloat G_MULT))
  | 'G' => some (times bits (times bits num (asFloat G_MULT)) (roundBits bits size))
  | _ => none

/-- The three functions: the bits of `num`, the width of `result`, and the size of the type that the
capital letters count in. -/
def byPrefix (bits width size : Nat) (s : Str) : Option Int := do
  let conv := sscanf bits s
  if conv.nconv = 0 ∨ conv.nconv = 3 then return -1
  else if conv.nconv = 1 then
    let num ← conv.num
    let result ← toSigned width num
    return if result < 0 then -1 else result
  else
    let mult ← conv.mult
    let num ← conv.num
    match product bits size num mult with
    | none => return -1
    | some product =>
      let result ← toSigned width product
      return if result < 0 then -1 else result

def bytesByPrefix (abi : Abi) : Str → Option Int := byPrefix 24 32 abi.sizeofLong

def lbytesByPrefix (abi : Abi) : Str → Option Int :=
  byPrefix 24 (8 * abi.sizeofLong) abi.sizeofLong

def llbytesByPrefix : Str → Option Int := byPrefix 53 64 8

end code

section spec

def multiplier (size : Nat) : Char → Option Nat
  | 'b' => some 512
  | 'k' => some 1024
  | 'K' => some (1024 * size)
  | 'm' => some (2 ^ 20)
  | 'M' => some (2 ^ 20 * size)
  | 'g' => some (2 ^ 30)
  | 'G' => some (2 ^ 30 * size)
  | _ => none

def suffix (size : Nat) : Str → Option Nat
  | [] => some 1
  | [c] => multiplier size c
  | _ => none

/-- The number is `m` shifted, and `m` has at most so many bits. -/
def FitsBits (bits n : Nat) : Prop := ∃ m e, n = m * 2 ^ e ∧ m < 2 ^ bits

structure Exact (width size : Nat) (bytes : Str → Option Int) (s : Str) : Prop where
  whole : ∀ num rest factor, s = num ++ rest → num ≠ [] → OnlyDigits num →
    suffix size rest = some factor → number 10 num * factor < 2 ^ (width - 1) →
    bytes s = some ((number 10 num * factor : Nat) : Int)
  other : s.head? ≠ some '-' → (∀ num rest, s = num ++ rest → num ≠ [] → OnlyDigits num →
    suffix size rest = none) → bytes s = some (-1)

/-- The string is a number, as `%f` reads it, and what may follow one. -/
def Denotes (size : Nat) (s : Str) (x : ℚ) (factor : Nat) : Prop :=
  ∃ rest, scanFloat (s.dropWhile isSpace) = some (.finite x, rest) ∧ suffix size rest = some factor

def Malformed (size : Nat) (s : Str) : Prop :=
  ∀ num rest, scanFloat (s.dropWhile isSpace) = some (num, rest) → suffix size rest = none

def Fits (width : Nat) (r : Int) : Prop := -2 ^ (width - 1) ≤ r ∧ r < 2 ^ (width - 1)

structure SizeRight (bits width size : Nat) (bytes : Str → Option Int) (s : Str) : Prop where
  whole : ∀ num rest factor, s = num ++ rest → num ≠ [] → OnlyDigits num →
    suffix size rest = some factor → FitsBits bits (number 10 num) →
    number 10 num * factor < 2 ^ (width - 1) → bytes s = some ((number 10 num * factor : Nat) : Int)
  malformed : s.dropWhile isSpace ≠ [] → Malformed size s → bytes s = some (-1)
  number : ∀ x factor, Denotes size s x factor → Fits width (truncate (roundBits bits x * factor)) →
    bytes s = some (max (-1) (truncate (roundBits bits x * factor)))

end spec

section arithmetic
variable {bits : Nat}

theorem as_float_two_pow (k : Nat) : asFloat (2 ^ k) = 2 ^ k := by
  have bits := has_bits_zpow (K := ℚ) (show 1 ≤ 24 by decide) k
  rw [zpow_natCast] at bits
  unfold asFloat
  push_cast
  exact round_bits_same bits

theorem size_two_pow (some_bit : 1 ≤ bits) (k : Nat) : roundBits bits ((2 ^ k : Nat) : ℚ) = 2 ^ k := by
  have bits := has_bits_zpow (K := ℚ) some_bit k
  rw [zpow_natCast] at bits
  push_cast
  exact round_bits_same bits

theorem times_two_pow {x : ℚ} (has : HasBits bits x) (k : Nat) :
    times bits (.finite x) (2 ^ k) = .finite (x * 2 ^ k) := by
  rw [times, round_bits_same (has_bits_mul has k)]

theorem truncate_nat (n : Nat) : truncate n = n := by
  rw [truncate, if_neg (by simp), Int.floor_natCast]

theorem fits_bits_round {n : Nat} (fits : FitsBits bits n) : roundBits bits (n : ℚ) = n := by
  obtain ⟨m, e, rfl, small⟩ := fits
  refine round_bits_same ⟨m, e, ?_, by push_cast; rw [zpow_natCast]⟩
  rw [abs_of_nonneg (by positivity)]
  exact_mod_cast small

theorem product_multiplier (some_bit : 1 ≤ bits) {size j : Nat} (power : size = 2 ^ j) {x : ℚ}
    (has : HasBits bits x) (c : Char) :
    product bits size (.finite x) c = (multiplier size c).map fun factor => .finite (x * factor) := by
  have units {m k : Nat} (unit : m = 2 ^ k) :
      times bits (.finite x) (asFloat m) = .finite (x * m) := by
    rw [unit, as_float_two_pow, times_two_pow has]
    push_cast
    rfl
  have longs {m k : Nat} (unit : m = 2 ^ k) :
      times bits (times bits (.finite x) (asFloat m)) (roundBits bits size) = .finite (x * (m * size : Nat)) := by
    have shifted : HasBits bits (x * m) := by
      rw [unit]
      push_cast
      exact has_bits_mul has k
    rw [units unit, power, size_two_pow some_bit, times_two_pow shifted]
    push_cast
    rw [mul_assoc]
  unfold product multiplier
  split
  · exact congrArg some (units (show B_MULT = 2 ^ 9 from rfl))
  · exact congrArg some (units (show K_MULT = 2 ^ 10 from rfl))
  · exact congrArg some (longs (show K_MULT = 2 ^ 10 from rfl))
  · exact congrArg some (units (show M_MULT = 2 ^ 20 from rfl))
  · exact congrArg some (longs (show M_MULT = 2 ^ 20 from rfl))
  · exact congrArg some (units (show G_MULT = 2 ^ 30 from rfl))
  · exact congrArg some (longs (show G_MULT = 2 ^ 30 from rfl))
  · rfl

theorem product_other {size : Nat} {c : Char} (num : Number) (other : multiplier size c = none) :
    product bits size num c = none := by
  unfold multiplier at other
  unfold product
  split at other
  · cases other
  · cases other
  · cases other
  · cases other
  · cases other
  · cases other
  · cases other
  · rfl

theorem negative_max (r : Int) : (if r < 0 then -1 else r) = max (-1) r := by
  split
  · omega
  · omega

end arithmetic

section conversions
variable {bits width size : Nat} {s : Str}

theorem scan_some {num : Number} {rest : Str} (found : scanFloat s = some (num, rest)) : s ≠ [] := by
  rintro rfl
  cases found

theorem by_prefix_malformed (some_text : s.dropWhile isSpace ≠ []) (malformed : Malformed size s) :
    byPrefix bits width size s = some (-1) := by
  unfold byPrefix sscanf
  dsimp only
  rw [if_neg some_text]
  cases found : scanFloat (s.dropWhile isSpace) with
  | none => rfl
  | some read =>
    obtain ⟨num, rest⟩ := read
    have nothing := malformed num rest found
    match rest with
    | [] => cases nothing
    | [mult] =>
      have other : multiplier size mult = none := nothing
      simp [product_other _ other]
    | _ :: _ :: _ => rfl

theorem by_prefix_number {x : ℚ} {factor : Nat} (some_bit : 1 ≤ bits) {j : Nat}
    (power : size = 2 ^ j) (denotes : Denotes size s x factor) : byPrefix bits width size s =
      (signed width (truncate (roundBits bits x * factor))).map (max (-1)) := by
  obtain ⟨rest, found, follows⟩ := denotes
  unfold byPrefix sscanf
  dsimp only
  rw [if_neg (scan_some found), found]
  match rest with
  | [] =>
    obtain rfl := Option.some.inj follows
    rw [Nat.cast_one, mul_one]
    simp only [Option.bind_eq_bind, Option.bind_some, round, toSigned, negative_max]
    cases signed width (truncate (roundBits bits x)) with
    | none => rfl
    | some r => rfl
  | [mult] =>
    have letter : multiplier size mult = some factor := follows
    have multiplied := product_multiplier some_bit power (round_bits_has some_bit x) mult
    rw [letter, Option.map_some] at multiplied
    simp only [Option.bind_eq_bind, Option.bind_some, round, multiplied, toSigned, negative_max]
    cases signed width (truncate (roundBits bits x * factor)) with
    | none => rfl
    | some r => rfl
  | _ :: _ :: _ => cases follows

theorem suffix_ends {rest : Str} {factor : Nat} (follows : suffix size rest = some factor) :
    EndsDigits rest := by
  intro c here
  match rest with
  | [] => cases here
  | [d] =>
    obtain rfl := Option.some.inj here
    have letter : multiplier size d = some factor := follows
    unfold multiplier at letter
    split at letter
    · decide
    · decide
    · decide
    · decide
    · decide
    · decide
    · decide
    · cases letter
  | _ :: _ :: _ => cases follows

theorem digits_denote {num rest : Str} {factor : Nat} (some_digit : num ≠ [])
    (digits : OnlyDigits num) (follows : suffix size rest = some factor) :
    Denotes size (num ++ rest) (number 10 num) factor := by
  refine ⟨rest, ?_, follows⟩
  have start : (num ++ rest).dropWhile isSpace = num ++ rest := by
    obtain ⟨c, cs, rfl⟩ := List.exists_cons_of_ne_nil some_digit
    have first := digit_not_space (digits c (List.mem_cons_self ..))
    rw [List.cons_append, List.dropWhile_cons_of_neg (by rw [first]; decide)]
  rw [start]
  exact scan_digits some_digit digits (suffix_ends follows)

theorem size_right {j : Nat} (some_bit : 1 ≤ bits) (power : size = 2 ^ j) (s : Str) :
    SizeRight bits width size (byPrefix bits width size) s := by
  refine ⟨?_, by_prefix_malformed, ?_⟩
  · rintro num rest factor rfl some_digit digits follows fits small
    have product : truncate (roundBits bits (number 10 num : ℚ) * factor) = (number 10 num * factor : Nat) := by
      rw [fits_bits_round fits, ← Nat.cast_mul, truncate_nat]
    have high : ((number 10 num * factor : Nat) : Int) < 2 ^ (width - 1) := by exact_mod_cast small
    have low : -2 ^ (width - 1) ≤ ((number 10 num * factor : Nat) : Int) := by
      have negative : (0 : Int) ≤ 2 ^ (width - 1) := by positivity
      omega
    rw [by_prefix_number some_bit power (digits_denote some_digit digits follows), product,
      signed_fits low high, Option.map_some, max_eq_right (by omega)]
  · intro x factor denotes fits
    rw [by_prefix_number some_bit power denotes, signed_fits fits.1 fits.2, Option.map_some]

end conversions

section sizes

theorem sizes_right (abi : Abi) (s : Str) :
    SizeRight 24 32 abi.sizeofLong (bytesByPrefix abi) s ∧
      SizeRight 24 (8 * abi.sizeofLong) abi.sizeofLong (lbytesByPrefix abi) s ∧
      SizeRight 53 64 8 llbytesByPrefix s := by
  obtain ⟨j, power⟩ : ∃ j, abi.sizeofLong = 2 ^ j := by
    cases abi with
    | ilp32 => exact ⟨2, rfl⟩
    | lp64 => exact ⟨3, rfl⟩
  exact ⟨size_right (by decide) power s, size_right (by decide) power s, size_right (j := 3) (by decide) rfl s⟩

theorem one_and_a_half : Denotes 8 ['1', '.', '5', 'k'] (3 / 2) 1024 := by
  refine ⟨['k'], ?_, rfl⟩
  have read : start.run ['1', '.', '5', 'k'] = (⟨.fraction, false, false, 15, 1, false, 0⟩, ['k']) := rfl
  have skipped : ['1', '.', '5', 'k'].dropWhile isSpace = ['1', '.', '5', 'k'] := rfl
  rw [skipped, scanFloat, read]
  simp [Scan.complete, Scan.number, Scan.base]
  norm_num

theorem fraction_exact : ¬ Exact 32 8 (bytesByPrefix .lp64) ['1', '.', '5', 'k'] := by
  intro exact_size
  have refused := exact_size.other (by decide) (by
    intro num rest parts some_digit digits
    cases num with
    | nil => exact absurd rfl some_digit
    | cons c num =>
      obtain ⟨rfl, later⟩ := List.cons.inj parts
      cases num with
      | nil =>
        obtain rfl : ['.', '5', 'k'] = rest := later
        rfl
      | cons d num =>
        obtain ⟨rfl, -⟩ := List.cons.inj later
        have point := digits '.' (by simp)
        cases point)
  have half : HasBits 24 (3 / 2 : ℚ) := ⟨3, -1, by norm_num, by norm_num⟩
  have size : truncate (roundBits 24 (3 / 2) * (1024 : Nat)) = 1536 := by
    rw [round_bits_same half, truncate]
    norm_num
  have read : byPrefix 24 32 8 ['1', '.', '5', 'k'] =
      (signed 32 (truncate (roundBits 24 (3 / 2) * (1024 : Nat)))).map (max (-1)) :=
    by_prefix_number (by decide) (j := 3) rfl one_and_a_half
  rw [size] at read
  cases read.symm.trans refused

end sizes
end VteBytesByPrefix
