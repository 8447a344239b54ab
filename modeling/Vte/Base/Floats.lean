import Mathlib.Data.Rat.Floor
import Vte.Base.ScanFloat
import Vte.Base.SigBits

/-!
Binary floating-point values with bounded exponents, the conversions between them, and the functions of the library
that read them from a text.
-/
namespace Floats
open Text SigBits ScanFloat

inductive Value where
  | finite (x : ℚ)
  | infinite (negative : Bool)
  | nan
deriving DecidableEq

/-- With so many bits, none of them below `2 ^ least`. -/
def roundTo (bits : Nat) (least : Int) (x : ℚ) : ℚ :=
  let e := max (lastBit bits x) least
  roundEven (x / 2 ^ e) * 2 ^ e

/-- A value that is rounded to `2 ^ most` or more is infinite. -/
def narrow (bits : Nat) (least : Int) (most : Nat) : Value → Value
  | .finite x =>
    if 2 ^ most ≤ |roundTo bits least x| then .infinite (decide (x < 0)) else .finite (roundTo bits least x)
  | other => other

def float : Value → Value := narrow 24 (-149) 128

def double : Value → Value := narrow 53 (-1074) 1024

def Value.isZero : Value → Bool
  | .finite x => x == 0
  | _ => false

def Value.nonneg : Value → Bool
  | .finite x => decide (0 ≤ x)
  | .infinite negative => !negative
  | .nan => false

def Value.times (factor : ℚ) : Value → Value
  | .finite x => .finite (x * factor)
  | .infinite negative => .infinite (negative != decide (factor < 0))
  | .nan => .nan

/-- `(uint64_t)`; a value that does not fit is not defined. -/
def Value.toU64 : Value → Option Nat
  | .finite x => if -1 < x ∧ x < 18446744073709551616 then some ⌊x⌋.toNat else none
  | _ => none

def scanned (s : Scan) : Value :=
  match s.place with
  | .infinity _ => .infinite s.negative
  | _ =>
    match s.number with
    | .finite x => .finite x
    | .special => .nan

def longest (s : Scan) (best : Option Scan) : Str → Option Scan
  | [] => if s.complete then some s else best
  | c :: cs =>
    match s.step c with
    | none => if s.complete then some s else best
    | some s' => longest s' (if s.complete then some s else best) cs

def atof (s : Str) : Value :=
  match longest start none (s.dropWhile isSpace) with
  | none => .finite 0
  | some scan => double (scanned scan)

def sscanf_f (s : Str) : Option Value :=
  let (scan, _) := start.run (s.dropWhile isSpace)
  if scan.complete then some (float (scanned scan)) else none

example : float (atof "0.1s".toList) = .finite (13421773 / 134217728) := by decide +kernel

theorem floor_near (x : ℚ) (m : Int) (near : m = ⌊x⌋ ∨ m = ⌊x⌋ + 1) : |(m : ℚ) - x| ≤ 1 := by
  have low := Int.floor_le x
  have high := Int.lt_floor_add_one x
  rw [abs_le]
  rcases near with same | next
  · rw [same]
    constructor <;> linarith
  · rw [next]
    push_cast
    constructor <;> linarith

theorem round_to_close (bits : Nat) (least : Int) (x : ℚ) :
    |roundTo bits least x - x| ≤ 2 ^ max (lastBit bits x) least := by
  unfold roundTo
  generalize max (lastBit bits x) least = e
  have unit := two_zpow_pos (K := ℚ) e
  have near := floor_near (x / 2 ^ e) (roundEven (x / 2 ^ e)) ((round_even_floor _).2.imp_right And.left)
  have split : (roundEven (x / 2 ^ e) : ℚ) * 2 ^ e - x = (roundEven (x / 2 ^ e) - x / 2 ^ e) * 2 ^ e := by
    rw [sub_mul, div_mul_cancel₀ _ (ne_of_gt unit)]
  dsimp only
  rw [split, abs_mul, abs_of_pos unit]
  exact mul_le_of_le_one_left (le_of_lt unit) near

theorem last_bit_small (bits : Nat) (x : ℚ) (some_value : x ≠ 0) : (2 : ℚ) ^ lastBit bits x ≤ |x| * 2 / 2 ^ bits := by
  have lower := Int.zpow_log_le_self (b := 2) (by norm_num) (abs_pos.mpr some_value)
  rw [lastBit, zpow_sub₀ (by norm_num), zpow_add₀ (by norm_num), zpow_one, zpow_natCast]
  gcongr
  exact_mod_cast lower

end Floats
