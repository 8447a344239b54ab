import Mathlib.Data.Rat.Defs
import Mathlib.Tactic.Ring
import Vte.Base.Digits

/-!
The item that `%f` of `scanf` takes from the head of a text: the longest run that a floating-point
number can start with, in decimal or hexadecimal, or one of the words for infinity and not-a-number.
When the run is not itself a number, the conversion fails.
-/
namespace ScanFloat
open Text Digits

inductive Place where
  | start
  | signed
  | zero
  | prefixed
  | whole
  | point
  | fraction
  | mark
  | markSign
  | power
  | infinity (k : Nat)
  | nan (k : Nat)
  | payload
  | closed

/-- Where the run has come to, and the number read so far. -/
structure Scan where
  place : Place
  negative : Bool
  hex : Bool
  mantissa : Nat
  places : Nat
  powerNegative : Bool
  power : Nat

inductive Number where
  | finite (x : ℚ)
  | special

def start : Scan := ⟨.start, false, false, 0, 0, false, 0⟩

def Scan.base (s : Scan) : Nat := if s.hex then 16 else 10

def Scan.isMark (s : Scan) (c : Char) : Bool := c.toLower == if s.hex then 'p' else 'e'

def Scan.first (s : Scan) (c : Char) : Option Scan :=
  if c = '0' then some { s with place := .zero }
  else if digit c < 10 then some { s with place := .whole, mantissa := digit c }
  else if c = '.' then some { s with place := .point }
  else if c.toLower = 'i' then some { s with place := .infinity 1 }
  else if c.toLower = 'n' then some { s with place := .nan 1 }
  else none

def Scan.more (s : Scan) (c : Char) : Option Scan :=
  if digit c < s.base then some { s with place := .whole, mantissa := s.mantissa * s.base + digit c }
  else if c = '.' then some { s with place := .fraction }
  else if s.isMark c then some { s with place := .mark }
  else none

def Scan.behind (s : Scan) (c : Char) : Scan :=
  { s with place := .fraction, mantissa := s.mantissa * s.base + digit c, places := s.places + 1 }

def Scan.raise (s : Scan) (c : Char) : Option Scan :=
  if digit c < 10 then some { s with place := .power, power := s.power * 10 + digit c } else none

def Scan.step (s : Scan) (c : Char) : Option Scan :=
  match s.place with
  | .start =>
    if c = '-' then some { s with place := .signed, negative := true }
    else if c = '+' then some { s with place := .signed }
    else s.first c
  | .signed => s.first c
  | .zero =>
    if c.toLower = 'x' then some { s with place := .prefixed, hex := true } else s.more c
  | .prefixed =>
    if digit c < 16 then some { s with place := .whole, mantissa := digit c }
    else if c = '.' then some { s with place := .point }
    else none
  | .whole => s.more c
  | .point => if digit c < s.base then some (s.behind c) else none
  | .fraction =>
    if digit c < s.base then some (s.behind c)
    else if s.isMark c then some { s with place := .mark }
    else none
  | .mark =>
    if c = '-' then some { s with place := .markSign, powerNegative := true }
    else if c = '+' then some { s with place := .markSign }
    else s.raise c
  | .markSign => s.raise c
  | .power => s.raise c
  | .infinity k =>
    if "infinity".toList[k]? = some c.toLower then some { s with place := .infinity (k + 1) } else none
  | .nan k =>
    if k = 3 ∧ c = '(' then some { s with place := .payload }
    else if "nan".toList[k]? = some c.toLower then some { s with place := .nan (k + 1) }
    else none
  | .payload =>
    if c = ')' then some { s with place := .closed }
    else if c.isAlphanum ∨ c = '_' then some s
    else none
  | .closed => none

def Scan.run (s : Scan) : Str → Scan × Str
  | [] => (s, [])
  | c :: cs =>
    match s.step c with
    | none => (s, c :: cs)
    | some s => s.run cs

def Scan.complete (s : Scan) : Bool :=
  match s.place with
  | .zero | .whole | .fraction | .power | .infinity 3 | .infinity 8 | .nan 3 | .closed => true
  | _ => false

def Scan.number (s : Scan) : Number :=
  match s.place with
  | .infinity _ | .nan _ | .closed => .special
  | _ =>
    let raised : ℚ := (if s.hex then 2 else 10) ^ s.power
    let size : ℚ := s.mantissa * (if s.powerNegative then raised⁻¹ else raised) / s.base ^ s.places
    .finite (if s.negative then -size else size)

def scanFloat (s : Str) : Option (Number × Str) :=
  let (scan, rest) := start.run s
  if scan.complete then some (scan.number, rest) else none

section digits
variable {s rest : Str} {c : Char}

theorem digit_lower (decimal : c.isDigit = true) : c.toLower = c := by
  have range := digit_range decimal
  unfold Char.toLower
  rw [dif_neg]
  intro upper
  have least : 65 ≤ c.toNat := UInt32.le_iff_toNat_le.mp upper.1
  omega

def EndsDigits (rest : Str) : Prop :=
  ∀ c ∈ rest.head?, 10 ≤ digit c ∧ c ≠ '.' ∧ c.toLower ≠ 'e' ∧ c.toLower ≠ 'x'

theorem run_end {scan : Scan} (ends : EndsDigits rest) (decimal : scan.hex = false)
    (place : scan.place = .zero ∨ scan.place = .whole) : scan.run rest = (scan, rest) := by
  cases rest with
  | nil => rfl
  | cons c cs =>
    obtain ⟨large, no_point, no_mark, no_prefix⟩ := ends c rfl
    have stopped : scan.more c = none := by
      unfold Scan.more Scan.base Scan.isMark
      rw [decimal]
      simp [no_point, no_mark, large]
    rw [Scan.run]
    rcases place with zero | whole
    · rw [Scan.step, zero]
      dsimp only
      rw [if_neg no_prefix, stopped]
    · rw [Scan.step, whole]
      dsimp only
      rw [stopped]

theorem step_digit {scan : Scan} (digit_here : c.isDigit = true) (decimal : scan.hex = false)
    (place : scan.place = .zero ∨ scan.place = .whole) : scan.step c =
      some { scan with place := .whole, mantissa := scan.mantissa * 10 + digit c } := by
  have small := digit_lt_ten digit_here
  have more : scan.more c = some { scan with place := .whole, mantissa := scan.mantissa * 10 + digit c } := by
    unfold Scan.more Scan.base
    rw [decimal]
    simp [small]
  have no_prefix : c.toLower ≠ 'x' := by
    rw [digit_lower digit_here]
    rintro rfl
    cases digit_here
  rw [Scan.step]
  rcases place with zero | whole
  · rw [zero]
    dsimp only
    rw [if_neg no_prefix, more]
  · rw [whole]
    exact more

theorem start_digit (digit_here : c.isDigit = true) : ∃ place, (place = .zero ∨ place = .whole) ∧
    start.step c = some { start with place := place, mantissa := digit c } := by
  have small := digit_lt_ten digit_here
  have minus : c ≠ '-' := by
    rintro rfl
    cases digit_here
  have plus : c ≠ '+' := by
    rintro rfl
    cases digit_here
  have first : start.step c = start.first c := by
    rw [Scan.step]
    simp [start, minus, plus]
  rw [first, Scan.first]
  by_cases zero : c = '0'
  · subst zero
    exact ⟨.zero, .inl rfl, rfl⟩
  · rw [if_neg zero, if_pos small]
    exact ⟨.whole, .inr rfl, rfl⟩

theorem run_digits (scan : Scan) (digits : OnlyDigits s) (ends : EndsDigits rest)
    (decimal : scan.hex = false) (place : scan.place = .zero ∨ scan.place = .whole) :
    ∃ place, (place = .zero ∨ place = .whole) ∧ scan.run (s ++ rest) =
      ({ scan with place := place, mantissa := numberFrom 10 scan.mantissa s }, rest) := by
  induction s generalizing scan with
  | nil => exact ⟨scan.place, place, run_end ends decimal place⟩
  | cons c s ih =>
    have here := digits c (List.mem_cons_self ..)
    have later : OnlyDigits s := fun d member => digits d (List.mem_cons_of_mem c member)
    obtain ⟨last, known, ran⟩ := ih
      { scan with place := .whole, mantissa := scan.mantissa * 10 + digit c } later decimal (.inr rfl)
    refine ⟨last, known, ?_⟩
    rw [List.cons_append, Scan.run, step_digit here decimal place, numberFrom, if_pos (digit_lt_ten here)]
    exact ran

theorem scan_digits (some_digit : s ≠ []) (digits : OnlyDigits s) (ends : EndsDigits rest) :
    scanFloat (s ++ rest) = some (.finite (number 10 s), rest) := by
  obtain ⟨c, s, rfl⟩ := List.exists_cons_of_ne_nil some_digit
  have here := digits c (List.mem_cons_self ..)
  have later : OnlyDigits s := fun d member => digits d (List.mem_cons_of_mem c member)
  obtain ⟨place, known, began⟩ := start_digit here
  obtain ⟨last, ended, ran⟩ :=
    run_digits { start with place := place, mantissa := digit c } later ends rfl known
  have whole : start.run (c :: s ++ rest) = ({ start with place := last, mantissa := number 10 (c :: s) }, rest) := by
    rw [List.cons_append, Scan.run, began, number_cons_digit (digit_lt_ten here)]
    exact ran
  unfold scanFloat
  rw [whole]
  generalize number 10 (c :: s) = n
  rcases ended with rfl | rfl
  · simp [Scan.complete, Scan.number, start]
  · simp [Scan.complete, Scan.number, start]

end digits
end ScanFloat
