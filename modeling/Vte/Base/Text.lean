import Mathlib.Algebra.Order.Ring.Nat
import Mathlib.Data.List.Basic

/-!
C strings as lists of characters without the terminator; a character is one byte.
Decimal conversion in both directions, the padding directives of `printf`, and `fgets`.
-/
namespace Text

abbrev Str := List Char

def decimal (i : Int) : Str :=
  if i < 0 then '-' :: Nat.toDigits 10 i.natAbs else Nat.toDigits 10 i.natAbs

def padRight (width : Nat) (s : Str) : Str := s ++ List.replicate (width - s.length) ' '

def padLeft (width : Nat) (s : Str) : Str := List.replicate (width - s.length) ' ' ++ s

def isSpace (c : Char) : Bool :=
  c == ' ' || c == '\t' || c == '\n' || c == '\x0b' || c == '\x0c' || c == '\r'

def digitsValue (s : Str) : Nat := Nat.ofDigitChars 10 (s.takeWhile Char.isDigit) 0

/-- `atoi`, where the value fits an `int`. -/
def atoi (s : Str) : Int :=
  match s.dropWhile isSpace with
  | '-' :: digits => - digitsValue digits
  | '+' :: digits => digitsValue digits
  | digits => digitsValue digits

def DigitFree (rest : Str) : Prop := ∀ c ∈ rest.head?, c.isDigit = false

theorem digit_range {c : Char} (digit : c.isDigit = true) : 48 ≤ c.toNat ∧ c.toNat ≤ 57 := by
  simp only [Char.isDigit, Bool.and_eq_true, decide_eq_true_eq] at digit
  exact ⟨UInt32.le_iff_toNat_le.mp digit.1, UInt32.le_iff_toNat_le.mp digit.2⟩

theorem digit_not_space {c : Char} (digit : c.isDigit = true) : isSpace c = false := by
  have range := digit_range digit
  have apart : ∀ d : Char, d.toNat < 48 → (c == d) = false := by
    intro d small
    rw [beq_eq_false_iff_ne]
    rintro rfl
    omega
  unfold isSpace
  rw [apart ' ' (by decide), apart '\t' (by decide), apart '\n' (by decide),
    apart '\x0b' (by decide), apart '\x0c' (by decide), apart '\r' (by decide)]
  rfl

theorem to_digits_digit {n : Nat} {c : Char} (mem : c ∈ Nat.toDigits 10 n) : c.isDigit = true :=
  Nat.isDigit_of_mem_toDigits (by decide) (by decide) mem

theorem to_digits_value (n : Nat) {rest : Str} (stop : DigitFree rest) :
    digitsValue (Nat.toDigits 10 n ++ rest) = n := by
  have ended : rest.takeWhile Char.isDigit = [] := by
    cases rest with
    | nil => rfl
    | cons c rest => simp [stop c (by simp)]
  rw [digitsValue, List.takeWhile_append_of_pos (fun c mem => to_digits_digit mem), ended, List.append_nil]
  exact Nat.ofDigitChars_toDigits (by decide) (by decide)

theorem to_digits_head (n : Nat) : ∃ c cs, Nat.toDigits 10 n = c :: cs ∧ c.isDigit = true := by
  cases digits : Nat.toDigits 10 n with
  | nil => exact absurd digits Nat.toDigits_ne_nil
  | cons c cs => exact ⟨c, cs, rfl, to_digits_digit (n := n) (by simp [digits])⟩

theorem atoi_decimal (i : Int) {rest : Str} (stop : DigitFree rest) :
    atoi (decimal i ++ rest) = i := by
  obtain ⟨c, cs, digits, digit⟩ := to_digits_head i.natAbs
  have value := to_digits_value i.natAbs stop
  by_cases neg : i < 0
  · have minus : isSpace '-' = false := by decide
    simp only [decimal, if_pos neg, atoi, List.cons_append, List.dropWhile_cons, minus,
      Bool.false_eq_true, if_false, value]
    omega
  · have minus : c ≠ '-' := by
      rintro rfl
      exact absurd digit (by decide)
    have plus : c ≠ '+' := by
      rintro rfl
      exact absurd digit (by decide)
    rw [digits, List.cons_append] at value
    simp only [decimal, if_neg neg, atoi, digits, List.cons_append, List.dropWhile_cons,
      digit_not_space digit, Bool.false_eq_true, if_false]
    split
    · rename_i head
      exact absurd (List.cons.inj head).1 minus
    · rename_i head
      exact absurd (List.cons.inj head).1 plus
    · omega

theorem decimal_no_newline (i : Int) : '\n' ∉ decimal i := by
  have digits : '\n' ∉ Nat.toDigits 10 i.natAbs := by
    intro mem
    exact absurd (to_digits_digit mem) (by decide)
  unfold decimal
  split <;> simp [digits]

theorem to_digits_length {n k : Nat} (pos : 0 < k) (small : n < 10 ^ k) :
    (Nat.toDigits 10 n).length ≤ k := by
  exact (Nat.length_toDigits_le_iff (by decide) pos).mpr small

def lineOf : Str → Str
  | [] => []
  | c :: cs => if c = '\n' then [c] else c :: lineOf cs

/-- `fgets` with a buffer of `size`: the line read and the new position, none at the end. -/
def fgets (size : Nat) (file : Str) (pos : Nat) : Option (Str × Nat) :=
  match file.drop pos with
  | [] => none
  | rest =>
    let line := (lineOf rest).take (size - 1)
    some (line, pos + line.length)

theorem line_of_line {line : Str} (single : '\n' ∉ line) (rest : Str) :
    lineOf (line ++ '\n' :: rest) = line ++ ['\n'] := by
  induction line with
  | nil => simp [lineOf]
  | cons c cs ih =>
    obtain ⟨other, tail⟩ := not_or.mp (mt List.mem_cons.mpr single)
    simp [lineOf, Ne.symm other, ih tail]

theorem fgets_line {size : Nat} {line : Str} (single : '\n' ∉ line) (room : line.length + 1 < size)
    (before after : Str) :
    fgets size (before ++ (line ++ '\n' :: after)) before.length =
      some (line ++ ['\n'], before.length + (line.length + 1)) := by
  have taken : (line ++ ['\n']).take (size - 1) = line ++ ['\n'] :=
    List.take_of_length_le (by simp; omega)
  have some_rest : line ++ '\n' :: after ≠ [] := by simp
  unfold fgets
  rw [List.drop_left]
  split
  · contradiction
  · simp [line_of_line single, taken]

/-- The tokens that `strtok` finds: the maximal runs without a separator. -/
def tokens (sep : Char → Bool) : Str → List Str
  | [] => []
  | c :: cs =>
    if sep c then tokens sep cs
    else
      match cs.head?, tokens sep cs with
      | some d, token :: rest => if sep d then [c] :: token :: rest else (c :: token) :: rest
      | _, rest => [c] :: rest

theorem tokens_separator {sep : Char → Bool} {c : Char} (separates : sep c = true) (s : Str) :
    tokens sep (c :: s) = tokens sep s := by
  rw [tokens, if_pos separates]

theorem token_some {sep : Char → Bool} {s token : Str} (mem : token ∈ tokens sep s) :
    token ≠ [] := by
  induction s generalizing token with
  | nil => cases mem
  | cons c cs ih =>
    rw [tokens] at mem
    split at mem
    · exact ih mem
    · split at mem
      · rename_i d token' rest _ found
        rw [found] at ih
        split at mem
        · rcases List.mem_cons.mp mem with rfl | mem
          · simp
          · exact ih mem
        · rcases List.mem_cons.mp mem with rfl | mem
          · simp
          · exact ih (List.mem_cons_of_mem _ mem)
      · rcases List.mem_cons.mp mem with rfl | mem
        · simp
        · exact ih mem

theorem tokens_start {sep : Char → Bool} {c : Char} (plain : sep c = false) (s : Str) :
    tokens sep (c :: s) ≠ [] := by
  rw [tokens, if_neg (by simp [plain])]
  split
  · split <;> simp
  · simp

theorem token_plain {sep : Char → Bool} {s token : Str} (mem : token ∈ tokens sep s) :
    ∀ c ∈ token, sep c = false := by
  induction s generalizing token with
  | nil => cases mem
  | cons c cs ih =>
    rw [tokens] at mem
    split at mem
    · exact ih mem
    · rename_i plain
      have single : ∀ d ∈ [c], sep d = false := by simpa using plain
      split at mem
      · rename_i d token' rest _ found
        rw [found] at ih
        split at mem
        · rcases List.mem_cons.mp mem with rfl | mem
          · exact single
          · exact ih mem
        · rcases List.mem_cons.mp mem with rfl | mem
          · exact List.forall_mem_cons.mpr ⟨by simpa using plain, ih (by simp)⟩
          · exact ih (List.mem_cons_of_mem _ mem)
      · rcases List.mem_cons.mp mem with rfl | mem
        · exact single
        · exact ih mem

theorem tokens_append {sep : Char → Bool} {c : Char} (separates : sep c = true) (u v : Str) :
    tokens sep (u ++ c :: v) = tokens sep u ++ tokens sep v := by
  induction u with
  | nil => exact tokens_separator separates v
  | cons a u ih =>
    rw [List.cons_append, tokens, tokens, ih]
    by_cases plain : sep a = true
    · rw [if_pos plain, if_pos plain]
    · rw [if_neg plain, if_neg plain]
      cases u with
      | nil => cases tokens sep v <;> simp [separates, tokens]
      | cons d u =>
        cases found : tokens sep (d :: u) with
        | cons token rest => cases inner : sep d <;> simp [inner]
        | nil =>
          have separated : sep d = true := by
            by_contra inner
            exact tokens_start (by simpa using inner) u found
          cases tokens sep v <;> simp [separated]

theorem tokens_separators {sep : Char → Bool} {blanks : Str} (separate : ∀ c ∈ blanks, sep c = true)
    (s : Str) : tokens sep (blanks ++ s) = tokens sep s := by
  induction blanks with
  | nil => rfl
  | cons c cs ih =>
    rw [List.cons_append, tokens_separator (separate c (by simp))]
    exact ih fun d mem => separate d (by simp [mem])

/-- A word that ends at a separator, or at the end of the text, is the first token. -/
theorem tokens_word {sep : Char → Bool} {w : Str} (some_word : w ≠ [])
    (word : ∀ c ∈ w, sep c = false) {rest : Str} (ends : ∀ c ∈ rest.head?, sep c = true) :
    tokens sep (w ++ rest) = w :: tokens sep rest := by
  induction w with
  | nil => exact absurd rfl some_word
  | cons c cs ih =>
    have here := word c (by simp)
    rw [List.cons_append, tokens, if_neg (by simp [here])]
    cases cs with
    | nil =>
      rw [List.nil_append]
      split
      · rename_i d token others head found
        rw [if_pos (ends d head), found]
      · rfl
    | cons d ds =>
      have other := word d (by simp)
      rw [ih (by simp) fun e mem => word e (by simp [mem])]
      simp [other]

theorem without_separator {c : Char} {w : Str} (missing : c ∉ w) : ∀ d ∈ w, (d == c) = false := by
  intro d member
  rw [beq_eq_false_iff_ne]
  rintro rfl
  exact missing member

theorem tokens_alone {sep : Char → Bool} {w : Str} (some_word : w ≠ [])
    (word : ∀ c ∈ w, sep c = false) : tokens sep w = [w] := by
  have ends : ∀ c ∈ ([] : Str).head?, sep c = true := by simp
  have first := tokens_word some_word word ends
  rwa [List.append_nil] at first

theorem fgets_end (size : Nat) (file : Str) : fgets size file file.length = none := by
  simp [fgets]

end Text
