import Mathlib.Data.List.TakeWhile
import Vte.Base.Text

/-!
Scanners generated by `lex`: patterns over character classes, rules with start conditions, `^` and
`$`, and the choice of the longest match, the first of equal length.
-/
namespace Lexer
open Text

/-- One step of a pattern. Classes that follow each other in a pattern are disjoint, so that taking
    as many characters as possible gives the longest match. -/
inductive Atom where
  | one (p : Char → Bool)
  | many (p : Char → Bool)
  | star (p : Char → Bool)

def matchLength : List Atom → Str → Option Nat
  | [], _ => some 0
  | .one _ :: _, [] => none
  | .one p :: atoms, c :: cs => if p c then (matchLength atoms cs).map (· + 1) else none
  | .many p :: atoms, s =>
    if s.takeWhile p = [] then none
    else (matchLength atoms (s.dropWhile p)).map (· + (s.takeWhile p).length)
  | .star p :: atoms, s =>
    (matchLength atoms (s.dropWhile p)).map (· + (s.takeWhile p).length)

def literal (s : Str) : List Atom := s.map fun c => .one (· == c)

structure Rule (σ τ : Type) where
  /-- The start condition, none for a rule that is active in all of them. -/
  start : Option σ
  /-- `^` -/
  bol : Bool
  pattern : List Atom
  /-- `$`: a newline follows, which counts for the length but is not taken. -/
  eol : Bool
  token : τ

variable {σ τ : Type} [DecidableEq σ]

def Rule.lengths (r : Rule σ τ) (start : σ) (bol : Bool) (text : Str) : Option (Nat × Nat) :=
  if (r.start = none ∨ r.start = some start) ∧ (r.bol → bol) then
    match matchLength r.pattern text with
    | none => none
    | some n =>
      if r.eol then
        if (text.drop n).head? = some '\n' then some (n + 1, n) else none
      else some (n, n)
  else none

def better (start : σ) (bol : Bool) (text : Str) (best : Option (τ × Nat × Nat)) (r : Rule σ τ) :
    Option (τ × Nat × Nat) :=
  match r.lengths start bol text, best with
  | none, best => best
  | some lengths, none => some (r.token, lengths)
  | some lengths, some (token, longest) =>
    if longest.1 < lengths.1 then some (r.token, lengths) else some (token, longest)

def select (rules : List (Rule σ τ)) (start : σ) (bol : Bool) (text : Str) : Option (τ × Nat) :=
  (rules.foldl (better start bol text) none).map fun best => (best.1, best.2.2)

section select
variable {start : σ} {bol : Bool} {text : Str} {r : Rule σ τ} {best : Option (τ × Nat × Nat)}

theorem other_start (own : σ) (own_start : r.start = some own) (other : own ≠ start) :
    r.lengths start bol text = none := by
  simp [Rule.lengths, own_start, other]

theorem inside_line (anchored : r.bol = true) : r.lengths start false text = none := by
  simp [Rule.lengths, anchored]

theorem no_match (absent : matchLength r.pattern text = none) :
    r.lengths start bol text = none := by
  simp [Rule.lengths, absent]

theorem fold_absent {rules : List (Rule σ τ)}
    (absent : ∀ r ∈ rules, r.lengths start bol text = none) :
    rules.foldl (better start bol text) best = best := by
  induction rules with
  | nil => rfl
  | cons r rules ih =>
    have here : better start bol text best r = best := by
      simp [better, absent r (by simp)]
    rw [List.foldl_cons, here]
    exact ih fun r mem => absent r (by simp [mem])

theorem select_rule {rules : List (Rule σ τ)} {token : τ} {n : Nat}
    (selected : select rules start bol text = some (token, n)) :
    ∃ r ∈ rules, r.token = token ∧ matchLength r.pattern text = some n := by
  have folded : ∀ (rules : List (Rule σ τ)) (best : Option (τ × Nat × Nat)) (found : τ × Nat × Nat),
      rules.foldl (better start bol text) best = some found → best = some found ∨
        ∃ r ∈ rules, r.token = found.1 ∧ r.lengths start bol text = some found.2 := by
    intro rules
    induction rules with
    | nil => exact fun best found last => Or.inl last
    | cons r rules ih =>
      intro best found last
      rcases ih _ _ last with next | ⟨r', mem, matched⟩
      · unfold better at next
        split at next
        · exact Or.inl next
        · rename_i lengths
          cases next
          exact Or.inr ⟨r, by simp, rfl, lengths⟩
        · rename_i lengths
          split at next
          · cases next
            exact Or.inr ⟨r, by simp, rfl, lengths⟩
          · exact Or.inl next
      · exact Or.inr ⟨r', by simp [mem], matched⟩
  obtain ⟨found, last, same⟩ := Option.map_eq_some_iff.mp selected
  rcases folded rules none found last with none | ⟨r, mem, token', lengths⟩
  · cases none
  · refine ⟨r, mem, token'.trans (congrArg Prod.fst same), ?_⟩
    have taken : found.2.2 = n := congrArg Prod.snd same
    unfold Rule.lengths at lengths
    split at lengths
    · split at lengths
      · cases lengths
      · rename_i m matched
        split at lengths
        · split at lengths
          · have whole : m = found.2.2 := congrArg Prod.snd (Option.some.inj lengths)
            rw [matched, whole, taken]
          · cases lengths
        · have whole : m = found.2.2 := congrArg Prod.snd (Option.some.inj lengths)
          rw [matched, whole, taken]
    · cases lengths

end select

theorem many_matched {p : Char → Bool} {atoms : List Atom} {text : Str} {n : Nat}
    (matched : matchLength (.many p :: atoms) text = some n) :
    ∃ w rest m, text = w ++ rest ∧ w ≠ [] ∧ (∀ c ∈ w, p c = true) ∧
      matchLength atoms rest = some m ∧ n = w.length + m := by
  rw [matchLength] at matched
  split at matched
  · cases matched
  · rename_i some_word
    obtain ⟨m, rest, rfl⟩ := Option.map_eq_some_iff.mp matched
    exact ⟨text.takeWhile p, text.dropWhile p, m, (List.takeWhile_append_dropWhile ..).symm,
      some_word, fun c mem => List.mem_takeWhile_imp mem, rest, Nat.add_comm _ _⟩

theorem one_matched {p : Char → Bool} {atoms : List Atom} {text : Str} {n : Nat}
    (matched : matchLength (.one p :: atoms) text = some n) :
    ∃ c rest m, text = c :: rest ∧ p c = true ∧ matchLength atoms rest = some m ∧ n = m + 1 := by
  cases text with
  | nil => cases matched
  | cons c rest =>
    rw [matchLength] at matched
    split at matched
    · rename_i here
      obtain ⟨m, next, rfl⟩ := Option.map_eq_some_iff.mp matched
      exact ⟨c, rest, m, rfl, here, next, rfl⟩
    · cases matched

theorem match_many {p : Char → Bool} (atoms : List Atom) {w rest : Str} (some_word : w ≠ [])
    (word : ∀ c ∈ w, p c = true) (stops : ∀ c ∈ rest.head?, p c = false) :
    matchLength (.many p :: atoms) (w ++ rest) = (matchLength atoms rest).map (· + w.length) := by
  have stopped : rest.takeWhile p = [] ∧ rest.dropWhile p = rest := by
    cases rest with
    | nil => exact ⟨rfl, rfl⟩
    | cons c cs => simp [stops c (by simp)]
  have taken : (w ++ rest).takeWhile p = w := by
    rw [List.takeWhile_append_of_pos word, stopped.1, List.append_nil]
  have left : (w ++ rest).dropWhile p = rest := by
    rw [List.dropWhile_append_of_pos word, stopped.2]
  rw [matchLength, taken, left, if_neg some_word]

theorem match_one {p : Char → Bool} (atoms : List Atom) {c : Char} (here : p c = true)
    (rest : Str) :
    matchLength (.one p :: atoms) (c :: rest) = (matchLength atoms rest).map (· + 1) := by
  rw [matchLength, if_pos here]

theorem match_one_none {p : Char → Bool} {atoms : List Atom} {text : Str}
    (stops : ∀ c ∈ text.head?, p c = false) : matchLength (.one p :: atoms) text = none := by
  cases text with
  | nil => rfl
  | cons c cs => simp [matchLength, stops c (by simp)]

end Lexer
