import Vte.Pan.Splitstr

/-!
lib/string_to_tokens.c: a string taken apart into the caller's array of pointers. A pointer is a position
in the string's memory; a result is none when an access leaves the array.
-/
namespace VteStringToTokens
open Text CString VteSplitstr

structure Ret where
  argString : Str
  argArray : List Cell
  count : Int
deriving DecidableEq

/-- The `for` loop, with as many rounds left as `num_toks` is below `array_size`. -/
def tokLoop (sep : Char → Bool) : Nat → Str → Nat → List Cell → Nat → Option (Str × List Cell × Nat)
  | 0, argString, _, argArray, numToks => some (argString, argArray, numToks)
  | left + 1, argString, saved, argArray, numToks => do
    let (tok, argString, saved) ← strtok sep argString saved
    match tok with
    | none => do
      let argArray ← put argArray numToks .null
      some (argString, argArray, numToks)
    | some tok => do
      let argArray ← put argArray numToks (.ptr tok)
      tokLoop sep left argString saved argArray (numToks + 1)

/-- `string_to_tokens`; `argArray` and `separator` may be NULL. -/
def stringToTokens (argString : CStr) (argArray : Option (List Cell)) (arraySize : Int)
    (separator : Option CStr) : Option Ret :=
  match argArray, separator with
  | some argArray, some separator =>
    if arraySize ≤ 1 then some ⟨argString.block, argArray, -1⟩
    else do
      let sep := separators (some separator)
      let (tok, mem, saved) ← strtok sep argString.block 0
      match tok with
      | none => do
        let argArray ← put argArray 0 .null
        some ⟨mem, argArray, 0⟩
      | some tok => do
        let argArray ← put argArray 0 (.ptr tok)
        let (mem, argArray, numToks) ← tokLoop sep (arraySize.toNat - 1) mem saved argArray 1
        let argArray ← if (numToks : Int) = arraySize then put argArray numToks .null else some argArray
        some ⟨mem, argArray, numToks⟩
  | argArray, _ => some ⟨argString.block, argArray.getD [], -1⟩

/-- As many tokens as the array has places but one are stored, then a NULL, and counted. -/
structure Stores (toks : List Str) (size : Nat) (ret : Ret) : Prop where
  count : ret.count = (min toks.length (size - 1) : Nat)
  strings : ∀ (k : Nat) (token : Str), (toks.take (size - 1))[k]? = some token →
    ∃ p, ret.argArray[k]? = some (Cell.ptr p) ∧ cstr ret.argString p = some token
  ended : ret.argArray[min toks.length (size - 1)]? = some Cell.null

/-- The call stays in an array of `array_size` places and stores what it should there. -/
def Right (argString separator : CStr) (argArray : List Cell) : Prop :=
  ∃ ret, stringToTokens argString (some argArray) argArray.length (some separator) = some ret ∧
    Stores (tokens (separators (some separator)) argString.chars) argArray.length ret

section array
variable {sep : Char → Bool}

/-- The first places of the array hold pointers to the tokens found, which stand out of reach of the
    calls to come on the rest of the string. -/
structure Begun (sep : Char → Bool) (mem : Str) (saved : Nat) (array : List Cell) (rest : Str)
    (ptrs : List Nat) (found others : List Str) : Prop where
  cells : ∀ k, k < ptrs.length → array[k]? = (ptrs[k]?).map Cell.ptr
  placed : List.Forall₂ (Placed mem saved rest) ptrs found
  remains : At mem saved rest
  left : tokens sep rest = others

variable {mem : Str} {saved : Nat} {array : List Cell} {rest : Str} {ptrs : List Nat}
  {found others : List Str}

theorem cells_next {p : Nat} (cells : ∀ k, k < ptrs.length → array[k]? = (ptrs[k]?).map Cell.ptr)
    (room : ptrs.length < array.length) :
    ∀ k, k < (ptrs ++ [p]).length → (array.set ptrs.length (.ptr p))[k]? = ((ptrs ++ [p])[k]?).map Cell.ptr := by
  intro k low
  rw [List.length_append, List.length_singleton] at low
  by_cases last : k = ptrs.length
  · rw [last, List.getElem?_set_self room, List.getElem?_append_right (Nat.le_refl _), Nat.sub_self]
    rfl
  · rw [List.getElem?_set_ne (by omega), List.getElem?_append_left (by omega)]
    exact cells k (by omega)

theorem begun_next {token : Str} (begun : Begun sep mem saved array rest ptrs found (token :: others))
    (room : ptrs.length < array.length) :
    ∃ q later saved' rest', strtok sep mem saved = some (some q, later, saved') ∧
      Begun sep later saved' (array.set ptrs.length (.ptr q)) rest' (ptrs ++ [q])
        (found ++ [token]) others := by
  obtain ⟨q, later, saved', rest', taken⟩ := strtok_some begun.remains begun.left
  exact ⟨q, later, saved', rest', taken.returned, cells_next begun.cells room,
    placed_next begun.placed begun.left taken, taken.at_rest, taken.left⟩

end array

section loop
variable {sep : Char → Bool} {mem : Str} {saved : Nat} {array : List Cell} {rest : Str}
  {ptrs : List Nat} {found others : List Str}

theorem tok_loop_turn {left q saved' : Nat} {later : Str}
    (call : strtok sep mem saved = some (some q, later, saved')) (room : ptrs.length < array.length) :
    tokLoop sep (left + 1) mem saved array ptrs.length =
      tokLoop sep left later saved' (array.set ptrs.length (.ptr q)) (ptrs ++ [q]).length := by
  rw [tokLoop, call, List.length_append]
  simp only [Option.bind_eq_bind, Option.bind_some, put_some room, List.length_singleton]

theorem tok_loop_all (left : Nat) (begun : Begun sep mem saved array rest ptrs found others)
    (spare : others.length < left) (inside : ptrs.length + left ≤ array.length) :
    ∃ mem' array' more, tokLoop sep left mem saved array ptrs.length =
        some (mem', array', ptrs.length + others.length) ∧
      (∀ k, k < (ptrs ++ more).length → array'[k]? = ((ptrs ++ more)[k]?).map Cell.ptr) ∧
      List.Forall₂ (At mem') (ptrs ++ more) (found ++ others) ∧
      array'[(ptrs ++ more).length]? = some Cell.null := by
  induction others generalizing mem saved array rest ptrs found left with
  | nil =>
    obtain ⟨saved', ended⟩ := strtok_none begun.remains begun.left
    obtain ⟨left, rfl⟩ : ∃ n, left = n + 1 := ⟨left - 1, by omega⟩
    refine ⟨mem, array.set ptrs.length .null, [], ?_, ?_, ?_, ?_⟩
    · rw [tokLoop, ended]
      simp only [Option.bind_eq_bind, Option.bind_some, put_some (show ptrs.length < array.length by omega),
        List.length_nil, Nat.add_zero]
    · intro k low
      rw [List.append_nil] at low ⊢
      rw [List.getElem?_set_ne (by omega)]
      exact begun.cells k low
    · rw [List.append_nil, List.append_nil]
      exact begun.placed.imp fun _ _ here => here.1
    · rw [List.append_nil, List.getElem?_set_self (by omega)]
  | cons token others ih =>
    obtain ⟨left, rfl⟩ : ∃ n, left = n + 1 := ⟨left - 1, by omega⟩
    obtain ⟨q, later, saved', rest', call, next⟩ := begun_next begun (by omega)
    rw [List.length_cons] at spare
    obtain ⟨mem', array', more, looped, cells, placed, ended⟩ := ih left next (by omega)
      (by rw [List.length_append, List.length_singleton, List.length_set]; omega)
    rw [List.append_assoc, List.singleton_append] at cells placed ended
    rw [List.append_assoc, List.singleton_append] at placed
    refine ⟨mem', array', q :: more, ?_, cells, placed, ended⟩
    rw [tok_loop_turn call (by omega), looped, List.length_append, List.length_singleton, List.length_cons]
    simp only [Option.some.injEq, Prod.mk.injEq, true_and]
    omega

theorem tok_loop_full (left : Nat) (begun : Begun sep mem saved array rest ptrs found others)
    (many : left ≤ others.length) (inside : ptrs.length + left ≤ array.length) :
    ∃ mem' array', tokLoop sep left mem saved array ptrs.length =
      some (mem', array', ptrs.length + left) ∧ array'.length = array.length := by
  induction left generalizing mem saved array rest ptrs found others with
  | zero => exact ⟨mem, array, rfl, rfl⟩
  | succ left ih =>
    cases others with
    | nil => cases many
    | cons token others =>
      rw [List.length_cons] at many
      obtain ⟨q, later, saved', rest', call, next⟩ := begun_next begun (by omega)
      obtain ⟨mem', array', looped, size⟩ := ih next (by omega)
        (by rw [List.length_append, List.length_singleton, List.length_set]; omega)
      rw [List.length_set] at size
      refine ⟨mem', array', ?_, size⟩
      rw [tok_loop_turn call (by omega), looped, List.length_append, List.length_singleton]
      simp only [Option.some.injEq, Prod.mk.injEq, true_and]
      omega

end loop

section call
variable {str separator : CStr} {array : List Cell}

theorem call_started (places : 2 ≤ array.length) :
    stringToTokens str (some array) array.length (some separator) = (do
      let sep := separators (some separator)
      let (tok, mem, saved) ← strtok sep str.block 0
      match tok with
      | none => do
        let argArray ← put array 0 .null
        some ⟨mem, argArray, 0⟩
      | some tok => do
        let argArray ← put array 0 (.ptr tok)
        let (mem, argArray, numToks) ← tokLoop sep (array.length - 1) mem saved argArray 1
        let argArray ← if (numToks : Int) = array.length then put argArray numToks .null
          else some argArray
        some ⟨mem, argArray, numToks⟩) := by
  rw [stringToTokens, if_neg (by omega), Int.toNat_natCast]

theorem first_begun {token : Str} {others : List Str} (sep : Char → Bool)
    (found : tokens sep str.chars = token :: others) (room : 0 < array.length) :
    ∃ q mem saved rest, strtok sep str.block 0 = some (some q, mem, saved) ∧
      Begun sep mem saved (array.set 0 (.ptr q)) rest [q] [token] others := by
  have start : Begun sep str.block 0 array str.chars [] [] (token :: others) :=
    ⟨fun k low => absurd low (Nat.not_lt_zero k), .nil, block_at str, found⟩
  exact begun_next start room

theorem few_tokens_right (places : 2 ≤ array.length)
    (few : (tokens (separators (some separator)) str.chars).length < array.length) :
    Right str separator array := by
  unfold Right
  rw [call_started places]
  generalize separators (some separator) = sep at *
  cases found : tokens sep str.chars with
  | nil =>
    obtain ⟨saved, ended⟩ := strtok_none (block_at str) found
    refine ⟨⟨str.block, array.set 0 .null, 0⟩, ?_, by simp, ?_, ?_⟩
    · simp only [ended, Option.bind_eq_bind, Option.bind_some, put_some (show 0 < array.length by omega)]
    · intro k token at_k
      rw [List.take_nil] at at_k
      cases at_k
    · rw [List.length_nil, Nat.zero_min, List.getElem?_set_self (by omega)]
  | cons token others =>
    rw [found, List.length_cons] at few
    obtain ⟨q, mem, saved, rest, call, begun⟩ := first_begun sep found (show 0 < array.length by omega)
    obtain ⟨mem', array', more, looped, cells, placed, ended⟩ :=
      tok_loop_all (array.length - 1) begun (by omega)
        (by rw [List.length_set, List.length_singleton]; omega)
    rw [List.length_singleton] at looped
    have stored := placed.length_eq
    rw [List.length_append, List.length_singleton, List.length_append, List.length_singleton] at stored
    have all : min (token :: others).length (array.length - 1) = 1 + others.length := by
      rw [List.length_cons]
      omega
    refine ⟨⟨mem', array', (1 + others.length : Nat)⟩, ?_, by rw [all], ?_, ?_⟩
    · simp only [call, looped, Option.bind_eq_bind, Option.bind_some, put_some (show 0 < array.length by omega)]
      rw [if_neg (by omega)]
    · intro k u at_k
      rw [List.take_of_length_le (by rw [List.length_cons]; omega)] at at_k
      have low := (List.getElem?_eq_some_iff.mp at_k).1
      have inside : k < ([q] ++ more).length := by
        rw [List.length_cons] at low
        rw [List.length_append, List.length_singleton]
        omega
      refine ⟨([q] ++ more)[k], ?_, ?_⟩
      · rw [cells k inside, List.getElem?_eq_getElem inside]
        rfl
      · have here := placed.get inside low
        rw [List.getElem?_eq_getElem low, Option.some.injEq] at at_k
        subst at_k
        exact at_cstr here
    · rw [all, ← stored, ← ended]
      rw [List.length_append, List.length_singleton]

theorem many_tokens_outside (places : 2 ≤ array.length)
    (many : array.length ≤ (tokens (separators (some separator)) str.chars).length) :
    stringToTokens str (some array) array.length (some separator) = none := by
  rw [call_started places]
  generalize separators (some separator) = sep at *
  cases found : tokens sep str.chars with
  | nil =>
    rw [found, List.length_nil] at many
    omega
  | cons token others =>
    rw [found, List.length_cons] at many
    obtain ⟨q, mem, saved, rest, call, begun⟩ := first_begun sep found (show 0 < array.length by omega)
    obtain ⟨mem', array', looped, size⟩ := tok_loop_full (array.length - 1) begun (by omega)
      (by rw [List.length_set, List.length_singleton]; omega)
    rw [List.length_singleton, show 1 + (array.length - 1) = array.length by omega] at looped
    rw [List.length_set] at size
    simp only [call, looped, Option.bind_eq_bind, Option.bind_some, put_some (show 0 < array.length by omega)]
    -- every place holds a pointer, and the NULL goes behind the last one
    rw [if_pos trivial, put, if_neg (by omega)]
    rfl

/-- The call keeps to the array and stores what it should just when the array has room for all the
    tokens and the NULL, and at least two places. -/
theorem string_to_tokens_right_iff (str separator : CStr) (array : List Cell) :
    Right str separator array ↔
      2 ≤ array.length ∧ (tokens (separators (some separator)) str.chars).length < array.length := by
  constructor
  · rintro ⟨ret, called, stores⟩
    by_cases places : 2 ≤ array.length
    · refine ⟨places, ?_⟩
      by_contra many
      rw [many_tokens_outside places (by omega)] at called
      cases called
    · have refused : stringToTokens str (some array) array.length (some separator) = some ⟨str.block, array, -1⟩ := by
        rw [stringToTokens, if_pos (by omega)]
      rw [refused] at called
      obtain rfl := Option.some.inj called
      have counted := stores.count
      exact absurd counted (by simp only; omega)
  · rintro ⟨places, few⟩
    exact few_tokens_right places few

theorem two_tokens_two_places :
    ¬ Right ⟨"a,b".toList, by decide⟩ ⟨",".toList, by decide⟩ [.uninit, .uninit] := by
  rintro ⟨ret, called, -⟩
  rw [many_tokens_outside (by decide) (by decide +kernel)] at called
  cases called

end call
end VteStringToTokens
