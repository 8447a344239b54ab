import Mathlib.Data.List.Forall2
import Vte.Base.CString

/-!
pan/splitstr.c: a string taken apart into an array of pointers to its tokens, which stand in a private
copy of it, and the call that frees both. A pointer is a position in that copy; the allocations
succeed, and a result is none when an access leaves its array.
-/
namespace VteSplitstr
open Text CString

inductive Cell where
  | uninit
  | null
  | ptr (p : Nat)
deriving DecidableEq

def put (array : List Cell) (i : Nat) (cell : Cell) : Option (List Cell) :=
  if i < array.length then some (array.set i cell) else none

structure Work where
  argString : Str
  saved : Nat
  argArray : List Cell
  numToks : Nat
  maxToks : Nat
  curTok : Option Nat

/-- `if (num_toks == max_toks)` the array gets 20 more places. -/
def grow (w : Work) : Work :=
  if w.numToks = w.maxToks then
    { w with maxToks := w.maxToks + 20, argArray := w.argArray ++ List.replicate 20 .uninit }
  else w

def splitLoop (sep : Char → Bool) : Nat → Work → Option Work
  | 0, _ => none
  | fuel + 1, w =>
    match w.curTok with
    | none => some w
    | some tok => do
      let argArray ← put w.argArray w.numToks (.ptr tok)
      let (curTok, argString, saved) ← strtok sep w.argString w.saved
      splitLoop sep fuel (grow ⟨argString, saved, argArray, w.numToks + 1, w.maxToks, curTok⟩)

/-- The places from `i` on, as many as are left, become NULL. -/
def fillNull : Nat → Nat → List Cell → Option (List Cell)
  | 0, _, array => some array
  | left + 1, i, array => do
    let array ← put array i .null
    fillNull left (i + 1) array

/-- The array returned, the block its pointers go into, and `*argcount`. -/
structure Split where
  argString : Str
  argArray : List Cell
  argcount : Nat

def separators : Option CStr → Char → Bool
  | none => fun c => [' ', '\t'].contains c
  | some separator => fun c => separator.chars.contains c

/-- `splitstr`; a NULL string gives NULL. -/
def splitstr (fuel : Nat) (str separator : Option CStr) : Option (Option Split) :=
  match str with
  | none => some none
  | some str => do
    let sep := separators separator
    let (curTok, argString, saved) ← strtok sep str.block 0
    let w ← splitLoop sep fuel ⟨argString, saved, List.replicate 20 .uninit, 0, 20, curTok⟩
    let array ← put w.argArray w.numToks .null
    let array ← fillNull (w.maxToks - (w.numToks + 1)) (w.numToks + 1) array
    some (some ⟨w.argString, array, w.numToks⟩)

/-- The pointer that `splitstr_free` frees besides the array, if any. -/
def splitstrFree (ret : Split) : Option (Option Nat) :=
  match ret.argArray[0]? with
  | some (Cell.ptr p) => some (some p)
  | some Cell.null => some none
  | _ => none

structure Splits (sep : Char → Bool) (str : Str) (ret : Split) : Prop where
  count : ret.argcount = (tokens sep str).length
  strings : ∀ (k : Nat) (token : Str), (tokens sep str)[k]? = some token →
    ∃ p, ret.argArray[k]? = some (Cell.ptr p) ∧ cstr ret.argString p = some token
  ended : ret.argArray[(tokens sep str).length]? = some Cell.null
  padding : ∀ (k : Nat) (cell : Cell), (tokens sep str).length ≤ k → ret.argArray[k]? = some cell → cell = Cell.null

def Right (str : CStr) (separator : Option CStr) : Prop :=
  ∀ fuel, str.chars.length + 1 < fuel → ∃ ret, splitstr fuel (some str) separator = some (some ret) ∧
    Splits (separators separator) str.chars ret ∧ splitstrFree ret = some (some 0)

section array
variable {array later : List Cell} {i : Nat} {cell : Cell}

theorem put_some (room : i < array.length) : put array i cell = some (array.set i cell) :=
  if_pos room

theorem fill_null_some (array : List Cell) (i left : Nat) (room : i + left ≤ array.length) :
    ∃ later, fillNull left i array = some later ∧ later.length = array.length ∧ (∀ k, k < i → later[k]? = array[k]?) ∧
      ∀ k, i ≤ k → k < i + left → later[k]? = some Cell.null := by
  induction left generalizing i array with
  | zero => exact ⟨array, rfl, rfl, fun _ _ => rfl, fun k low high => absurd high (by omega)⟩
  | succ left ih =>
    obtain ⟨later, filled, size, kept, nulls⟩ := ih (array.set i .null) (i + 1)
      (by rw [List.length_set]; omega)
    rw [List.length_set] at size
    refine ⟨later, ?_, size, ?_, ?_⟩
    · rw [fillNull, put_some (by omega)]
      exact filled
    · intro k before
      rw [kept k (by omega), List.getElem?_set_ne (by omega)]
    · intro k low high
      by_cases here : k = i
      · subst here
        rw [kept k (by omega), List.getElem?_set_self (by omega)]
      · exact nulls k (by omega) (by omega)

end array

section splitting
variable {sep : Char → Bool} {w : Work}

def Placed (mem : Str) (saved : Nat) (rest : Str) (p : Nat) (token : Str) : Prop :=
  At mem p token ∧ p + token.length ≤ saved ∧ (p + token.length = saved → rest = [])

structure Stored (w : Work) (ptrs : List Nat) : Prop where
  size : w.argArray.length = w.maxToks
  count : w.numToks = ptrs.length
  room : w.numToks < w.maxToks
  cells : ∀ k, k < ptrs.length → w.argArray[k]? = (ptrs[k]?).map Cell.ptr

theorem stored_next {ptrs : List Nat} {p : Nat} (stored : Stored w ptrs) (mem : Str) (saved : Nat)
    (curTok : Option Nat) :
    Stored (grow ⟨mem, saved, w.argArray.set w.numToks (.ptr p), w.numToks + 1, w.maxToks, curTok⟩)
      (ptrs ++ [p]) := by
  obtain ⟨size, count, room, cells⟩ := stored
  have placed : ∀ k, k < (ptrs ++ [p]).length →
      (w.argArray.set w.numToks (.ptr p))[k]? = ((ptrs ++ [p])[k]?).map Cell.ptr := by
    intro k low
    rw [List.length_append, List.length_singleton] at low
    by_cases last : k = ptrs.length
    · rw [last, ← count, List.getElem?_set_self (by omega), count,
        List.getElem?_append_right (Nat.le_refl _), Nat.sub_self]
      rfl
    · rw [List.getElem?_set_ne (by omega), List.getElem?_append_left (by omega)]
      exact cells k (by omega)
  have length : (w.argArray.set w.numToks (.ptr p)).length = w.maxToks := by
    rw [List.length_set, size]
  unfold grow
  split
  · rename_i full
    simp only at full
    refine ⟨?_, ?_, ?_, ?_⟩
    · simp only [List.length_append, length, List.length_replicate]
    · simp [count]
    · simp only
      omega
    · intro k low
      have inside : k < (w.argArray.set w.numToks (.ptr p)).length := by
        rw [length]
        rw [List.length_append, List.length_singleton] at low
        omega
      simp only
      rw [List.getElem?_append_left inside]
      exact placed k low
  · rename_i free
    simp only at free
    refine ⟨length, ?_, ?_, placed⟩
    · simp [count]
    · simp only
      omega

@[simp] theorem grow_cur (w : Work) : (grow w).curTok = w.curTok := by
  unfold grow
  split
  · rfl
  · rfl

@[simp] theorem grow_string (w : Work) : (grow w).argString = w.argString := by
  unfold grow
  split
  · rfl
  · rfl

@[simp] theorem grow_saved (w : Work) : (grow w).saved = w.saved := by
  unfold grow
  split
  · rfl
  · rfl

theorem split_loop_done {fuel : Nat} (finished : w.curTok = none) (some_fuel : 0 < fuel) :
    splitLoop sep fuel w = some w := by
  obtain ⟨fuel, rfl⟩ : ∃ n, fuel = n + 1 := ⟨fuel - 1, by omega⟩
  rw [splitLoop, finished]

theorem placed_next {mem later rest rest' token : Str} {others found : List Str} {saved saved' q : Nat}
    {ptrs : List Nat} (placed : List.Forall₂ (Placed mem saved rest) ptrs found)
    (left : tokens sep rest = token :: others)
    (taken : Taken sep mem saved rest token others q later saved' rest') :
    List.Forall₂ (Placed later saved' rest') (ptrs ++ [q]) (found ++ [token]) := by
  have some_rest : rest ≠ [] := by
    rintro rfl
    cases left
  apply List.rel_append
  · refine placed.imp fun k u here => ?_
    obtain ⟨stands, before, apart⟩ := here
    have strictly : k + u.length < saved := by
      rcases Nat.lt_or_eq_of_le before with less | same
      · exact less
      · exact absurd (apart same) some_rest
    have later_end : saved ≤ saved' := (taken.after.trans (Nat.le_add_right _ _)).trans taken.before
    exact ⟨taken.kept k u stands strictly, by omega, fun same => by omega⟩
  · exact .cons ⟨taken.at_token, taken.before, taken.meets⟩ .nil

theorem split_loop_tokens (w : Work) (fuel : Nat) (found : List Str) (token : Str) {p : Nat}
    {ptrs : List Nat} {others : List Str} {rest : Str} (current : w.curTok = some p)
    (stored : Stored w ptrs)
    (placed : List.Forall₂ (Placed w.argString w.saved rest) (ptrs ++ [p]) (found ++ [token]))
    (remains : At w.argString w.saved rest) (left : tokens sep rest = others)
    (some_fuel : others.length + 1 < fuel) :
    ∃ final more, splitLoop sep fuel w = some final ∧ Stored final (ptrs ++ p :: more) ∧
      List.Forall₂ (At final.argString) (ptrs ++ p :: more) (found ++ token :: others) := by
  induction others generalizing w fuel p ptrs found token rest with
  | nil =>
    obtain ⟨saved, ended⟩ := strtok_none remains left
    obtain ⟨fuel, rfl⟩ : ∃ n, fuel = n + 1 := ⟨fuel - 1, by omega⟩
    have next := stored_next (p := p) stored w.argString saved none
    refine ⟨_, [], ?_, next, ?_⟩
    · rw [splitLoop, current]
      simp only [put_some (show w.numToks < w.argArray.length by
        rw [stored.size]; exact stored.room), ended, Option.bind_eq_bind, Option.bind_some]
      exact split_loop_done (by simp) (by simpa using some_fuel)
    · rw [grow_string]
      exact placed.imp fun _ _ here => here.1
  | cons next others ih =>
    obtain ⟨q, later, saved, rest', taken⟩ := strtok_some remains left
    obtain ⟨fuel, rfl⟩ : ∃ n, fuel = n + 1 := ⟨fuel - 1, by omega⟩
    have placed' := placed_next placed left taken
    obtain ⟨final, more, looped, stored', final_placed⟩ := ih (grow ⟨later, saved,
        w.argArray.set w.numToks (.ptr p), w.numToks + 1, w.maxToks, some q⟩) fuel
      (found ++ [token]) next
      (by rw [grow_cur]) (stored_next stored later saved (some q)) (by simpa using placed')
      (by simpa using taken.at_rest) taken.left (by simpa using some_fuel)
    refine ⟨final, q :: more, ?_, by simpa using stored', by simpa using final_placed⟩
    rw [splitLoop, current]
    simp only [put_some (show w.numToks < w.argArray.length by
      rw [stored.size]; exact stored.room), taken.returned, Option.bind_eq_bind, Option.bind_some]
    exact looped

def start (mem : Str) (saved : Nat) (curTok : Option Nat) : Work :=
  ⟨mem, saved, List.replicate 20 .uninit, 0, 20, curTok⟩

theorem start_stored (mem : Str) (saved : Nat) (curTok : Option Nat) :
    Stored (start mem saved curTok) [] :=
  ⟨rfl, rfl, Nat.zero_lt_succ 19, fun _ low => absurd low (by simp)⟩

/-- The loop ends with a pointer for each token; the first is the start of the block when the first
    character is no separator. -/
theorem splitstr_loop (sep : Char → Bool) (str : CStr) {fuel : Nat}
    (some_fuel : str.chars.length + 1 < fuel) :
    ∃ curTok mem saved final ptrs, strtok sep str.block 0 = some (curTok, mem, saved) ∧
      splitLoop sep fuel (start mem saved curTok) = some final ∧ Stored final ptrs ∧
      List.Forall₂ (At final.argString) ptrs (tokens sep str.chars) ∧
      (ptrs.head? = some 0 ↔ ∃ c, str.chars.head? = some c ∧ sep c = false) := by
  cases found : tokens sep str.chars with
  | nil =>
    obtain ⟨saved, ended⟩ := strtok_none (block_at str) found
    refine ⟨none, str.block, saved, _, [], ended, split_loop_done rfl (by omega), start_stored _ _ _, .nil, ?_⟩
    simp only [List.head?_nil, reduceCtorEq, false_iff]
    rintro ⟨c, head, plain⟩
    cases chars : str.chars with
    | nil =>
      rw [chars] at head
      cases head
    | cons d ds =>
      rw [chars] at head found
      obtain rfl := Option.some.inj head
      exact tokens_start plain ds found
  | cons token others =>
    obtain ⟨p, mem, saved, rest, taken⟩ := strtok_some (block_at str) found
    have shorter := taken.shorter
    have few : others.length ≤ rest.length := by
      have count := tokens_le sep rest
      rwa [taken.left] at count
    obtain ⟨final, more, looped, stored, placed⟩ := split_loop_tokens
      (start mem saved (some p)) fuel [] token rfl
      (start_stored mem saved (some p))
      (.cons ⟨taken.at_token, taken.before, taken.meets⟩ .nil) taken.at_rest taken.left (by omega)
    refine ⟨some p, mem, saved, final, [] ++ p :: more, taken.returned, looped, stored, placed, ?_⟩
    simp only [List.nil_append, List.head?_cons, Option.some.injEq, taken.starts]
    have some_string : str.chars ≠ [] := by
      intro empty
      rw [empty] at found
      cases found
    obtain ⟨c, cs, chars⟩ := List.exists_cons_of_ne_nil some_string
    simp [chars]

theorem splitstr_splits (str : CStr) (separator : Option CStr) {fuel : Nat}
    (some_fuel : str.chars.length + 1 < fuel) :
    ∃ ret, splitstr fuel (some str) separator = some (some ret) ∧ Splits (separators separator) str.chars ret ∧
      (splitstrFree ret = some (some 0) ↔ ∃ c, str.chars.head? = some c ∧ separators separator c = false) := by
  obtain ⟨curTok, mem, saved, final, ptrs, first, looped, stored, placed, starts⟩ :=
    splitstr_loop (separators separator) str some_fuel
  obtain ⟨size, count, room, cells⟩ := stored
  have tokens_size := placed.length_eq
  have ended : (final.argArray.set final.numToks .null).length = final.maxToks := by
    rw [List.length_set, size]
  obtain ⟨array, filled, length, kept, nulls⟩ := fill_null_some
    (final.argArray.set final.numToks .null) (final.numToks + 1)
    (final.maxToks - (final.numToks + 1)) (by omega)
  have pointers : ∀ k, k < ptrs.length → array[k]? = (ptrs[k]?).map Cell.ptr := by
    intro k low
    rw [kept k (by omega), List.getElem?_set_ne (by omega), cells k low]
  have last : array[ptrs.length]? = some Cell.null := by
    rw [kept _ (by omega), count, List.getElem?_set_self (by omega)]
  refine ⟨⟨final.argString, array, final.numToks⟩, ?_, ⟨?_, ?_, ?_, ?_⟩, ?_⟩
  · change splitLoop _ fuel ⟨mem, saved, _, 0, 20, curTok⟩ = _ at looped
    rw [splitstr]
    simp only [first, looped, Option.bind_eq_bind, Option.bind_some,
      put_some (show final.numToks < final.argArray.length by omega), filled]
  · rw [← tokens_size]
    exact count
  · intro k token found
    have low := (List.getElem?_eq_some_iff.mp found).1
    have inside : k < ptrs.length := by omega
    refine ⟨ptrs[k], ?_, ?_⟩
    · rw [pointers k inside, List.getElem?_eq_getElem inside]
      rfl
    · have here := placed.get inside low
      rw [List.getElem?_eq_getElem low, Option.some.injEq] at found
      subst found
      exact at_cstr here
  · rw [← tokens_size]
    exact last
  · intro k cell after found
    by_cases here : k = ptrs.length
    · subst here
      rw [last] at found
      exact (Option.some.inj found).symm
    · have inside : k < array.length := (List.getElem?_eq_some_iff.mp found).1
      change array[k]? = some cell at found
      rw [nulls k (by omega) (by omega)] at found
      exact (Option.some.inj found).symm
  · rw [← starts, splitstrFree]
    cases ptrs with
    | nil =>
      simp only [List.length_nil] at last
      simp [last]
    | cons p ps =>
      have head := pointers 0 (by simp)
      simp only [List.getElem?_cons_zero, Option.map_some] at head
      simp [head]

theorem right_starts {str : CStr} {separator : Option CStr} (right : Right str separator) :
    ∃ c, str.chars.head? = some c ∧ separators separator c = false := by
  obtain ⟨ret, returned, -, freed⟩ := right (str.chars.length + 2) (by omega)
  obtain ⟨ret', returned', -, starts⟩ :=
    splitstr_splits str separator (show _ < str.chars.length + 2 by omega)
  rw [returned, Option.some.injEq, Option.some.injEq] at returned'
  subst returned'
  exact starts.mp freed

/-- Every string is split as `strtok` does; the block is freed just when a token starts it. -/
theorem splitstr_right (str : CStr) (separator : Option CStr) :
    Right str separator ↔ ∃ c, str.chars.head? = some c ∧ separators separator c = false := by
  constructor
  · exact right_starts
  · intro starts fuel some_fuel
    obtain ⟨ret, returned, splits, freed⟩ := splitstr_splits str separator some_fuel
    exact ⟨ret, returned, splits, freed.mpr starts⟩

/-- The pointer freed is inside the block when a separator comes first, and there is none when no
    token is found. -/
theorem leading_separator_freed :
    ((splitstr 9 (some ⟨[' ', 'a'], by decide⟩) none).bind fun ret => ret.bind splitstrFree) = some (some 1) ∧
    ¬ Right ⟨[' ', 'a'], by decide⟩ none ∧ ¬ Right ⟨[' '], by decide⟩ none := by
  refine ⟨by decide, ?_, ?_⟩
  · intro right
    obtain ⟨c, head, plain⟩ := right_starts right
    obtain rfl : ' ' = c := Option.some.inj head
    exact absurd plain (by decide)
  · intro right
    obtain ⟨c, head, plain⟩ := right_starts right
    obtain rfl : ' ' = c := Option.some.inj head
    exact absurd plain (by decide)

end splitting
end VteSplitstr
