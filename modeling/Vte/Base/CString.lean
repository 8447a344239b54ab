import Mathlib.Data.List.TakeWhile
import Vte.Base.Text

/-!
Strings in memory, each ended by a NUL: reading one, cutting one in two by a NUL written into it, and
`strtok`, which takes a string apart from its saved position on.
-/
namespace CString
open Text

def nul : Char := Char.ofNat 0

/-- The characters of a string, none of them a NUL. -/
structure CStr where
  chars : Str
  plain : nul ∉ chars

def CStr.block (s : CStr) : Str := s.chars ++ [nul]

def cstr (mem : Str) (pos : Nat) : Option Str :=
  if nul ∈ mem.drop pos then some ((mem.drop pos).takeWhile (· != nul)) else none

/-- The position of the first `c` of the string, or nothing. -/
def strchr (mem : Str) (pos : Nat) (c : Char) : Option (Option Nat) := do
  let s ← cstr mem pos
  some ((s.findIdx? (· == c)).map (pos + ·))

def strtok (sep : Char → Bool) (mem : Str) (pos : Nat) : Option (Option Nat × Str × Nat) := do
  let s ← cstr mem pos
  let start := pos + (s.takeWhile sep).length
  let tok := s.dropWhile sep
  if tok = [] then some (none, mem, start)
  else
    let stop := start + (tok.takeWhile (fun c => !sep c)).length
    if stop = pos + s.length then some (some start, mem, stop)
    else some (some start, mem.set stop nul, stop + 1)

def At (mem : Str) (pos : Nat) (s : Str) : Prop := nul ∉ s ∧ ∃ tail, mem.drop pos = s ++ nul :: tail

section strings
variable {mem s a b : Str} {pos k : Nat}

theorem block_at (s : CStr) : At s.block 0 s.chars := ⟨s.plain, [], rfl⟩

theorem at_cstr (here : At mem pos s) : cstr mem pos = some s := by
  obtain ⟨plain, tail, rest⟩ := here
  have word : ∀ c ∈ s, (c != nul) = true := by
    intro c found
    rw [bne_iff_ne]
    rintro rfl
    exact plain found
  rw [cstr, rest, if_pos (by simp), List.takeWhile_append_of_pos word]
  simp

theorem cstr_at (read : cstr mem pos = some s) : At mem pos s := by
  have ended : nul ∈ mem.drop pos := by
    by_contra missing
    rw [cstr, if_neg missing] at read
    cases read
  obtain ⟨first, tail, rest, plain⟩ := List.eq_append_cons_of_mem ended
  have here : At mem pos first := ⟨plain, tail, rest⟩
  rwa [Option.some.inj (read.symm.trans (at_cstr here))]

theorem at_start : At mem 0 s ↔ nul ∉ s ∧ s ++ [nul] <+: mem := by
  refine and_congr_right fun _ => ?_
  constructor
  · rintro ⟨tail, rest⟩
    exact ⟨tail, by rw [List.append_assoc]; exact rest.symm⟩
  · rintro ⟨tail, rest⟩
    exact ⟨tail, by rw [← rest, List.append_assoc]; rfl⟩

theorem at_suffix (here : At mem pos (a ++ b)) : At mem (pos + a.length) b := by
  obtain ⟨plain, tail, rest⟩ := here
  refine ⟨fun found => plain (List.mem_append_right a found), tail, ?_⟩
  rw [← List.drop_drop, rest, List.append_assoc, List.drop_left]

theorem at_set_before {c : Char} (here : At mem pos s) (before : k < pos) :
    At (mem.set k c) pos s := by
  obtain ⟨plain, tail, rest⟩ := here
  exact ⟨plain, tail, by rw [List.drop_set_of_lt before, rest]⟩

theorem at_set_after {c : Char} (here : At mem pos s) (after : pos + s.length < k) :
    At (mem.set k c) pos s := by
  obtain ⟨plain, tail, rest⟩ := here
  refine ⟨plain, tail.set (k - pos - s.length - 1) c, ?_⟩
  obtain ⟨j, place⟩ : ∃ j, k - pos - s.length = j + 1 := ⟨k - pos - s.length - 1, by omega⟩
  rw [List.drop_set, if_neg (by omega), rest, List.set_append_right _ _ (by omega), place,
    List.set_cons_succ, Nat.add_sub_cancel]

theorem at_cut {c : Char} (here : At mem pos (a ++ c :: b)) :
    At (mem.set (pos + a.length) nul) pos a ∧ At (mem.set (pos + a.length) nul) (pos + a.length + 1) b := by
  obtain ⟨plain, tail, rest⟩ := here
  have cut : (mem.set (pos + a.length) nul).drop pos = a ++ nul :: (b ++ nul :: tail) := by
    rw [List.drop_set, if_neg (by omega), rest, Nat.add_sub_cancel_left, List.append_assoc,
      List.set_append_right _ _ (Nat.le_refl _), Nat.sub_self]
    rfl
  refine ⟨⟨fun found => plain (by simp [found]), _, cut⟩, fun found => plain (by simp [found]), tail, ?_⟩
  rw [Nat.add_assoc, ← List.drop_drop, cut, ← List.drop_drop, List.drop_left]
  rfl

theorem find_missing {c : Char} (missing : c ∉ s) : s.findIdx? (· == c) = none :=
  List.findIdx?_eq_none_iff.mpr (without_separator missing)

theorem strchr_none {c : Char} (here : At mem pos s) (missing : c ∉ s) :
    strchr mem pos c = some none := by
  rw [strchr, at_cstr here]
  simp [find_missing missing]

theorem strchr_some {c : Char} (here : At mem pos (a ++ c :: b)) (first : c ∉ a) :
    strchr mem pos c = some (some (pos + a.length)) := by
  rw [strchr, at_cstr here]
  have place : (a ++ c :: b).findIdx? (· == c) = some a.length := by
    rw [List.findIdx?_append, find_missing first, List.findIdx?_cons]
    simp
  simp [place]

/-- A text is one piece, or a first piece, the separator and the pieces of the rest. -/
theorem pieces_cut (c : Char) (s : Str) : (c ∉ s ∧ s.splitOn c = [s]) ∨
    ∃ first rest, s = first ++ c :: rest ∧ c ∉ first ∧ s.splitOn c = first :: rest.splitOn c := by
  by_cases found : c ∈ s
  · obtain ⟨first, rest, parts, fresh⟩ := List.eq_append_cons_of_mem found
    refine .inr ⟨first, rest, parts, fresh, ?_⟩
    rw [parts, List.splitOn_append_cons_self_of_not_mem fresh]
  · exact .inl ⟨found, List.splitOn_eq_singleton found⟩

end strings

section tokenizing
variable {sep : Char → Bool} {mem s : Str} {pos : Nat}

theorem head_drop_while (p : Char → Bool) (s : Str) :
    ∀ c ∈ (s.dropWhile p).head?, p c = false := by
  intro c found
  have some_rest : s.dropWhile p ≠ [] := by
    intro empty
    rw [empty] at found
    cases found
  have head := List.head_dropWhile_not p some_rest
  rw [List.head?_eq_some_head some_rest] at found
  obtain rfl := Option.some.inj found
  exact head

theorem take_while_all (p : Char → Bool) (s : Str) : ∀ c ∈ s.takeWhile p, p c = true :=
  fun _ found => List.mem_takeWhile_imp found

theorem tokens_cut (sep : Char → Bool) (s : Str) :
    tokens sep s =
      if s.dropWhile sep = [] then []
      else (s.dropWhile sep).takeWhile (fun c => !sep c) ::
        tokens sep ((s.dropWhile sep).dropWhile fun c => !sep c) := by
  have blanks : tokens sep s = tokens sep (s.dropWhile sep) := by
    conv_lhs => rw [← List.takeWhile_append_dropWhile (p := sep) (l := s)]
    exact tokens_separators (take_while_all sep s) _
  rw [blanks]
  split
  · rename_i empty
    rw [empty, tokens]
  · rename_i some_rest
    have plain := head_drop_while sep s
    conv_lhs =>
      rw [← List.takeWhile_append_dropWhile (p := fun c => !sep c) (l := s.dropWhile sep)]
    apply tokens_word
    · intro empty
      obtain ⟨c, cs, rest⟩ := List.exists_cons_of_ne_nil some_rest
      rw [rest, List.takeWhile_cons, if_pos (by simp [plain c (by simp [rest])])] at empty
      cases empty
    · intro c found
      simpa using take_while_all (fun c => !sep c) _ c found
    · intro c found
      simpa using head_drop_while (fun c => !sep c) _ c found

theorem strtok_none (here : At mem pos s) (empty : tokens sep s = []) :
    ∃ saved, strtok sep mem pos = some (none, mem, saved) := by
  have nothing : s.dropWhile sep = [] := by
    by_contra some_rest
    rw [tokens_cut, if_neg some_rest] at empty
    cases empty
  refine ⟨pos + (s.takeWhile sep).length, ?_⟩
  rw [strtok, at_cstr here]
  simp only [Option.bind_eq_bind, Option.bind_some, nothing, if_true]

/-- The first token lies behind `blanks`, and `rest` follows it. -/
structure FirstToken (sep : Char → Bool) (s token : Str) (others : List Str) (blanks rest : Str) :
    Prop where
  before : s.takeWhile sep = blanks
  behind : s.dropWhile sep = token ++ rest
  some_token : token ≠ []
  word : (token ++ rest).takeWhile (fun c => !sep c) = token
  ended : ∀ c ∈ rest.head?, sep c = true
  left : tokens sep rest = others

theorem tokens_first {token : Str} {others : List Str} (found : tokens sep s = token :: others) :
    ∃ blanks rest, FirstToken sep s token others blanks rest := by
  have some_rest : s.dropWhile sep ≠ [] := by
    intro empty
    rw [tokens_cut, if_pos empty] at found
    cases found
  rw [tokens_cut, if_neg some_rest, List.cons.injEq] at found
  obtain ⟨word, left⟩ := found
  have behind : s.dropWhile sep = token ++ (s.dropWhile sep).dropWhile fun c => !sep c := by
    rw [← word, List.takeWhile_append_dropWhile]
  refine ⟨_, _, rfl, behind, ?_, by rw [← behind, word], ?_, left⟩
  · have plain := head_drop_while sep s
    obtain ⟨c, cs, start⟩ := List.exists_cons_of_ne_nil some_rest
    rw [← word, start, List.takeWhile_cons, if_pos (by simp [plain c (by simp [start])])]
    simp
  · intro c head
    simpa using head_drop_while (fun c => !sep c) (s.dropWhile sep) c head

section first
variable {token blanks rest : Str} {others : List Str}

theorem first_parts (first : FirstToken sep s token others blanks rest) :
    s = blanks ++ (token ++ rest) := by
  rw [← first.before, ← first.behind, List.takeWhile_append_dropWhile]

theorem first_starts (first : FirstToken sep s token others blanks rest) :
    blanks = [] ↔ ∀ c ∈ s.head?, sep c = false := by
  constructor
  · intro none_blank c head
    apply head_drop_while sep s
    rwa [first.behind, ← List.nil_append (token ++ rest), ← none_blank, ← first_parts first]
  · intro plain
    cases s with
    | nil => exact first.before.symm
    | cons c cs => rw [← first.before, List.takeWhile_cons, if_neg (by simp [plain c rfl])]

theorem first_call (first : FirstToken sep s token others blanks rest) (here : At mem pos s) :
    strtok sep mem pos = if rest = [] then
        some (some (pos + blanks.length), mem, pos + blanks.length + token.length)
      else some (some (pos + blanks.length), mem.set (pos + blanks.length + token.length) nul,
        pos + blanks.length + token.length + 1) := by
  have some_rest : token ++ rest ≠ [] := List.append_ne_nil_of_left_ne_nil first.some_token rest
  have total := congrArg List.length (first_parts first)
  rw [List.length_append, List.length_append] at total
  have whole : pos + blanks.length + token.length = pos + s.length ↔ rest = [] := by
    rw [← List.length_eq_zero_iff]
    omega
  rw [strtok, at_cstr here]
  simp only [Option.bind_eq_bind, Option.bind_some, first.before, first.behind, if_neg some_rest, first.word, whole]

end first

/-- What `strtok` does with a token that it finds: the token stands at the pointer returned, the rest
of the string at the saved position, and no string before the position searched from has changed. -/
structure Taken (sep : Char → Bool) (mem : Str) (pos : Nat) (s token : Str) (others : List Str)
    (ptr : Nat) (later : Str) (saved : Nat) (rest : Str) : Prop where
  returned : strtok sep mem pos = some (some ptr, later, saved)
  at_token : At later ptr token
  at_rest : At later saved rest
  left : tokens sep rest = others
  after : pos ≤ ptr
  before : ptr + token.length ≤ saved
  meets : ptr + token.length = saved → rest = []
  shorter : rest.length < s.length
  starts : ptr = pos ↔ ∀ c ∈ s.head?, sep c = false
  kept : ∀ q u, At mem q u → q + u.length < pos → At later q u

theorem strtok_some {token : Str} {others : List Str} (here : At mem pos s)
    (found : tokens sep s = token :: others) :
    ∃ ptr later saved rest, Taken sep mem pos s token others ptr later saved rest := by
  obtain ⟨blanks, rest, first⟩ := tokens_first found
  have parts := first_parts first
  have total := congrArg List.length parts
  rw [List.length_append, List.length_append] at total
  have size : 0 < token.length := List.length_pos_iff.mpr first.some_token
  have starts : pos + blanks.length = pos ↔ ∀ c ∈ s.head?, sep c = false := by
    rw [← first_starts first, ← List.length_eq_zero_iff]
    omega
  have call := first_call first here
  have inner : At mem (pos + blanks.length) (token ++ rest) := by
    rw [parts] at here
    exact at_suffix here
  have left := first.left
  have ended := first.ended
  cases rest with
  | nil =>
    rw [if_pos rfl] at call
    refine ⟨_, _, _, [], call, ?_, at_suffix inner, left, Nat.le_add_right _ _, Nat.le_refl _,
      fun _ => rfl, by rw [List.length_nil]; omega, starts, fun q u other _ => other⟩
    rwa [List.append_nil] at inner
  | cons c cs =>
    rw [if_neg (List.cons_ne_nil c cs)] at call
    obtain ⟨at_token, at_rest⟩ := at_cut inner
    rw [tokens_separator (ended c rfl)] at left
    rw [List.length_cons] at total
    refine ⟨_, _, _, cs, call, at_token, at_rest, left, Nat.le_add_right _ _, Nat.le_succ _,
      fun same => absurd same (by omega), by omega, starts, ?_⟩
    intro q u other before
    exact at_set_after other (by omega)

theorem tokens_count (sep : Char → Bool) (s : Str) :
    (tokens sep s).length ≤ s.countP sep + if s.head?.any (fun c => !sep c) then 1 else 0 := by
  induction s with
  | nil => exact Nat.zero_le _
  | cons c cs ih =>
    by_cases separates : sep c = true
    · rw [tokens_separator separates, List.countP_cons_of_pos separates]
      split at ih
      · omega
      · omega
    · rw [List.countP_cons_of_neg separates, tokens, if_neg separates]
      have here : (c :: cs).head?.any (fun c => !sep c) = true := by simp [separates]
      rw [if_pos here]
      split
      · rename_i d token rest head found
        rw [found, head] at ih
        by_cases inner : sep d = true
        · simp [inner] at ih ⊢
          omega
        · simp [inner] at ih ⊢
          omega
      · rename_i nothing
        cases cs with
        | nil => simp [tokens]
        | cons d ds =>
          cases found : tokens sep (d :: ds) with
          | nil => simp
          | cons token rest => exact absurd found (nothing d token rest rfl)

theorem tokens_le (sep : Char → Bool) (s : Str) : (tokens sep s).length ≤ s.length := by
  have count := tokens_count sep s
  cases s with
  | nil => simpa using count
  | cons c cs =>
    have fewer : cs.countP sep ≤ cs.length := List.countP_le_length
    by_cases separates : sep c = true
    · simp [separates] at count ⊢
      omega
    · simp [separates] at count ⊢
      omega

end tokenizing
end CString
