import Vte.Base.CInt
import Vte.Base.CString
import Vte.Base.Digits

/-!
lib/self_exec.c: the argument of `-C` that `self_exec` builds from a directory and typed arguments,
and `maybe_run_child`, which takes it apart with `strtok`. The memory can be allocated, the buffers
hold the strings, and the directory can be changed to.
-/
namespace VteSelfExec
open Text CInt CString Digits

section inputs

structure Field where
  chars : Str
  no_comma : ',' ∉ chars
  plain : nul ∉ chars

structure Cwd where
  path : Str
  absolute : path.head? = some '/'
  plain : nul ∉ path

/-- A letter of the format with its argument: for an `n` the number that is sent, and the one that
the caller of `maybe_run_child` gives. -/
inductive Arg where
  | d (i : Int32)
  | n (sent expected : Int32)
  | s (str : Field)
  | S (str : Field)

/-- A letter of the format as `maybe_run_child` sees it. -/
inductive Param where
  | d
  | n (j : Int)
  | s
  | S

inductive Stored where
  | int (i : Int)
  | str (s : Str)

inductive Outcome where
  | broken
  | returned (stored : List Stored)
  | ran (dir : Str) (stored : List Stored)

def Arg.param : Arg → Param
  | .d _ => .d
  | .n _ expected => .n expected.toInt
  | .s _ => .s
  | .S _ => .S

end inputs

section code

def comma (c : Char) : Bool := c == ','

def Arg.text : Arg → Str
  | .d i => decimal i.toInt
  | .n sent _ => decimal sent.toInt
  | .s str => str.chars
  | .S str => str.chars

/-- The argument that is passed on with `-C`. -/
def selfExec (cwd : Str) (args : List Arg) : Str :=
  args.foldl (fun arg a => arg ++ ',' :: a.text) cwd

/-- `strtol(tok, &endptr, 10)`, an int; none where `*endptr` is not the end. -/
def strtol (tok : Str) : Option Int :=
  let digits := (signOf (tok.dropWhile isSpace)).2
  if digits ≠ [] ∧ digits.all Char.isDigit = true then
    some (int32 (max (-9223372036854775808) (min (atoi tok) 9223372036854775807)))
  else none

def readLoop (child_dir : Nat) : List Param → Str → Nat → List Stored → Option Outcome
  | [], args, _, stored => do
    let dir ← cstr args child_dir
    return .ran dir stored
  | p :: fmt, args, saved, stored => do
    let (tok, args, saved) ← strtok comma args saved
    match tok with
    | none => return .broken
    | some ptr =>
      let tok ← cstr args ptr
      if tok.length = 0 then return .broken
      else
        match p with
        | .d =>
          match strtol tok with
          | none => return .broken
          | some i => readLoop child_dir fmt args saved (stored ++ [.int i])
        | .n j =>
          match strtol tok with
          | none => return .broken
          | some i =>
            if j ≠ i then return .returned stored else readLoop child_dir fmt args saved stored
        | .s => readLoop child_dir fmt args saved (stored ++ [.str tok])
        | .S => readLoop child_dir fmt args saved (stored ++ [.str tok])

def maybeRunChild (child_args : CStr) (fmt : List Param) : Option Outcome := do
  let (child_dir, args, saved) ← strtok comma child_args.block 0
  let child_dir ← child_dir
  let dir ← cstr args child_dir
  if dir.length = 0 then return .broken
  else readLoop child_dir fmt args saved []

end code

section spec

/-- The values of the `d`, `s` and `S` arguments. -/
def Arg.stored : Arg → List Stored
  | .d i => [.int i.toInt]
  | .n _ _ => []
  | .s str => [.str str.chars]
  | .S str => [.str str.chars]

def Arg.Agrees : Arg → Prop
  | .n sent expected => sent = expected
  | _ => True

instance (a : Arg) : Decidable a.Agrees := by
  cases a <;> unfold Arg.Agrees <;> infer_instance

def Arg.Empty (a : Arg) : Prop := a.text = []

theorem arg_plain (a : Arg) : ∀ c ∈ a.text, c ≠ ',' ∧ c ≠ nul := by
  have number (i : Int) : ∀ c ∈ decimal i, c ≠ ',' ∧ c ≠ nul := by
    intro c member
    unfold decimal at member
    have digit (mem : c ∈ Nat.toDigits 10 i.natAbs) : c ≠ ',' ∧ c ≠ nul := by
      have isDigit := to_digits_digit mem
      constructor
      · rintro rfl
        exact absurd isDigit (by decide)
      · rintro rfl
        exact absurd isDigit (by decide)
    split at member
    · rcases List.mem_cons.mp member with rfl | mem
      · decide
      · exact digit mem
    · exact digit member
  have field (str : Field) : ∀ c ∈ str.chars, c ≠ ',' ∧ c ≠ nul := fun c member =>
    ⟨fun same => str.no_comma (same ▸ member), fun same => str.plain (same ▸ member)⟩
  cases a with
  | d i => exact number i.toInt
  | n sent expected => exact number sent.toInt
  | s str => exact field str
  | S str => exact field str

theorem self_exec_fields (cwd : Str) (args : List Arg) :
    selfExec cwd args = cwd ++ args.flatMap fun a => ',' :: a.text := by
  unfold selfExec
  induction args generalizing cwd with
  | nil => simp
  | cons a args ih =>
    rw [List.foldl_cons, ih, List.flatMap_cons, List.append_assoc]

theorem self_exec_plain (cwd : Cwd) (args : List Arg) : nul ∉ selfExec cwd.path args := by
  rw [self_exec_fields]
  intro member
  rcases List.mem_append.mp member with first | later
  · exact cwd.plain first
  · obtain ⟨a, _, here⟩ := List.mem_flatMap.mp later
    rcases List.mem_cons.mp here with same | inside
    · exact absurd same (by decide)
    · exact (arg_plain a nul inside).2 rfl

def childArgs (cwd : Cwd) (args : List Arg) : CStr := ⟨selfExec cwd.path args, self_exec_plain cwd args⟩

def CodecRight (cwd : Cwd) (args : List Arg) : Prop :=
  maybeRunChild (childArgs cwd args) (args.map Arg.param) =
    if ∀ a ∈ args, a.Agrees then some (.ran cwd.path (args.flatMap Arg.stored))
    else some (.returned [])

def fieldTokens (cwd : Cwd) (args : List Arg) : List Str :=
  (tokens comma cwd.path).tail ++ (args.map Arg.text).filter (· ≠ [])

end spec

section encoder

theorem text_tokens (a : Arg) : tokens comma a.text = if a.text = [] then [] else [a.text] := by
  split
  · rename_i empty
    rw [empty, tokens]
  · rename_i some_text
    have word : ∀ c ∈ a.text, comma c = false := by
      intro c member
      rw [comma, beq_eq_false_iff_ne]
      exact (arg_plain a c member).1
    exact tokens_alone some_text word

theorem self_exec_tokens (cwd : Str) (args : List Arg) :
    tokens comma (selfExec cwd args) = tokens comma cwd ++ (args.map Arg.text).filter (· ≠ []) := by
  unfold selfExec
  induction args generalizing cwd with
  | nil => simp
  | cons a args ih =>
    rw [List.foldl_cons, ih, tokens_append rfl, List.append_assoc, text_tokens, List.map_cons, List.filter_cons]
    by_cases empty : a.text = []
    · simp [empty]
    · simp [empty]

theorem cwd_tokens (cwd : Cwd) : ∃ dir others, tokens comma cwd.path = dir :: others ∧
    (dir = cwd.path ↔ ',' ∉ cwd.path) ∧ (',' ∉ cwd.path → others = []) := by
  obtain ⟨rest, start⟩ := List.head?_eq_some_iff.mp cwd.absolute
  by_cases inside : ',' ∈ cwd.path
  · have some_token : tokens comma cwd.path ≠ [] := by
      rw [start]
      exact tokens_start rfl rest
    obtain ⟨dir, others, found⟩ := List.exists_cons_of_ne_nil some_token
    refine ⟨dir, others, found, ?_, fun none => absurd inside none⟩
    refine iff_of_false ?_ (fun none => none inside)
    intro whole
    have member : dir ∈ tokens comma cwd.path := by
      rw [found]
      exact List.mem_cons_self ..
    have plain := token_plain member ',' (whole ▸ inside)
    cases plain
  · have word : ∀ c ∈ cwd.path, comma c = false := without_separator inside
    have some_path : cwd.path ≠ [] := by
      rw [start]
      exact List.cons_ne_nil '/' rest
    exact ⟨cwd.path, [], tokens_alone some_path word, iff_of_true rfl inside, fun _ => rfl⟩

theorem strtol_decimal (i : Int32) : strtol (decimal i.toInt) = some i.toInt := by
  have low := Int32.le_toInt i
  have high := Int32.toInt_lt i
  have value : atoi (decimal i.toInt) = i.toInt := by
    have stop : DigitFree [] := by simp [DigitFree]
    have here := atoi_decimal i.toInt stop
    rwa [List.append_nil] at here
  have digits : OnlyDigits (Nat.toDigits 10 i.toInt.natAbs) := fun c member => to_digits_digit member
  have some_digit : Nat.toDigits 10 i.toInt.natAbs ≠ [] := Nat.toDigits_ne_nil
  have head : (signOf ((decimal i.toInt).dropWhile isSpace)).2 = Nat.toDigits 10 i.toInt.natAbs := by
    obtain ⟨c, cs, found⟩ := List.exists_cons_of_ne_nil some_digit
    have first := digit_not_space (digits c (by rw [found]; exact List.mem_cons_self ..))
    unfold decimal
    split
    · rfl
    · rw [found, List.dropWhile_cons_of_neg (by rw [first]; decide), ← found, sign_of_digits digits]
  unfold strtol
  rw [head, if_pos ⟨some_digit, List.all_eq_true.mpr digits⟩, value]
  congr 1
  rw [min_eq_left (by omega), max_eq_right (by omega)]
  exact int32_small (by omega) (by omega)

end encoder

section decoder

def readTokens (dir : Str) : List Param → List Str → List Stored → Outcome
  | [], _, stored => .ran dir stored
  | _ :: _, [], _ => .broken
  | .d :: fmt, tok :: toks, stored =>
    match strtol tok with
    | none => .broken
    | some i => readTokens dir fmt toks (stored ++ [.int i])
  | .n j :: fmt, tok :: toks, stored =>
    match strtol tok with
    | none => .broken
    | some i => if j ≠ i then .returned stored else readTokens dir fmt toks stored
  | .s :: fmt, tok :: toks, stored => readTokens dir fmt toks (stored ++ [.str tok])
  | .S :: fmt, tok :: toks, stored => readTokens dir fmt toks (stored ++ [.str tok])

structure Reading (child_dir : Nat) (dir args : Str) (saved : Nat) (rest : Str) : Prop where
  at_dir : At args child_dir dir
  at_rest : At args saved rest
  before : child_dir + dir.length ≤ saved
  meets : child_dir + dir.length = saved → rest = []

theorem reading_next {child_dir saved : Nat} {dir args rest tok : Str} {others : List Str}
    (reading : Reading child_dir dir args saved rest) (found : tokens comma rest = tok :: others) :
    ∃ ptr args' saved' rest', strtok comma args saved = some (some ptr, args', saved') ∧
      cstr args' ptr = some tok ∧ tokens comma rest' = others ∧
      Reading child_dir dir args' saved' rest' := by
  obtain ⟨ptr, args', saved', rest', taken⟩ := strtok_some reading.at_rest found
  have apart : child_dir + dir.length < saved := by
    rcases Nat.eq_or_lt_of_le reading.before with same | less
    · rw [reading.meets same] at found
      cases found
    · exact less
  have after := taken.after
  have before := taken.before
  refine ⟨ptr, args', saved', rest', taken.returned, at_cstr taken.at_token, taken.left, ?_⟩
  exact ⟨taken.kept _ _ reading.at_dir apart, taken.at_rest, by omega, fun same => by omega⟩

theorem read_loop_tokens {child_dir : Nat} {dir : Str} (fmt : List Param) {args rest : Str}
    {saved : Nat} {toks : List Str} (stored : List Stored)
    (reading : Reading child_dir dir args saved rest) (left : tokens comma rest = toks) :
    readLoop child_dir fmt args saved stored = some (readTokens dir fmt toks stored) := by
  induction fmt generalizing args rest saved toks stored with
  | nil =>
    rw [readLoop, at_cstr reading.at_dir]
    rfl
  | cons p fmt ih =>
    cases toks with
    | nil =>
      obtain ⟨saved', ended⟩ := strtok_none reading.at_rest left
      rw [readLoop, ended]
      rfl
    | cons tok toks =>
      obtain ⟨ptr, args', saved', rest', call, word, others, next⟩ := reading_next reading left
      have some_token : tok.length ≠ 0 := by
        have member : tok ∈ tokens comma rest := by rw [left]; exact List.mem_cons_self ..
        exact fun none => token_some member (List.length_eq_zero_iff.mp none)
      simp only [readLoop, call, word, Option.bind_eq_bind, Option.bind_some, if_neg some_token]
      cases p with
      | d =>
        rw [readTokens]
        dsimp only
        cases strtol tok with
        | none => rfl
        | some i => exact ih _ next others
      | n j =>
        rw [readTokens]
        dsimp only
        cases strtol tok with
        | none => rfl
        | some i =>
          dsimp only
          by_cases other : j ≠ i
          · rw [if_pos other, if_pos other]
            rfl
          · rw [if_neg other, if_neg other]
            exact ih _ next others
      | s => exact ih _ next others
      | S => exact ih _ next others

theorem run_child_tokens {child_args : CStr} {dir : Str} {toks : List Str} (fmt : List Param)
    (found : tokens comma child_args.chars = dir :: toks) :
    maybeRunChild child_args fmt = some (readTokens dir fmt toks []) := by
  obtain ⟨ptr, args, saved, rest, taken⟩ := strtok_some (block_at child_args) found
  have some_dir : dir.length ≠ 0 := by
    have member : dir ∈ tokens comma child_args.chars := by rw [found]; exact List.mem_cons_self ..
    exact fun none => token_some member (List.length_eq_zero_iff.mp none)
  have reading : Reading ptr dir args saved rest :=
    ⟨taken.at_token, taken.at_rest, taken.before, taken.meets⟩
  unfold maybeRunChild
  simp only [taken.returned, at_cstr taken.at_token, Option.bind_eq_bind, Option.bind_some, if_neg some_dir]
  exact read_loop_tokens fmt [] reading taken.left

end decoder

section runs
variable {dir : Str}

theorem read_cases (dir : Str) (p : Param) (fmt : List Param) (tok : Str) (toks : List Str)
    (stored : List Stored) : readTokens dir (p :: fmt) (tok :: toks) stored = .broken ∨
      readTokens dir (p :: fmt) (tok :: toks) stored = .returned stored ∨
      ∃ more, readTokens dir (p :: fmt) (tok :: toks) stored = readTokens dir fmt toks (stored ++ more) := by
  cases p with
  | d =>
    rw [readTokens]
    cases strtol tok with
    | none => exact .inl rfl
    | some i => exact .inr (.inr ⟨[.int i], rfl⟩)
  | n j =>
    rw [readTokens]
    cases strtol tok with
    | none => exact .inl rfl
    | some i =>
      dsimp only
      split
      · exact .inr (.inl rfl)
      · exact .inr (.inr ⟨[], by rw [List.append_nil]⟩)
  | s => exact .inr (.inr ⟨[.str tok], rfl⟩)
  | S => exact .inr (.inr ⟨[.str tok], rfl⟩)

theorem ran_tokens {dir' : Str} {fmt : List Param} {toks : List Str} {stored stored' : List Stored}
    (ran : readTokens dir fmt toks stored = .ran dir' stored') :
    dir' = dir ∧ fmt.length ≤ toks.length := by
  induction fmt generalizing toks stored with
  | nil =>
    cases ran
    exact ⟨rfl, Nat.zero_le _⟩
  | cons p fmt ih =>
    cases toks with
    | nil =>
      rw [readTokens] at ran
      cases ran
    | cons tok toks =>
      rcases read_cases dir p fmt tok toks stored with broken | returned | ⟨more, next⟩
      · cases broken.symm.trans ran
      · cases returned.symm.trans ran
      · obtain ⟨same, fewer⟩ := ih (next.symm.trans ran)
        exact ⟨same, Nat.succ_le_succ fewer⟩

theorem returned_stored {fmt : List Param} {toks : List Str} {stored stored' : List Stored}
    (returned : readTokens dir fmt toks stored = .returned stored') : stored <+: stored' := by
  induction fmt generalizing toks stored with
  | nil => cases returned
  | cons p fmt ih =>
    cases toks with
    | nil =>
      rw [readTokens] at returned
      cases returned
    | cons tok toks =>
      rcases read_cases dir p fmt tok toks stored with broken | here | ⟨more, next⟩
      · cases broken.symm.trans returned
      · cases here.symm.trans returned
        exact List.prefix_rfl
      · exact (List.prefix_append stored more).trans (ih (next.symm.trans returned))

theorem returned_some {fmt : List Param} {toks : List Str} {value : Stored} :
    readTokens dir fmt toks ([] ++ [value]) ≠ .returned [] := by
  intro returned
  have kept := returned_stored returned
  simp at kept

/-- The letters from the first one on are `n`, up to one that reads another number. -/
def ReadsOther : List Arg → List Str → Prop
  | .n _ expected :: args, tok :: toks =>
    ∃ i, strtol tok = some i ∧ (expected.toInt = i → ReadsOther args toks)
  | _, _ => False

theorem returned_empty_iff (args : List Arg) (toks : List Str) :
    readTokens dir (args.map Arg.param) toks [] = .returned [] ↔ ReadsOther args toks := by
  induction args generalizing toks with
  | nil => simp [readTokens, ReadsOther]
  | cons a args ih =>
    cases toks with
    | nil => cases a <;> simp [Arg.param, readTokens, ReadsOther]
    | cons tok toks =>
      rw [List.map_cons]
      cases a with
      | d i =>
        refine iff_of_false ?_ not_false
        rw [Arg.param, readTokens]
        split
        · intro broken
          cases broken
        · exact returned_some
      | n sent expected =>
        rw [Arg.param, readTokens, ReadsOther]
        cases strtol tok with
        | none => simp
        | some i =>
          by_cases same : expected.toInt = i
          · simp [same, ih]
          · simp [same]
      | s str => exact iff_of_false returned_some not_false
      | S str => exact iff_of_false returned_some not_false

theorem ran_agreeing {args : List Arg} (agree : ∀ a ∈ args, a.Agrees) (stored : List Stored) :
    readTokens dir (args.map Arg.param) (args.map Arg.text) stored = .ran dir (stored ++ args.flatMap Arg.stored) := by
  induction args generalizing stored with
  | nil => simp [readTokens]
  | cons a args ih =>
    have here := agree a (List.mem_cons_self ..)
    have later := ih fun b member => agree b (List.mem_cons_of_mem a member)
    rw [List.map_cons, List.map_cons, List.flatMap_cons]
    cases a with
    | d i =>
      rw [Arg.param, Arg.text, readTokens, strtol_decimal]
      dsimp only
      rw [later, List.append_assoc]
      rfl
    | n sent expected =>
      have same : sent = expected := here
      rw [Arg.param, Arg.text, readTokens, strtol_decimal, same]
      simp [later, Arg.stored]
    | s str =>
      rw [Arg.param, Arg.text, readTokens, later, List.append_assoc]
      rfl
    | S str =>
      rw [Arg.param, Arg.text, readTokens, later, List.append_assoc]
      rfl

/-- Before the first `n` that disagrees there is only `n`. -/
def OtherFirst : List Arg → Prop
  | .n sent expected :: args => sent = expected → OtherFirst args
  | _ => False

theorem reads_other_placed (args : List Arg) :
    ReadsOther args ((args.map Arg.text).filter (· ≠ [])) ↔ OtherFirst args := by
  induction args with
  | nil => simp [ReadsOther, OtherFirst]
  | cons a args ih =>
    cases a with
    | n sent expected =>
      have some_text : decimal sent.toInt ≠ [] := by
        unfold decimal
        split
        · simp
        · exact Nat.toDigits_ne_nil
      rw [List.map_cons, Arg.text, List.filter_cons_of_pos (by simpa using some_text), ReadsOther,
        OtherFirst, strtol_decimal, ← ih]
      constructor
      · rintro ⟨i, read, later⟩ same
        obtain rfl := Option.some.inj read
        exact later (by rw [same])
      · intro later
        refine ⟨sent.toInt, rfl, fun same => later ?_⟩
        exact (Int32.toInt_inj.mp same).symm
    | d i => simp [ReadsOther, OtherFirst]
    | s str => simp [ReadsOther, OtherFirst]
    | S str => simp [ReadsOther, OtherFirst]

end runs

section codec

/-- A comma in the directory moves the fields, an empty string is no token, and what stands before an
`n` that disagrees is stored. -/
def CodecCond (cwd : Cwd) (args : List Arg) : Prop :=
  if ',' ∈ cwd.path then
    ¬ (∀ a ∈ args, a.Agrees) ∧ ReadsOther args (fieldTokens cwd args)
  else if ∀ a ∈ args, a.Agrees then ∀ a ∈ args, ¬ a.Empty
  else OtherFirst args

/-- The child sees what was passed on just when the condition holds. -/
theorem codec_right_iff (cwd : Cwd) (args : List Arg) : CodecRight cwd args ↔ CodecCond cwd args := by
  obtain ⟨dir, others, found, whole, alone⟩ := cwd_tokens cwd
  have passed : tokens comma (childArgs cwd args).chars = dir :: fieldTokens cwd args := by
    rw [fieldTokens, found]
    exact (self_exec_tokens cwd.path args).trans (by rw [found]; rfl)
  unfold CodecRight CodecCond
  rw [run_child_tokens _ passed]
  by_cases inside : ',' ∈ cwd.path
  · rw [if_pos inside]
    by_cases agree : ∀ a ∈ args, a.Agrees
    · rw [if_pos agree]
      refine iff_of_false ?_ (fun other => other.1 agree)
      intro ran
      have same := (ran_tokens (Option.some.inj ran)).1
      exact whole.mp same.symm inside
    · rw [if_neg agree, Option.some.injEq, returned_empty_iff]
      exact (and_iff_right agree).symm
  · rw [if_neg inside]
    have placed : fieldTokens cwd args = (args.map Arg.text).filter (· ≠ []) := by
      rw [fieldTokens, found, alone inside]
      rfl
    rw [placed]
    by_cases agree : ∀ a ∈ args, a.Agrees
    · rw [if_pos agree, if_pos agree]
      constructor
      · intro ran
        have count := (ran_tokens (Option.some.inj ran)).2
        rw [List.length_map] at count
        have kept := List.length_filter_eq_length_iff.mp
          (Nat.le_antisymm (List.length_filter_le ..) (by rw [List.length_map]; exact count))
        intro a member empty
        have some_text := kept a.text (List.mem_map_of_mem member)
        exact of_decide_eq_true some_text empty
      · intro some_text
        have kept : (args.map Arg.text).filter (· ≠ []) = args.map Arg.text := by
          rw [List.filter_eq_self]
          intro text member
          obtain ⟨a, here, rfl⟩ := List.mem_map.mp member
          exact decide_eq_true (some_text a here)
        rw [kept, whole.mpr inside, ran_agreeing agree]
        rfl
    · rw [if_neg agree, if_neg agree, Option.some.injEq, returned_empty_iff, reads_other_placed]

theorem codec_empty : ¬ CodecRight ⟨['/'], rfl, by decide⟩ [.s ⟨[], by simp, by simp⟩] := by
  intro right
  have missing : maybeRunChild (childArgs ⟨['/'], rfl, by decide⟩ [.s ⟨[], by simp, by simp⟩]) [.s] =
      some .broken := rfl
  cases missing.symm.trans right

end codec
end VteSelfExec
