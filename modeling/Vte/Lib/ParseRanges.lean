import Vte.Base.CString

/-!
lib/random_range.c: `parse_ranges`, which takes a copy of its string apart at commas and each piece
at colons, in place. A result is none when an access leaves its block or the array allocated.
-/
namespace VteParseRanges
open Text CString

/-- A parse function: what it returns for a string, and `*val` after the call. -/
abbrev ParseFunc := Str → Int → Int × Int

structure Range where
  min : Int
  max : Int
  mult : Int
deriving DecidableEq

/-- The default values, `defmin`, `defmax` and `defmult`. -/
abbrev Defaults := Range

section strToInt

def digitValue (c : Char) : Nat :=
  if c.isDigit then c.toNat - 48
  else if 'a' ≤ c ∧ c ≤ 'f' then c.toNat - 87
  else if 'A' ≤ c ∧ c ≤ 'F' then c.toNat - 55
  else 16

/-- The base of a `%i` number and its digits: after `0x`, from a `0` on, or any other. -/
def scanBase : Str → Nat × Str
  | '0' :: 'x' :: s => (16, s)
  | '0' :: 'X' :: s => (16, s)
  | '0' :: s => (8, '0' :: s)
  | s => (10, s)

/-- The `%i` of `sscanf`: the number and the text after it. A value that is out of range is clamped
    to a `long` and cut to an `int`, as the library does. -/
def scanInt (s : Str) : Option (Int × Str) :=
  let (negative, s) := match s.dropWhile isSpace with
    | '-' :: s => (true, s)
    | '+' :: s => (false, s)
    | s => (false, s)
  let (base, s) := scanBase s
  let digits := s.takeWhile fun c => digitValue c < base
  if digits = [] then none
  else
    let size : Int := digits.foldl (fun n c => n * base + digitValue c) 0
    let value := max (-9223372036854775808) (min 9223372036854775807 (if negative then -size else size))
    some ((BitVec.ofInt 32 value).toInt, s.drop digits.length)

/-- `sscanf(str, "%i%c", ip, &c) != 1`: no number, or text after it, is an error. -/
def strToInt : ParseFunc := fun s ip =>
  match scanInt s with
  | none => (-1, ip)
  | some (value, []) => (0, value)
  | some (value, _) => (-1, value)

example : strToInt ['0', 'x', '1', 'f'] 7 = (0, 31) := by decide

end strToInt

def splitFields (tmpstr : Str) (n1str : Nat) : Option (Str × Option Nat × Option Nat) := do
  match ← strchr tmpstr n1str ':' with
  | none => some (tmpstr, none, none)
  | some cp =>
    let tmpstr := tmpstr.set cp nul
    match ← strchr tmpstr (cp + 1) ':' with
    | none => some (tmpstr, some (cp + 1), none)
    | some cp' => some (tmpstr.set cp' nul, some (cp + 1), some (cp' + 1))

/-- The value of a field: the default when it is empty, otherwise the parse function's; the text of
    the field when that is an error. -/
def parseField (parse : ParseFunc) (tmpstr : Str) (field : Option Nat) (missing default : Int) :
    Option (Except Str Int) :=
  match field with
  | none => some (.ok missing)
  | some p => do
    let s ← cstr tmpstr p
    if 0 < s.length then
      let (ret, value) := parse s default
      if ret < 0 then some (.error s) else some (.ok value)
    else some (.ok default)

def parseToken (parse : ParseFunc) (defs : Defaults) (tmpstr : Str) (tok : Nat) :
    Option (Str × Except Str Range) := do
  let (tmpstr, n2str, multstr) ← splitFields tmpstr tok
  match ← parseField parse tmpstr (some tok) defs.min defs.min with
  | .error field => some (tmpstr, .error field)
  | .ok min =>
    match ← parseField parse tmpstr n2str min defs.max with
    | .error field => some (tmpstr, .error field)
    | .ok max =>
      match ← parseField parse tmpstr multstr defs.mult defs.mult with
      | .error field => some (tmpstr, .error field)
      | .ok mult => some (tmpstr, .ok ⟨min, max, mult⟩)

/-- The loop over the tokens; `ranges` are the ranges written, `capacity` those allocated. -/
def parseLoop (parse : ParseFunc) (defs : Defaults) (capacity : Nat) :
    Nat → Str → Nat → List Range → Option Nat → Option (Except Str (List Range))
  | 0, _, _, _, _ => none
  | _ + 1, _, _, ranges, none => some (.ok ranges)
  | fuel + 1, tmpstr, saved, ranges, some tok =>
    if ranges.length < capacity then do
      let (tmpstr, result) ← parseToken parse defs tmpstr tok
      match result with
      | .error field => some (.error field)
      | .ok range =>
        let (tok, tmpstr, saved) ← strtok (· == ',') tmpstr saved
        parseLoop parse defs capacity fuel tmpstr saved (ranges ++ [range]) tok
    else none

/-- What `parse_ranges` returns, what it sets `*rangeptr` and the message to if it does, and the
    block of the caller's string. -/
structure Outcome where
  ret : Int
  rangeptr : Option (List Range)
  errmsg : Option Str
  str : Str

/-- `sprintf(errmsg, "error parsing string %s into an integer", field)` -/
def errorMessage (field : Str) : Str :=
  "error parsing string ".toList ++ field ++ " into an integer".toList

def parseRanges (fuel : Nat) (str : CStr) (defs : Defaults) (parseFunc : Option ParseFunc)
    (wanted : Bool) : Option Outcome := do
  let ncommas := str.chars.count ','
  let parse := parseFunc.getD strToInt
  let (tok, tmpstr, saved) ← strtok (· == ',') str.block 0
  match ← parseLoop parse defs (ncommas + 1) fuel tmpstr saved [] tok with
  | .error field => some ⟨-1, none, some (errorMessage field), str.block⟩
  | .ok ranges => some ⟨ranges.length, if wanted then some ranges else none, none, str.block⟩

section reference

def fieldText (s : Str) : Str := s.takeWhile (· != ':')

def afterColon (s : Str) : Option Str :=
  match s.dropWhile (· != ':') with
  | [] => none
  | _ :: rest => some rest

def n1Text (tok : Str) : Str := fieldText tok

def n2Text (tok : Str) : Option Str := (afterColon tok).map fieldText

def multText (tok : Str) : Option Str := (afterColon tok).bind afterColon

def fieldsOf (defs : Defaults) (tok : Str) : List (Str × Int) :=
  (n1Text tok, defs.min) :: ((n2Text tok).map (·, defs.max)).toList ++ ((multText tok).map (·, defs.mult)).toList

def Rejected (parse : ParseFunc) (defs : Defaults) (tok : Str) : Prop :=
  ∃ field ∈ fieldsOf defs tok, field.1 ≠ [] ∧ (parse field.1 field.2).1 < 0

def fieldValue (parse : ParseFunc) (field : Option Str) (missing default : Int) : Int :=
  match field with
  | none => missing
  | some [] => default
  | some s => (parse s default).2

/-- A token as `n1[:n2[:mult]]`; without `n2` the maximum is the minimum. -/
def rangeOf (parse : ParseFunc) (defs : Defaults) (tok : Str) : Range :=
  let min := fieldValue parse (some (n1Text tok)) defs.min defs.min
  ⟨min, fieldValue parse (n2Text tok) min defs.max, fieldValue parse (multText tok) defs.mult defs.mult⟩

end reference

section fields
variable {mem s : Str} {pos : Nat}

theorem colon_cut (s : Str) :
    (':' ∉ s ∧ fieldText s = s ∧ afterColon s = none) ∨
    ∃ rest, s = fieldText s ++ ':' :: rest ∧ ':' ∉ fieldText s ∧ afterColon s = some rest := by
  have whole := List.takeWhile_append_dropWhile (p := (· != ':')) (l := s)
  have free : ':' ∉ fieldText s := by
    intro found
    simpa using take_while_all (· != ':') s ':' found
  unfold afterColon
  cases rest : s.dropWhile (· != ':') with
  | nil =>
    rw [rest, List.append_nil] at whole
    have all : fieldText s = s := whole
    refine .inl ⟨?_, all, rfl⟩
    rwa [all] at free
  | cons c cs =>
    have head := head_drop_while (· != ':') s c (by rw [rest]; rfl)
    obtain rfl : c = ':' := by simpa using head
    rw [rest] at whole
    exact .inr ⟨cs, whole.symm, free, rfl⟩

theorem split_fields_at (here : At mem pos s) :
    ∃ later n2 mult, splitFields mem pos = some (later, n2, mult) ∧ At later pos (n1Text s) ∧
      Option.Rel (At later) n2 (n2Text s) ∧ Option.Rel (At later) mult (multText s) ∧
      ∀ q u, At mem q u → pos + s.length ≤ q → At later q u := by
  rcases colon_cut s with ⟨missing, text, after⟩ | ⟨rest, whole, free, after⟩
  · refine ⟨mem, none, none, ?_, ?_, ?_, ?_, fun q u other _ => other⟩
    · rw [splitFields, strchr_none here missing]
      rfl
    · rwa [n1Text, text]
    · rw [n2Text, after]
      exact .none
    · rw [multText, after]
      exact .none
  · have size := congrArg List.length whole
    rw [List.length_append, List.length_cons] at size
    rw [whole] at here
    have first := strchr_some here free
    obtain ⟨left, right⟩ := at_cut here
    rcases colon_cut rest with ⟨missing, text, last⟩ | ⟨rest', whole', free', last⟩
    · refine ⟨_, some (pos + (fieldText s).length + 1), none, ?_, left, ?_, ?_, ?_⟩
      · rw [splitFields, first]
        simp only [Option.bind_eq_bind, Option.bind_some]
        rw [strchr_none right missing]
        rfl
      · rw [n2Text, after, Option.map_some, text]
        exact .some right
      · rw [multText, after, Option.bind_some, last]
        exact .none
      · intro q u other beyond
        exact at_set_before other (by omega)
    · have size' := congrArg List.length whole'
      rw [List.length_append, List.length_cons] at size'
      rw [whole'] at right
      have second := strchr_some right free'
      obtain ⟨middle, end_⟩ := at_cut right
      refine ⟨(mem.set (pos + (fieldText s).length) nul).set
          (pos + (fieldText s).length + 1 + (fieldText rest).length) nul,
        some (pos + (fieldText s).length + 1),
        some (pos + (fieldText s).length + 1 + (fieldText rest).length + 1), ?_, ?_, ?_, ?_, ?_⟩
      · rw [splitFields, first]
        simp only [Option.bind_eq_bind, Option.bind_some]
        rw [second]
        rfl
      · change At _ pos (fieldText s)
        exact at_set_after left (by omega)
      · rw [n2Text, after, Option.map_some]
        exact .some middle
      · rw [multText, after, Option.bind_some, last]
        exact .some end_
      · intro q u other beyond
        exact at_set_before (at_set_before other (by omega)) (by omega)

end fields

section parsing
variable {parse : ParseFunc} {defs : Defaults} {mem : Str}

def FieldRejected (parse : ParseFunc) (field : Option Str) (default : Int) : Prop :=
  ∃ s, field = some s ∧ s ≠ [] ∧ (parse s default).1 < 0

def readField (parse : ParseFunc) (field : Option Str) (missing default : Int) : Except Str Int :=
  match field with
  | some (c :: cs) =>
    if (parse (c :: cs) default).1 < 0 then .error (c :: cs)
    else .ok (fieldValue parse field missing default)
  | _ => .ok (fieldValue parse field missing default)

def readToken (parse : ParseFunc) (defs : Defaults) (tok : Str) : Except Str Range :=
  match readField parse (some (n1Text tok)) defs.min defs.min with
  | .error field => .error field
  | .ok min =>
    match readField parse (n2Text tok) min defs.max with
    | .error field => .error field
    | .ok max =>
      match readField parse (multText tok) defs.mult defs.mult with
      | .error field => .error field
      | .ok mult => .ok ⟨min, max, mult⟩

def readAll (parse : ParseFunc) (defs : Defaults) : List Str → Except Str (List Range)
  | [] => .ok []
  | tok :: toks =>
    match readToken parse defs tok with
    | .error field => .error field
    | .ok range =>
      match readAll parse defs toks with
      | .error field => .error field
      | .ok ranges => .ok (range :: ranges)

theorem parse_field_rel {p : Option Nat} {field : Option Str} (here : Option.Rel (At mem) p field)
    (missing default : Int) :
    parseField parse mem p missing default = some (readField parse field missing default) := by
  cases here with
  | none => rfl
  | @some p s at_field =>
    simp only [parseField, at_cstr at_field, Option.bind_eq_bind, Option.bind_some]
    cases s with
    | nil => rfl
    | cons c cs =>
      rw [if_pos (by simp), readField]
      split
      · rfl
      · rfl

theorem parse_token_at (parse : ParseFunc) (defs : Defaults) {p : Nat} {tok : Str}
    (here : At mem p tok) :
    ∃ later, parseToken parse defs mem p = some (later, readToken parse defs tok) ∧
      ∀ q u, At mem q u → p + tok.length ≤ q → At later q u := by
  obtain ⟨later, n2, mult, cut, first, second, third, kept⟩ := split_fields_at here
  refine ⟨later, ?_, kept⟩
  simp only [parseToken, cut, Option.bind_eq_bind, Option.bind_some,
    parse_field_rel (.some first), parse_field_rel second, parse_field_rel third, readToken]
  cases readField parse (some (n1Text tok)) defs.min defs.min with
  | error field => rfl
  | ok min =>
    dsimp only
    cases readField parse (n2Text tok) min defs.max with
    | error field => rfl
    | ok max =>
      dsimp only
      cases readField parse (multText tok) defs.mult defs.mult with
      | error field => rfl
      | ok mult => rfl

theorem parse_loop_tokens (parse : ParseFunc) (defs : Defaults) (capacity fuel : Nat)
    (ranges : List Range) {saved p : Nat} {token rest : Str} {others : List Str}
    (current : At mem p token) (ends : p + token.length ≤ saved)
    (remains : At mem saved rest) (left : tokens (· == ',') rest = others)
    (room : ranges.length + others.length + 1 ≤ capacity) (some_fuel : others.length + 1 < fuel) :
    parseLoop parse defs capacity fuel mem saved ranges (some p) =
      some ((readAll parse defs (token :: others)).map (ranges ++ ·)) := by
  induction others generalizing mem fuel saved p ranges token rest with
  | nil =>
    obtain ⟨later, parsed, kept⟩ := parse_token_at parse defs current
    obtain ⟨saved', ended⟩ := strtok_none (kept saved rest remains ends) left
    obtain ⟨fuel, rfl⟩ : ∃ n, fuel = n + 2 := ⟨fuel - 2, by simp at some_fuel; omega⟩
    simp only [parseLoop, if_pos (show ranges.length < capacity by omega), parsed,
      Option.bind_eq_bind, Option.bind_some, readAll]
    cases readToken parse defs token with
    | error field => rfl
    | ok range =>
      simp only [ended, Option.bind_some]
      rfl
  | cons next others ih =>
    obtain ⟨later, parsed, kept⟩ := parse_token_at parse defs current
    obtain ⟨q, later', saved', rest', taken⟩ := strtok_some (kept saved rest remains ends) left
    rw [List.length_cons] at room some_fuel
    obtain ⟨fuel, rfl⟩ : ∃ n, fuel = n + 1 := ⟨fuel - 1, by omega⟩
    rw [parseLoop, if_pos (show ranges.length < capacity by omega), readAll]
    simp only [parsed, Option.bind_eq_bind, Option.bind_some]
    cases readToken parse defs token with
    | error field => rfl
    | ok range =>
      simp only [taken.returned, Option.bind_some]
      rw [ih fuel (ranges ++ [range]) taken.at_token taken.before taken.at_rest taken.left
        (by rw [List.length_append, List.length_singleton]; omega) (by omega)]
      cases readAll parse defs (next :: others) with
      | error field => rfl
      | ok ranges' => simp [Except.map]

end parsing

section meaning
variable {parse : ParseFunc} {defs : Defaults}

theorem read_field_value (parse : ParseFunc) (field : Option Str) (missing default : Int) :
    (readField parse field missing default = .ok (fieldValue parse field missing default) ∧
      ¬ FieldRejected parse field default) ∨
    ∃ s, readField parse field missing default = .error s ∧ field = some s ∧ FieldRejected parse field default := by
  unfold FieldRejected
  rcases field with _ | _ | ⟨c, cs⟩
  · exact .inl ⟨rfl, by simp⟩
  · exact .inl ⟨rfl, by simp⟩
  · rw [readField]
    split
    · rename_i refused
      exact .inr ⟨c :: cs, rfl, rfl, c :: cs, rfl, by simp, refused⟩
    · rename_i accepted
      refine .inl ⟨rfl, ?_⟩
      rintro ⟨s, same, -, refused⟩
      obtain rfl := Option.some.inj same
      exact accepted refused

theorem rejected_iff (tok : Str) : Rejected parse defs tok ↔ FieldRejected parse (some (n1Text tok)) defs.min ∨
    FieldRejected parse (n2Text tok) defs.max ∨ FieldRejected parse (multText tok) defs.mult := by
  unfold Rejected fieldsOf FieldRejected
  cases n2Text tok with
  | none => cases multText tok with
    | none => simp
    | some mult => simp
  | some n2 => cases multText tok with
    | none => simp
    | some mult => simp

theorem read_token_value (parse : ParseFunc) (defs : Defaults) (tok : Str) :
    (readToken parse defs tok = .ok (rangeOf parse defs tok) ∧ ¬ Rejected parse defs tok) ∨
    ∃ field, readToken parse defs tok = .error field ∧ Rejected parse defs tok := by
  rw [rejected_iff, readToken, rangeOf]
  rcases read_field_value parse (some (n1Text tok)) defs.min defs.min with
    ⟨first, accepted⟩ | ⟨s, first, -, refused⟩
  · rw [first]
    rcases read_field_value parse (n2Text tok)
      (fieldValue parse (some (n1Text tok)) defs.min defs.min) defs.max with
      ⟨second, accepted'⟩ | ⟨s, second, -, refused⟩
    · simp only [second]
      rcases read_field_value parse (multText tok) defs.mult defs.mult with
        ⟨third, accepted''⟩ | ⟨s, third, -, refused⟩
      · simp only [third]
        exact .inl ⟨trivial, by simp [accepted, accepted', accepted'']⟩
      · simp only [third]
        exact .inr ⟨s, rfl, .inr (.inr refused)⟩
    · simp only [second]
      exact .inr ⟨s, rfl, .inr (.inl refused)⟩
  · rw [first]
    exact .inr ⟨s, rfl, .inl refused⟩

theorem read_all_value (parse : ParseFunc) (defs : Defaults) (toks : List Str) :
    (readAll parse defs toks = .ok (toks.map (rangeOf parse defs)) ∧ ∀ tok ∈ toks, ¬ Rejected parse defs tok) ∨
    ∃ field, readAll parse defs toks = .error field ∧ ∃ tok ∈ toks, Rejected parse defs tok := by
  induction toks with
  | nil => exact .inl ⟨rfl, by simp⟩
  | cons tok toks ih =>
    rw [readAll]
    rcases read_token_value parse defs tok with
      ⟨first, accepted⟩ | ⟨field, first, refused⟩
    · rw [first]
      rcases ih with ⟨rest, others⟩ | ⟨field, rest, tok', found, refused⟩
      · simp only [rest]
        exact .inl ⟨rfl, List.forall_mem_cons.mpr ⟨accepted, others⟩⟩
      · simp only [rest]
        exact .inr ⟨field, rfl, tok', List.mem_cons_of_mem tok found, refused⟩
    · rw [first]
      exact .inr ⟨field, rfl, tok, by simp, refused⟩

end meaning

section result

/-- What `parse_ranges` must give for a string: the ranges of its tokens in order, or -1 with the
    caller's pointer left as it is when a field is rejected. -/
structure Reference (str : CStr) (defs : Defaults) (parse : ParseFunc) (wanted : Bool)
    (out : Outcome) : Prop where
  input : out.str = str.block
  rejected : out.ret = -1 ↔ ∃ tok ∈ tokens (· == ',') str.chars, Rejected parse defs tok
  left : out.ret = -1 → out.rangeptr = none
  count : out.ret ≠ -1 → out.ret = (tokens (· == ',') str.chars).length ∧ out.ret ≤ 1 + str.chars.count ','
  ranges : out.ret ≠ -1 → out.rangeptr =
    if wanted then some ((tokens (· == ',') str.chars).map (rangeOf parse defs)) else none

theorem comma_count (s : Str) : (tokens (· == ',') s).length ≤ s.count ',' + 1 := by
  have count := tokens_count (· == ',') s
  rw [List.count]
  split at count
  · exact count
  · omega

theorem parse_loop_reads (str : CStr) (defs : Defaults) (parse : ParseFunc) {fuel : Nat}
    (some_fuel : str.chars.length + 1 < fuel) :
    ∃ tok mem saved, strtok (· == ',') str.block 0 = some (tok, mem, saved) ∧
      parseLoop parse defs (str.chars.count ',' + 1) fuel mem saved [] tok =
        some (readAll parse defs (tokens (· == ',') str.chars)) := by
  have room := comma_count str.chars
  cases found : tokens (· == ',') str.chars with
  | nil =>
    obtain ⟨saved, ended⟩ := strtok_none (block_at str) found
    obtain ⟨fuel, rfl⟩ : ∃ n, fuel = n + 1 := ⟨fuel - 1, by omega⟩
    exact ⟨none, str.block, saved, ended, rfl⟩
  | cons token others =>
    obtain ⟨p, mem, saved, rest, taken⟩ := strtok_some (block_at str) found
    have shorter := taken.shorter
    have few := tokens_le (· == ',') rest
    rw [taken.left] at few
    rw [found, List.length_cons] at room
    have looped := parse_loop_tokens parse defs (str.chars.count ',' + 1) fuel []
      taken.at_token taken.before taken.at_rest taken.left (by rw [List.length_nil]; omega)
      (by omega)
    refine ⟨some p, mem, saved, taken.returned, ?_⟩
    rw [looped]
    cases readAll parse defs (token :: others) with
    | error field => rfl
    | ok ranges => rfl

end result
end VteParseRanges
