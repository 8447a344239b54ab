import Vte.Pan.Scan

/-!
The scanner line by line: fuel, the choice between the rules at hand, and what is skipped.
-/
namespace VteScan
open Text Lexer VteSymbol VteTagReport

section steps
variable {s : State} {text : Str} {token : Token} {n : Nat}

theorem scan_with_enough (fuel : Nat) : ∀ (other : Nat) (text : Str) (s : State),
    text.length ≤ fuel → text.length ≤ other → scanWith fuel text s = scanWith other text s := by
  induction fuel with
  | zero =>
    intro other text s enough _
    obtain rfl := List.eq_nil_of_length_eq_zero (Nat.le_zero.mp enough)
    cases other <;> rfl
  | succ fuel ih =>
    intro other text s enough otherEnough
    cases text with
    | nil => cases other <;> rfl
    | cons c cs =>
      cases other with
      | zero => cases otherEnough
      | succ other =>
        rw [scanWith, scanWith]
        rw [List.length_cons] at enough otherEnough
        cases select rules s.start s.atBol (c :: cs) with
        | none => rfl
        | some found =>
          obtain ⟨token, n⟩ := found
          by_cases none_taken : n = 0
          · simp only [none_taken, if_true]
          · have shorter : ((c :: cs).drop n).length ≤ cs.length := by
              rw [List.length_drop, List.length_cons]
              omega
            have same : scanWith fuel ((c :: cs).drop n) = scanWith other ((c :: cs).drop n) :=
              funext fun t => ih other _ t (by omega) (by omega)
            simp only [same]

theorem scan_step (selected : select rules s.start s.atBol text = some (token, n)) (taken : 0 < n)
    (inside : n ≤ text.length) :
    scan text s = (action token (text.take n) (advance (text.take n) s)).bind (scan (text.drop n)) := by
  cases text with
  | nil =>
    rw [List.length_nil] at inside
    omega
  | cons c cs =>
    have rest : scanWith cs.length ((c :: cs).drop n) = scan ((c :: cs).drop n) :=
      funext fun t => scan_with_enough _ _ _ t
        (by rw [List.length_drop, List.length_cons]; omega) (Nat.le_refl _)
    rw [scan, List.length_cons, scanWith, selected]
    simp only [Nat.ne_of_gt taken, if_false, rest]

end steps

def State.nextLine (s : State) : State :=
  { s with yylineno := s.yylineno + 1, atBol := true }

section select
variable {start : Start} {bol : Bool} {c : Char} {rest : Str}

theorem markers_elsewhere (other : c ≠ '<') :
    ∀ r ∈ markerRules, r.lengths start bol (c :: rest) = none := by
  have absent : ∀ name token, (markerRule name token).lengths start bol (c :: rest) = none := by
    intro name token
    have stops : ∀ d ∈ (c :: rest).head?, (d == '<') = false := by simpa using other
    exact no_match (match_one_none stops)
  simp [markerRules, absent]

theorem markers_inside (text : Str) : ∀ r ∈ markerRules, r.lengths start false text = none := by
  have absent : ∀ name token, (markerRule name token).lengths start false text = none :=
    fun name token => inside_line rfl
  simp [markerRules, absent]

theorem keys_inactive (other : start ≠ .key) (text : Str) :
    ∀ r ∈ keyRules, r.lengths start bol text = none := by
  intro r mem
  apply other_start .key _ (Ne.symm other)
  revert r
  simp [keyRules]

theorem out_inactive (other : start ≠ .out) (text : Str) :
    ∀ r ∈ outRules, r.lengths start bol text = none := by
  intro r mem
  apply other_start .out _ (Ne.symm other)
  revert r
  simp [outRules]

theorem cuts_inside (text : Str) : ∀ r ∈ cutsRules, r.lengths start false text = none := by
  intro r mem
  apply inside_line
  revert r
  simp [cutsRules]

theorem select_skip (c : Char) (rest : Str) :
    select rules .cuts false (c :: rest) = some (.space, 1) := by
  rw [select, rules, List.foldl_append, List.foldl_append, List.foldl_append, List.foldl_append,
    fold_absent (markers_inside _), fold_absent (keys_inactive (by decide) _),
    fold_absent (out_inactive (by decide) _), fold_absent (cuts_inside _)]
  by_cases newline : c = '\n'
  · simp [anyRules, better, Rule.lengths, matchLength, isText, newline]
  · simp [anyRules, better, Rule.lengths, matchLength, isText, newline]

end select

/-- What a rule for a CUTS result takes: a word, a number and letters, with blanks between them and
    before the colon. -/
structure CutsText where
  tcid : Str
  gap : Str
  tc : Str
  gap' : Str
  result : Str
  gap'' : Str
  tcid_word : tcid ≠ [] ∧ ∀ c ∈ tcid, isWord c = true
  gap_blank : gap ≠ [] ∧ ∀ c ∈ gap, isBlank c = true
  tc_digits : tc ≠ [] ∧ ∀ c ∈ tc, c.isDigit = true
  gap_blank' : gap' ≠ [] ∧ ∀ c ∈ gap', isBlank c = true
  result_letters : result ≠ [] ∧ ∀ c ∈ result, isAlpha c = true
  gap_blank'' : gap'' ≠ [] ∧ ∀ c ∈ gap'', isBlank c = true

def CutsText.before (t : CutsText) (rest : Str) : Str :=
  t.tcid ++ (t.gap ++ (t.tc ++ (t.gap' ++ (t.result ++ (t.gap'' ++ ':' :: rest)))))

def CutsText.length (t : CutsText) : Nat :=
  t.tcid.length + t.gap.length + t.tc.length + t.gap'.length + t.result.length + t.gap''.length + 1

theorem stops_before {p q : Char → Bool} (disjoint : ∀ c, q c = true → p c = false) {w : Str}
    (word : w ≠ [] ∧ ∀ c ∈ w, q c = true) (rest : Str) : ∀ c ∈ (w ++ rest).head?, p c = false := by
  obtain ⟨some_word, word⟩ := word
  cases w with
  | nil => exact absurd rfl some_word
  | cons c cs =>
    intro d head
    obtain rfl : c = d := by simpa using head
    exact disjoint c (word c (by simp))

theorem blank_apart {c : Char} (blank : isBlank c = true) :
    isWord c = false ∧ isAlpha c = false ∧ c.isDigit = false ∧ (c == '-') = false := by
  simp only [isBlank, Bool.or_eq_true, beq_iff_eq] at blank
  rcases blank with rfl | rfl <;> decide

theorem digit_not_blank {c : Char} (digit : c.isDigit = true) : isBlank c = false := by
  cases blank : isBlank c with
  | false => rfl
  | true => cases digit.symm.trans (blank_apart blank).2.2.1

theorem letter_not_blank {c : Char} (letter : isAlpha c = true) : isBlank c = false := by
  cases blank : isBlank c with
  | false => rfl
  | true => cases letter.symm.trans (blank_apart blank).2.1

section cuts
variable (t : CutsText) (rest : Str)

theorem cuts_match : matchLength cutsPattern (t.before rest) = some t.length := by
  have colon : ∀ c ∈ (':' :: rest).head?, isBlank c = false := by
    intro c head
    obtain rfl : ':' = c := by simpa using head
    decide
  rw [cutsPattern, CutsText.before,
    match_many _ t.tcid_word.1 t.tcid_word.2
      (stops_before (fun c blank => (blank_apart blank).1) t.gap_blank _),
    match_many _ t.gap_blank.1 t.gap_blank.2
      (stops_before (fun c => digit_not_blank) t.tc_digits _),
    match_many _ t.tc_digits.1 t.tc_digits.2
      (stops_before (fun c blank => (blank_apart blank).2.2.1) t.gap_blank' _),
    match_many _ t.gap_blank'.1 t.gap_blank'.2
      (stops_before (fun c => letter_not_blank) t.result_letters _),
    match_many _ t.result_letters.1 t.result_letters.2
      (stops_before (fun c blank => (blank_apart blank).2.1) t.gap_blank'' _),
    match_many _ t.gap_blank''.1 t.gap_blank''.2 colon, match_one _ (by decide), matchLength]
  simp only [Option.map_some, CutsText.length, Option.some.injEq]
  omega

theorem cuts_not_range : matchLength cutsRangePattern (t.before rest) = none := by
  rw [cutsRangePattern, CutsText.before,
    match_many _ t.tcid_word.1 t.tcid_word.2
      (stops_before (fun c blank => (blank_apart blank).1) t.gap_blank _),
    match_many _ t.gap_blank.1 t.gap_blank.2
      (stops_before (fun c => digit_not_blank) t.tc_digits _),
    match_many _ t.tc_digits.1 t.tc_digits.2
      (stops_before (fun c blank => (blank_apart blank).2.2.1) t.gap_blank' _),
    match_one_none (stops_before (fun c blank => (blank_apart blank).2.2.2) t.gap_blank' _)]
  rfl

theorem word_head : ∃ c cs, t.before rest = c :: cs ∧ isWord c = true := by
  obtain ⟨some_word, word⟩ := t.tcid_word
  rw [CutsText.before]
  cases tcid : t.tcid with
  | nil => exact absurd tcid some_word
  | cons c cs => exact ⟨c, _, rfl, word c (by rw [tcid]; simp)⟩

theorem select_cuts : select rules .cuts true (t.before rest) = some (.cutsResult, t.length) := by
  obtain ⟨c, cs, head, word⟩ := word_head t rest
  have letter : c ≠ '<' ∧ c ≠ '\n' := by
    constructor
    · rintro rfl
      cases word
    · rintro rfl
      cases word
  have long : t.length ≠ 0 := by
    rw [CutsText.length]
    omega
  have result : Rule.lengths ⟨some .cuts, true, cutsPattern, false, Token.cutsResult⟩ Start.cuts true
      (t.before rest) = some (t.length, t.length) := by
    simp [Rule.lengths, cuts_match]
  have range : Rule.lengths ⟨some .cuts, true, cutsRangePattern, false, Token.cutsResultR⟩
      Start.cuts true (t.before rest) = none := no_match (cuts_not_range t rest)
  have any : Rule.lengths ⟨none, false, [.one isText], false, Token.space⟩ Start.cuts true
      (t.before rest) = some (1, 1) := by
    rw [head]
    simp [Rule.lengths, matchLength, isText, letter.2]
  have newline : Rule.lengths ⟨none, false, [.one (· == '\n')], false, Token.space⟩ Start.cuts true
      (t.before rest) = none := by
    rw [head]
    simp [Rule.lengths, matchLength, letter.2]
  have markers : ∀ r ∈ markerRules, r.lengths Start.cuts true (t.before rest) = none := by
    rw [head]
    exact markers_elsewhere letter.1
  rw [select, rules, List.foldl_append, List.foldl_append, List.foldl_append, List.foldl_append,
    fold_absent markers, fold_absent (keys_inactive (by decide) _),
    fold_absent (out_inactive (by decide) _)]
  simp [cutsRules, anyRules, better, result, range, any, newline, long]

theorem before_append : t.before rest = t.before [] ++ rest := by
  simp [CutsText.before]

theorem before_length : (t.before []).length = t.length := by
  simp only [CutsText.before, CutsText.length, List.length_append, List.length_cons, List.length_nil]
  omega

theorem before_take : (t.before rest).take t.length = t.before [] := by
  rw [before_append, ← before_length, List.take_left]

theorem before_drop : (t.before rest).drop t.length = rest := by
  rw [before_append, ← before_length, List.drop_left]

theorem before_no_newline : '\n' ∉ t.before [] := by
  simp only [CutsText.before, List.mem_append, List.mem_cons, List.not_mem_nil, or_false, not_or]
  have word : '\n' ∉ t.tcid := fun mem => absurd (t.tcid_word.2 _ mem) (by decide)
  have gap : '\n' ∉ t.gap := fun mem => absurd (t.gap_blank.2 _ mem) (by decide)
  have digits : '\n' ∉ t.tc := fun mem => absurd (t.tc_digits.2 _ mem) (by decide)
  have gap' : '\n' ∉ t.gap' := fun mem => absurd (t.gap_blank'.2 _ mem) (by decide)
  have letters : '\n' ∉ t.result := fun mem => absurd (t.result_letters.2 _ mem) (by decide)
  have gap'' : '\n' ∉ t.gap'' := fun mem => absurd (t.gap_blank''.2 _ mem) (by decide)
  exact ⟨word, gap, digits, gap', letters, gap'', by decide⟩

end cuts

theorem advance_skip {c : Char} {s : State} (text : c ≠ '\n') (inside : s.atBol = false) :
    advance [c] s = s := by
  have same : decide ([c].getLast? = some '\n') = s.atBol := by simp [inside, text]
  have none : [c].count '\n' = 0 := by simp [text]
  unfold advance
  rw [same, none]
  rfl

theorem scan_skip {tail : Str} (single : '\n' ∉ tail) (rest : Str) {s : State}
    (start : s.start = .cuts) (inside : s.atBol = false) :
    scan (tail ++ '\n' :: rest) s = scan rest s.nextLine := by
  induction tail with
  | nil =>
    have selected : select rules s.start s.atBol ('\n' :: rest) = some (.space, 1) := by
      rw [start, inside]
      exact select_skip '\n' rest
    rw [List.nil_append, scan_step selected Nat.one_pos (by simp)]
    rfl
  | cons c cs ih =>
    obtain ⟨text, single⟩ := not_or.mp (mt List.mem_cons.mpr single)
    have selected : select rules s.start s.atBol (c :: (cs ++ '\n' :: rest)) = some (.space, 1) := by
      rw [start, inside]
      exact select_skip c _
    rw [List.cons_append, scan_step selected Nat.one_pos (by simp)]
    simp only [List.take_succ_cons, List.take_zero, List.drop_succ_cons, List.drop_zero,
      advance_skip (Ne.symm text) inside, action, Option.bind_some]
    exact ih single

theorem scan_cuts_line (t : CutsText) {tail : Str} (single : '\n' ∉ tail) (rest : Str) {s : State}
    (start : s.start = .cuts) (bol : s.atBol = true) :
    scan (t.before (tail ++ '\n' :: rest)) s = (cutsTestcase s.ctag (t.before [])).bind fun ctag =>
        scan rest { s with ctag := ctag, yylineno := s.yylineno + 1 } := by
  have selected : select rules s.start s.atBol (t.before (tail ++ '\n' :: rest)) = some (.cutsResult, t.length) := by
    rw [start, bol]
    exact select_cuts t _
  have some_text : 0 < t.length := by
    rw [CutsText.length]
    omega
  have inside : t.length ≤ (t.before (tail ++ '\n' :: rest)).length := by
    rw [before_append, List.length_append, before_length]
    omega
  have last : (t.before []).getLast? ≠ some '\n' := by
    intro newline
    exact before_no_newline t (List.mem_of_getLast? newline)
  have advanced : advance (t.before []) s = { s with atBol := false } := by
    have count : (t.before []).count '\n' = 0 := List.count_eq_zero.mpr (before_no_newline t)
    simp [advance, count, last]
  rw [scan_step selected some_text inside, before_take, before_drop, advanced]
  simp only [action]
  cases cutsTestcase s.ctag (t.before []) with
  | none => rfl
  | some ctag =>
    have skipped := scan_skip single rest (s := { s with ctag := ctag, atBol := false }) start rfl
    simp only [Option.bind_eq_bind, Option.bind_some, Option.pure_def, skipped, State.nextLine, bol]

end VteScan
