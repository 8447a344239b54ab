import Mathlib.Data.List.Nodup
import Vte.Pan.Verdicts

/-!
The CUTS results of a tag in any order: `cuts_testcase` keeps the worst status of each test case,
`cuts_report` the worst of all and the number of test cases, and none of them depends on the order
of the lines.
-/
namespace VteMergeOrder
open Text Assoc VteSymbol VteTagReport VteScan VteVerdicts

def IsNumber (tc : Str) : Prop :=
  (tc ≠ [] ∧ ∀ c ∈ tc, c.isDigit = true) ∨ ∃ first last : Str, tc = first ++ '-' :: last ∧
      (first ≠ [] ∧ ∀ c ∈ first, c.isDigit = true) ∧ (last ≠ [] ∧ ∀ c ∈ last, c.isDigit = true)

/-- What the two rules for a CUTS result take, with a status of the table of `worst_case`. -/
structure Line where
  tcid : Str
  gap : Str
  tc : Str
  gap' : Str
  result : Str
  gap'' : Str
  tcid_word : tcid ≠ [] ∧ ∀ c ∈ tcid, isWord c = true
  gap_blank : gap ≠ [] ∧ ∀ c ∈ gap, isBlank c = true
  tc_number : IsNumber tc
  gap_blank' : gap' ≠ [] ∧ ∀ c ∈ gap', isBlank c = true
  known : result ∈ worst
  gap_blank'' : gap'' ≠ [] ∧ ∀ c ∈ gap'', isBlank c = true

def Line.yytext (l : Line) : Str :=
  l.tcid ++ (l.gap ++ (l.tc ++ (l.gap' ++ (l.result ++ (l.gap'' ++ [':'])))))

def Line.key (l : Line) : Str := l.tcid ++ ',' :: l.tc

/-- The key fits the buffer of `cuts_testcase`. -/
def Line.Fits (l : Line) : Prop := l.key.length < keySize

instance (l : Line) : Decidable l.Fits := inferInstanceAs (Decidable (_ < _))

def testcases (ls : List Line) : Option (Option Table) :=
  ls.foldlM (fun tag l => cutsTestcase tag l.yytext) (some [])

def report (keys : Table) (analysis : Str) (ls : List Line) : Option (List Verdict) := do
  let tag ← testcases ls
  let tag ← put tag keysName (.table keys) false
  cutsReport (tag.getD []) analysis

def IsWorst (statuses : List Str) (status : Str) : Prop :=
  status ∈ statuses ∧ ∀ s ∈ statuses, worst.idxOf status ≤ worst.idxOf s

def statusesOf (ls : List Line) (key : Str) : List Str :=
  (ls.filter fun l => l.key = key).map Line.result

def SameVerdicts (vs vs' : List Verdict) : Prop :=
  ∃ cases cases' whole check, vs = cases ++ whole :: check ∧ vs' = cases' ++ whole :: check ∧
    whole.tcid = "*".toList ∧ cases'.Perm cases

def OrderIndependent (keys : Table) (analysis : Str) (ls : List Line) : Prop :=
  ∃ tag vs, testcases ls = some tag ∧ report keys analysis ls = some vs ∧
    (∀ l ∈ ls, ∃ status, symGet tag l.key = some (.leaf status) ∧ IsWorst (statusesOf ls l.key) status) ∧
    ∀ ls' : List Line, ls'.Perm ls → ∃ vs', report keys analysis ls' = some vs' ∧ SameVerdicts vs vs'

section line
variable (l : Line)

theorem tcid_no_comma : ',' ∉ l.tcid := word_no_comma l.tcid_word.2

theorem number_char {tc : Str} (number : IsNumber tc) :
    tc ≠ [] ∧ ∀ c ∈ tc, c.isDigit = true ∨ c = '-' := by
  rcases number with ⟨some_digit, digits⟩ | ⟨first, last, rfl, first_digits, last_digits⟩
  · exact ⟨some_digit, fun c mem => Or.inl (digits c mem)⟩
  · constructor
    · simp
    · intro c mem
      rcases List.mem_append.mp mem with mem | mem
      · exact Or.inl (first_digits.2 c mem)
      · rcases List.mem_cons.mp mem with rfl | mem
        · exact Or.inr rfl
        · exact Or.inl (last_digits.2 c mem)

theorem tc_no_comma : ',' ∉ l.tc := by
  intro mem
  rcases (number_char l.tc_number).2 _ mem with digit | dash
  · exact absurd digit (by decide)
  · exact absurd dash (by decide)

theorem known_letters {status : Str} (known : status ∈ worst) :
    status ≠ [] ∧ ∀ c ∈ status, isAlpha c = true := by
  simp only [worst, List.mem_cons, List.not_mem_nil, or_false] at known
  rcases known with rfl | rfl | rfl | rfl | rfl | rfl <;> exact word_of_all (by decide) rfl

theorem line_tokens : tokens isBlank l.yytext = [l.tcid, l.tc, l.result, [':']] := by
  have word : ∀ c ∈ l.tcid, isBlank c = false := by
    intro c mem
    cases blank : isBlank c with
    | false => rfl
    | true => cases (l.tcid_word.2 c mem).symm.trans (blank_apart blank).1
  have number : ∀ c ∈ l.tc, isBlank c = false := by
    intro c mem
    rcases (number_char l.tc_number).2 c mem with digit | rfl
    · exact digit_not_blank digit
    · rfl
  have letters : ∀ c ∈ l.result, isBlank c = false :=
    fun c mem => letter_not_blank ((known_letters l.known).2 c mem)
  rw [Line.yytext, tokens_blank ⟨l.tcid_word.1, word⟩ l.gap_blank,
    tokens_blank ⟨(number_char l.tc_number).1, number⟩ l.gap_blank',
    tokens_blank ⟨(known_letters l.known).1, letters⟩ l.gap_blank'']
  rfl

theorem line_info : cutsInfo l.yytext = if l.Fits then some (l.key, l.result) else none := by
  rw [cutsInfo, line_tokens]
  rfl

theorem key_eq_iff {l l' : Line} : l'.key = l.key ↔ l'.tcid = l.tcid ∧ l'.tc = l.tc := by
  constructor
  · intro same
    have path : components l'.key = components l.key := by rw [same]
    rw [Line.key, Line.key, components_cons l'.tcid_word.1 (tcid_no_comma l'),
      components_cons l.tcid_word.1 (tcid_no_comma l),
      components_single (number_char l'.tc_number).1 (tc_no_comma l'),
      components_single (number_char l.tc_number).1 (tc_no_comma l)] at path
    simpa using path
  · rintro ⟨tcid, tc⟩
    rw [Line.key, Line.key, tcid, tc]

end line

section worst
variable {x y : Str}

theorem worst_comm (x_known : x ∈ worst) : worstCase x y = worstCase y x := by
  rw [worstCase, worstCase]
  by_cases before : worst.idxOf x < worst.idxOf y
  · rw [if_pos before, if_neg (by omega)]
  · by_cases after : worst.idxOf y < worst.idxOf x
    · rw [if_neg before, if_pos after]
    · have same : worst.idxOf x = worst.idxOf y := by omega
      rw [(List.idxOf_inj x_known).mp same]

theorem worst_right_comm (z : Str) (x_known : x ∈ worst) :
    worstCase (worstCase z x) y = worstCase (worstCase z y) x := by
  have swap := worst_comm (y := y) x_known
  simp only [worstCase] at swap ⊢
  by_cases zx : worst.idxOf z < worst.idxOf x <;> by_cases zy : worst.idxOf z < worst.idxOf y
  · simp [zx, zy]
  · have yx : worst.idxOf y < worst.idxOf x := by omega
    simp [zx, zy, yx]
  · have xy : worst.idxOf x < worst.idxOf y := by omega
    simp [zx, zy, xy]
  · simpa [zx, zy] using swap

def worstOf (statuses : List Str) : Option Str :=
  statuses.foldl (fun old status => some (merge status old)) none

theorem worst_of_snoc (statuses : List Str) (status : Str) :
    worstOf (statuses ++ [status]) = some (merge status (worstOf statuses)) := by
  rw [worstOf, List.foldl_append]
  rfl

theorem worst_of_none {statuses : List Str} (left : worstOf statuses = none) : statuses = [] := by
  cases statuses using List.reverseRecOn with
  | nil => rfl
  | append_singleton before last =>
    rw [worst_of_snoc] at left
    cases left

theorem worst_of_least {statuses : List Str} {status : Str} (left : worstOf statuses = some status) :
    IsWorst statuses status := by
  induction statuses using List.reverseRecOn generalizing status with
  | nil => cases left
  | append_singleton statuses last ih =>
    rw [worst_of_snoc, Option.some.injEq] at left
    cases sofar : worstOf statuses with
    | none =>
      obtain rfl := worst_of_none sofar
      rw [sofar] at left
      subst left
      simp [IsWorst, merge]
    | some old =>
      obtain ⟨mem, least⟩ := ih sofar
      rw [sofar, merge, worstCase] at left
      by_cases worse : worst.idxOf old < worst.idxOf last
      · rw [if_pos worse] at left
        subst left
        constructor
        · exact List.mem_append_left _ mem
        · intro s inside
          rcases List.mem_append.mp inside with inside | inside
          · exact least s inside
          · rw [List.mem_singleton.mp inside]
            omega
      · rw [if_neg worse] at left
        subst left
        constructor
        · simp
        · intro s inside
          rcases List.mem_append.mp inside with inside | inside
          · have bound := least s inside
            omega
          · rw [List.mem_singleton.mp inside]

theorem worst_of_perm {ss ss' : List Str} (perm : ss'.Perm ss) (known : ∀ s ∈ ss, s ∈ worst) :
    worstOf ss' = worstOf ss := by
  apply perm.foldl_eq'
  intro x x_mem y _ old
  have x_known := known x (perm.mem_iff.mp x_mem)
  cases old with
  | none => exact congrArg some (worst_comm (y := y) x_known)
  | some z => exact congrArg some (worst_right_comm z x_known)

end worst

section table
variable (cs : Cases) (l : Line)

def addLine : Cases := upsert l.tcid (addCase l.tc l.result) cs

def lookup (tcid tc : Str) : Option Str := (find tcid cs).bind (find tc)

theorem lookup_add (tcid tc : Str) : lookup (addLine cs l) tcid tc =
    if l.tcid = tcid ∧ l.tc = tc then some (merge l.result (lookup cs tcid tc))
    else lookup cs tcid tc := by
  rw [lookup, addLine]
  by_cases same_tcid : l.tcid = tcid
  · subst same_tcid
    have absent : find tc ((find l.tcid cs).getD []) = lookup cs l.tcid tc := by
      rw [lookup]
      cases find l.tcid cs <;> rfl
    rw [find_upsert_same, Option.bind_some, addCase]
    by_cases same_tc : l.tc = tc
    · subst same_tc
      rw [if_pos ⟨rfl, rfl⟩, find_upsert_same, absent]
    · rw [if_neg (fun both => same_tc both.2), find_upsert_other (Ne.symm same_tc), absent]
  · rw [if_neg (fun both => same_tcid both.1), find_upsert_other (Ne.symm same_tcid), ← lookup]

structure Shaped : Prop where
  distinct : (keys cs).Nodup
  words : ∀ tcid ∈ keys cs, (tcid ≠ [] ∧ ',' ∉ tcid) ∧ tcid.length < keySize
  inner : ∀ entry ∈ cs, entry.2 ≠ [] ∧ (keys entry.2).Nodup

variable {cs l}

theorem shaped_add (shaped : Shaped cs) (fits : l.Fits) : Shaped (addLine cs l) := by
  refine ⟨upsert_nodup shaped.distinct, ?_, ?_⟩
  · intro tcid mem
    rw [addLine, keys_upsert] at mem
    have either : tcid ∈ keys cs ∨ tcid = l.tcid := by
      split at mem
      · exact Or.inl mem
      · simpa using mem
    rcases either with seen | rfl
    · exact shaped.words tcid seen
    · refine ⟨⟨l.tcid_word.1, tcid_no_comma l⟩, ?_⟩
      rw [Line.Fits, Line.key, List.length_append] at fits
      exact Nat.lt_of_le_of_lt (Nat.le_add_right _ _) fits
  · intro entry mem
    rcases mem_of_upsert mem with kept | added
    · exact shaped.inner entry kept
    · have before : (keys ((find l.tcid cs).getD [])).Nodup := by
        cases found : find l.tcid cs with
        | none => exact List.nodup_nil
        | some sub => exact (shaped.inner _ (mem_of_find found)).2
      rw [added, addCase]
      refine ⟨?_, upsert_nodup before⟩
      intro empty
      have listed : l.tc ∈ keys (upsert l.tc (merge l.result) ((find l.tcid cs).getD [])) :=
        find_some_iff.mp ⟨_, find_upsert_same⟩
      rw [empty] at listed
      cases listed

theorem shaped_verdict (shaped : Shaped cs) (v : Verdict) :
    v ∈ caseVerdicts (visible cs) ↔ v.tcid ≠ keysName ∧ lookup cs v.tcid v.tc = some v.result := by
  constructor
  · intro mem
    obtain ⟨⟨tcid, sub⟩, inside, here⟩ := List.mem_flatMap.mp mem
    obtain ⟨⟨tc, status⟩, number, rfl⟩ := List.mem_map.mp here
    obtain ⟨present, other⟩ := List.mem_filter.mp inside
    refine ⟨by simpa using other, ?_⟩
    rw [lookup, (mem_iff_find shaped.distinct).mp present, Option.bind_some]
    exact (mem_iff_find (shaped.inner _ present).2).mp number
  · rintro ⟨other, found⟩
    obtain ⟨sub, outer, inner⟩ := Option.bind_eq_some_iff.mp found
    have present := mem_of_find outer
    refine List.mem_flatMap.mpr ⟨_, List.mem_filter.mpr ⟨present, by simpa using other⟩, ?_⟩
    exact List.mem_map.mpr ⟨_, mem_of_find inner, rfl⟩

theorem shaped_reported (shaped : Shaped cs) (keywords : Table) :
    ∀ entry ∈ visible cs, Reported (tagTable cs keywords) entry := by
  rintro ⟨tcid, sub⟩ mem
  have present := (List.mem_filter.mp mem).1
  have listed : tcid ∈ keys cs := List.mem_map.mpr ⟨_, present, rfl⟩
  obtain ⟨word, short⟩ := shaped.words tcid listed
  exact reported_entry word short ((mem_iff_find shaped.distinct).mp present)
    (shaped.inner _ present).1 keywords

theorem shaped_distinct (shaped : Shaped cs) : (caseVerdicts (visible cs)).Nodup := by
  have visible_distinct : ((visible cs).map Prod.fst).Nodup :=
    shaped.distinct.sublist (List.Sublist.map _ List.filter_sublist)
  apply List.nodup_flatMap.mpr
  constructor
  · intro entry mem
    have numbers := (shaped.inner entry (List.mem_filter.mp mem).1).2
    apply List.Nodup.of_map Verdict.tc
    simpa [keys, Function.comp_def] using numbers
  · apply (List.pairwise_map.mp visible_distinct).imp
    intro entry entry' other v mem mem'
    obtain ⟨_, _, rfl⟩ := List.mem_map.mp mem
    obtain ⟨_, _, same⟩ := List.mem_map.mp mem'
    exact other (congrArg Verdict.tcid same).symm

end table

section run
variable (ls : List Line)

def casesOf : Cases := ls.foldl addLine []

theorem cases_snoc (l : Line) : casesOf (ls ++ [l]) = addLine (casesOf ls) l := by
  rw [casesOf, List.foldl_append]
  rfl

theorem testcase_step (cs : Cases) (l : Line) : cutsTestcase (some (embed cs)) l.yytext =
    if l.Fits then some (some (embed (addLine cs l))) else none := by
  by_cases fits : l.Fits
  · have info : cutsInfo l.yytext = some (l.key, l.result) := by rw [line_info, if_pos fits]
    rw [if_pos fits, cuts_testcase_embed info rfl ⟨l.tcid_word.1, tcid_no_comma l⟩
      ⟨(number_char l.tc_number).1, tc_no_comma l⟩]
    rfl
  · rw [if_neg fits, cutsTestcase, line_info, if_neg fits]
    rfl

theorem testcases_from : ∀ cs : Cases, ls.foldlM (fun tag l => cutsTestcase tag l.yytext) (some (embed cs)) =
      if ∀ l ∈ ls, l.Fits then some (some (embed (ls.foldl addLine cs))) else none := by
  induction ls with
  | nil => simp
  | cons l ls ih =>
    intro cs
    rw [List.foldlM_cons, testcase_step]
    by_cases fits : l.Fits
    · rw [if_pos fits, Option.bind_eq_bind, Option.bind_some, ih]
      simp only [List.mem_cons, forall_eq_or_imp, fits, true_and, List.foldl_cons]
    · rw [if_neg fits, if_neg fun all => fits (all l (by simp))]
      rfl

theorem testcases_eq : testcases ls =
    if ∀ l ∈ ls, l.Fits then some (some (embed (casesOf ls))) else none := testcases_from ls []

theorem cases_shaped (fits : ∀ l ∈ ls, l.Fits) : Shaped (casesOf ls) := by
  induction ls using List.reverseRecOn with
  | nil => exact ⟨List.nodup_nil, nofun, nofun⟩
  | append_singleton ls l ih =>
    rw [cases_snoc]
    exact shaped_add (ih fun l' mem => fits l' (by simp [mem])) (fits l (by simp))

def statusesAt (tcid tc : Str) : List Str :=
  (ls.filter fun l => l.tcid = tcid ∧ l.tc = tc).map Line.result

theorem lookup_cases (tcid tc : Str) :
    lookup (casesOf ls) tcid tc = worstOf (statusesAt ls tcid tc) := by
  induction ls using List.reverseRecOn with
  | nil => rfl
  | append_singleton ls l ih =>
    rw [cases_snoc, lookup_add, ih, statusesAt, statusesAt, List.filter_append, List.map_append]
    by_cases here : l.tcid = tcid ∧ l.tc = tc
    · simp [here, worst_of_snoc]
    · simp [here]

theorem statuses_at_key (l : Line) : statusesAt ls l.tcid l.tc = statusesOf ls l.key := by
  rw [statusesAt, statusesOf]
  congr 1
  apply List.filter_congr
  intro l' _
  simp only [key_eq_iff]

theorem key_status {l : Line} (mem : l ∈ ls) : ∃ status,
    symGet (some (embed (casesOf ls))) l.key = some (.leaf status) ∧ IsWorst (statusesOf ls l.key) status := by
  have listed : l.result ∈ statusesOf ls l.key :=
    List.mem_map.mpr ⟨l, List.mem_filter.mpr ⟨mem, by simp⟩, rfl⟩
  have found := get_embed (casesOf ls) ⟨l.tcid_word.1, tcid_no_comma l⟩
    ⟨(number_char l.tc_number).1, tc_no_comma l⟩
  rw [← lookup, lookup_cases, statuses_at_key] at found
  cases left : worstOf (statusesOf ls l.key) with
  | none =>
    rw [worst_of_none left] at listed
    cases listed
  | some status =>
    rw [left] at found
    exact ⟨status, found, worst_of_least left⟩

theorem statuses_known {tcid tc : Str} : ∀ s ∈ statusesAt ls tcid tc, s ∈ worst := by
  intro s mem
  obtain ⟨l, _, rfl⟩ := List.mem_map.mp mem
  exact l.known

theorem verdict_known (fits : ∀ l ∈ ls, l.Fits) :
    ∀ v ∈ caseVerdicts (visible (casesOf ls)), v.result ∈ worst := by
  intro v mem
  obtain ⟨_, found⟩ := (shaped_verdict (cases_shaped ls fits) v).mp mem
  rw [lookup_cases] at found
  exact statuses_known ls _ (worst_of_least found).1

variable {ls} {ls' : List Line}

theorem fits_perm (perm : ls'.Perm ls) (fits : ∀ l ∈ ls, l.Fits) : ∀ l ∈ ls', l.Fits :=
  fun l mem => fits l (perm.mem_iff.mp mem)

theorem verdicts_perm (perm : ls'.Perm ls) (fits : ∀ l ∈ ls, l.Fits) :
    (caseVerdicts (visible (casesOf ls'))).Perm (caseVerdicts (visible (casesOf ls))) := by
  have shaped := cases_shaped ls fits
  have shaped' := cases_shaped ls' (fits_perm perm fits)
  apply (List.perm_ext_iff_of_nodup (shaped_distinct shaped') (shaped_distinct shaped)).mpr
  intro v
  have same : worstOf (statusesAt ls' v.tcid v.tc) = worstOf (statusesAt ls v.tcid v.tc) :=
    worst_of_perm ((perm.filter _).map _) (statuses_known ls)
  rw [shaped_verdict shaped', shaped_verdict shaped, lookup_cases, lookup_cases, same]

end run

section tally

theorem tally_result (vs : List Verdict) : ∀ t : Tally,
    (vs.foldl tally t).result = (vs.map Verdict.result).foldl worstCase t.result := by
  induction vs with
  | nil => exact fun t => rfl
  | cons v vs ih => exact fun t => ih (tally t v)

theorem tally_tcnum (vs : List Verdict) : ∀ t : Tally,
    (vs.foldl tally t).tcnum = t.tcnum + vs.countP fun v => atoi v.tc ≠ 0 := by
  induction vs with
  | nil => simp
  | cons v vs ih =>
    intro t
    rw [List.foldl_cons, ih, tally, List.countP_cons]
    by_cases zero : atoi v.tc = 0
    · simp [zero]
    · simp only [ne_eq, zero, not_false_eq_true, if_true, decide_true]
      omega

theorem conclusion_perm {vs vs' : List Verdict} (perm : vs'.Perm vs)
    (known : ∀ v ∈ vs, v.result ∈ worst) (analysis : Str) (t : Tally) :
    conclusion analysis (vs'.foldl tally t) = conclusion analysis (vs.foldl tally t) := by
  have result : (vs'.foldl tally t).result = (vs.foldl tally t).result := by
    rw [tally_result, tally_result]
    apply (perm.map Verdict.result).foldl_eq'
    intro x x_mem y _ z
    obtain ⟨v, mem, rfl⟩ := List.mem_map.mp x_mem
    exact worst_right_comm z (known v (perm.mem_iff.mp mem))
  have tcnum : (vs'.foldl tally t).tcnum = (vs.foldl tally t).tcnum := by
    rw [tally_tcnum, tally_tcnum, perm.countP_eq]
  rw [conclusion, conclusion, result, tcnum]

end tally

section report
variable {ls : List Line} (keywords : Table) (analysis : Str)

theorem report_verdicts (fits : ∀ l ∈ ls, l.Fits) : report keywords analysis ls =
    some (caseVerdicts (visible (casesOf ls)) ++
      conclusion analysis ((caseVerdicts (visible (casesOf ls))).foldl tally ⟨[], [], 0⟩)) := by
  rw [report, testcases_eq, if_pos fits, Option.bind_eq_bind, Option.bind_some]
  simp only [put_keys, Option.bind_some, Option.getD_some]
  exact cuts_report_eq (shaped_reported (cases_shaped ls fits) keywords) analysis

theorem testcases_none (long : ¬ ∀ l ∈ ls, l.Fits) : testcases ls = none := by
  rw [testcases_eq, if_neg long]

/-- The verdicts do not depend on the order of the lines as long as every key fits its buffer. -/
theorem order_independent_iff :
    OrderIndependent keywords analysis ls ↔ ∀ l ∈ ls, l.Fits := by
  constructor
  · rintro ⟨tag, vs, tabled, _⟩
    by_contra long
    rw [testcases_none long] at tabled
    cases tabled
  · intro fits
    have tabled : testcases ls = some (some (embed (casesOf ls))) := by
      rw [testcases_eq, if_pos fits]
    refine ⟨_, _, tabled, report_verdicts keywords analysis fits, ?_, ?_⟩
    · intro l mem
      exact key_status ls mem
    · intro ls' perm
      have reported := report_verdicts keywords analysis (fits_perm perm fits)
      have verdicts := verdicts_perm perm fits
      rw [conclusion_perm verdicts (verdict_known ls fits)] at reported
      exact ⟨_, reported, _, _, _, _, rfl, rfl, rfl, verdicts⟩

end report

/-- A TCID that leaves no room for the number in the buffer of `cuts_testcase`. -/
def longLine : Line where
  tcid := List.replicate 253 'a'
  gap := [' ']
  tc := ['1']
  gap' := [' ']
  result := "PASS".toList
  gap'' := [' ']
  tcid_word := by
    constructor
    · exact List.cons_ne_nil _ _
    · intro c mem
      rw [List.eq_of_mem_replicate mem]
      rfl
  gap_blank := word_of_all (by simp) rfl
  tc_number := Or.inl (word_of_all (by simp) rfl)
  gap_blank' := word_of_all (by simp) rfl
  known := by decide
  gap_blank'' := word_of_all (by simp) rfl

/-- One line with a TCID of 253 characters: the key and its final NUL take 256 bytes. -/
theorem long_tcid_overflows : ¬ OrderIndependent [] "cuts".toList [longLine] := by
  have long : ¬ longLine.Fits := by
    have tcid : longLine.tcid.length = 253 := List.length_replicate
    have tc : longLine.tc.length = 1 := rfl
    rw [Line.Fits, Line.key, List.length_append, List.length_cons, tcid, tc, keySize]
    omega
  rintro ⟨tag, vs, tabled, _⟩
  rw [testcases_none (fun all => long (all longLine (by simp)))] at tabled
  cases tabled

end VteMergeOrder
