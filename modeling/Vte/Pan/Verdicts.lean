import Vte.Lib.TstResAccount
import Vte.Pan.ScanLines

/-!
From the results that `tst_print` prints to the verdicts that `cuts_report` gives on them. The
statuses of the library are not in the table of `worst_case`, so that the last result decides.
-/
namespace VteVerdicts
open Text Assoc VteSymbol VteTagReport VteScan

abbrev Cases := List (Str × List (Str × Str))

def embed (cs : Cases) : Table := mapValues (fun sub => .table (mapValues .leaf sub)) cs

def merge (status : Str) : Option Str → Str
  | none => status
  | some old => worstCase old status

def addCase (tc status : Str) (old : Option (List (Str × Str))) : List (Str × Str) :=
  upsert tc (merge status) (old.getD [])

section symbol
variable {tcid tc : Str} (cs : Cases)

theorem get_embed (tcid_word : tcid ≠ [] ∧ ',' ∉ tcid) (tc_word : tc ≠ [] ∧ ',' ∉ tc) :
    symGet (some (embed cs)) (tcid ++ ',' :: tc) =
      some ((((find tcid cs).bind (find tc)).map Sym.leaf).getD .null) := by
  have path : components (tcid ++ ',' :: tc) = [tcid, tc] := by
    rw [components_cons tcid_word.1 tcid_word.2, components_single tc_word.1 tc_word.2]
  rw [symGet, path]
  simp only [List.cons_ne_nil, if_false, getKeys, embed, find_map]
  cases find tcid cs with
  | none => rfl
  | some sub =>
    simp only [Option.map_some, Option.bind_some, find_map]
    cases find tc sub with
    | none => rfl
    | some status => rfl

theorem put_embed (tcid tc value : Str) (replace : Bool)
    (fresh : replace = false → ((find tcid cs).bind (find tc)) = none) :
    putKeys (.leaf value) replace [tcid, tc] (embed cs) =
      (embed (upsert tcid (fun old => upsert tc (fun _ => value) (old.getD [])) cs), .ok) := by
  rw [putKeys, embed, find_map]
  cases found : find tcid cs with
  | none =>
    rw [upsert_absent found]
    simp [embed, mapValues, chain, upsert]
  | some sub =>
    have single : putKeys (.leaf value) replace [tc] (mapValues .leaf sub) =
        (mapValues .leaf (upsert tc (fun _ => value) sub), .ok) := by
      have inner : upsert tc (fun _ => Sym.leaf value) (mapValues .leaf sub) =
          mapValues .leaf (upsert tc (fun _ => value) sub) := by
        apply upsert_map
        intro b
        rfl
      rw [put_single, inner]
      intro kept
      have absent := fresh kept
      rw [found, Option.bind_some] at absent
      rw [find_map, absent]
      rfl
    simp only [Option.map_some, List.cons_ne_nil, if_false, single, embed]
    congr 1
    have known : upsert tcid (fun old => upsert tc (fun _ => value) (old.getD [])) cs =
        upsert tcid (fun _ => upsert tc (fun _ => value) sub) cs := by
      apply upsert_congr
      rw [found]
      rfl
    rw [known]
    apply upsert_map
    intro b
    rfl

theorem cuts_testcase_embed {yytext key result : Str} {cs : Cases}
    (info : cutsInfo yytext = some (key, result)) (whole : key = tcid ++ ',' :: tc)
    (tcid_word : tcid ≠ [] ∧ ',' ∉ tcid) (tc_word : tc ≠ [] ∧ ',' ∉ tc) :
    cutsTestcase (some (embed cs)) yytext = some (some (embed (upsert tcid (addCase tc result) cs))) := by
  have path : components (tcid ++ ',' :: tc) = [tcid, tc] := by
    rw [components_cons tcid_word.1 tcid_word.2, components_single tc_word.1 tc_word.2]
  subst whole
  have put_path : ∀ value replace, (replace = false → ((find tcid cs).bind (find tc)) = none) →
      symPut (some (embed cs)) (tcid ++ ',' :: tc) (.leaf value) replace =
        some (some (embed (upsert tcid (fun old => upsert tc (fun _ => value) (old.getD [])) cs)), .ok) := by
    intro value replace fresh
    simp only [symPut, path, List.cons_ne_nil, false_and, if_false, put_embed cs tcid tc value replace fresh]
  simp only [cutsTestcase, info, Option.bind_eq_bind, Option.bind_some, get_embed cs tcid_word tc_word]
  cases found : (find tcid cs).bind (find tc) with
  | none =>
    simp only [Option.map_none, Option.getD_none, put_path result false fun _ => found]
    refine congrArg (fun cs => some (some (embed cs))) (upsert_congr ?_)
    refine upsert_congr ?_
    cases outer : find tcid cs with
    | none => rfl
    | some sub =>
      rw [outer, Option.bind_some] at found
      simp only [Option.getD_some, found]
      rfl
  | some old =>
    simp only [Option.map_some, Option.getD_some, put_path (worstCase old result) true (by rintro ⟨⟩)]
    refine congrArg (fun cs => some (some (embed cs))) (upsert_congr ?_)
    refine upsert_congr ?_
    obtain ⟨sub, outer, inner⟩ := Option.bind_eq_some_iff.mp found
    simp only [outer, Option.getD_some, inner]
    rfl

end symbol

inductive Kind where
  | pass
  | fail
  | brok
  | warn
  | retr
  | info
  | conf
  deriving DecidableEq

open VteTstRes in
def Kind.ttype : Kind → CInt
  | .pass => tPass
  | .fail => tFail
  | .brok => tBrok
  | .warn => tWarn
  | .retr => tRetr
  | .info => tInfo
  | .conf => tConf

def Kind.status (k : Kind) : Str := VteTstRes.strttype k.ttype

def Kind.rank : Kind → Nat
  | .fail => 0
  | .brok => 1
  | .pass => 2
  | .conf => 3
  | .warn => 4
  | .info => 5
  | .retr => 6

/-- A result as `tst_print` is given it; the message includes the errno suffixes. The TCID is made
    of word characters. -/
structure Result where
  tcid : Str
  num : Nat
  kind : Kind
  mesg : Str
  tcid_word : tcid ≠ [] ∧ ∀ c ∈ tcid, isWord c = true
  single : '\n' ∉ mesg

def Result.tc (r : Result) : Str := decimal r.num

def Result.status (r : Result) : Str := r.kind.status

/-- What `tst_print` writes in verbose mode. -/
def Result.line (r : Result) : Str :=
  VteTstRes.resultLine .verbose r.tcid r.num r.kind.ttype r.mesg ++ ['\n']

def emitted (rs : List Result) : Str := rs.flatMap Result.line

open VteTstRes in
theorem print_emits (r : Result) {env : Env} {fuel : Nat} {ttype : CInt} {mesg out : Str}
    {s t : VteTstRes.State} (type : ttypeResult ttype = r.kind.ttype)
    (text : mesg ++ errnoSuffix env ttype s.errno s.testErrno = r.mesg) (verbose : s.mode = .verbose)
    (no_file : s.file = none) (sofar : s.tOut = some out)
    (printed : tstPrint env (fuel + 1) r.tcid r.num ttype mesg s = .ok t) :
    t.tOut = some (out ++ r.line) := by
  have open_mode : isPrinted s.mode ttype = true := by rw [verbose, isPrinted]
  by_cases long : userMesg ≤ (composed env s r.tcid r.num ttype mesg).length + 1
  · rw [print_too_long open_mode long] at printed
    cases printed
  · have whole : composed env s r.tcid r.num ttype mesg = resultLine .verbose r.tcid r.num r.kind.ttype r.mesg := by
      rw [composed, verbose, ← result_line_result, type, ← text]
      simp [resultLine]
    rw [print_short open_mode long] at printed
    simp only [fputs, sofar, Except.bind, appendFile, no_file] at printed
    obtain rfl := Except.ok.inj printed
    rw [whole]
    rfl

theorem word_of_all {p : Char → Bool} {w : Str} (some_word : w ≠ []) (all : w.all p = true) :
    w ≠ [] ∧ ∀ c ∈ w, p c = true :=
  ⟨some_word, List.all_eq_true.mp all⟩

theorem status_letters (k : Kind) : k.status ≠ [] ∧ ∀ c ∈ k.status, isAlpha c = true := by
  apply word_of_all
  · cases k <;> exact List.cons_ne_nil _ _
  · cases k <;> rfl

theorem status_unknown (k : Kind) : worst.idxOf k.status = worst.length := by
  cases k <;> decide

theorem status_injective {k k' : Kind} (same : k.status = k'.status) : k = k' := by
  revert same
  cases k <;> cases k' <;> decide

theorem rank_injective {k k' : Kind} (same : k.rank = k'.rank) : k = k' := by
  revert same
  cases k <;> cases k' <;> decide

theorem decimal_digits (n : Nat) :
    decimal n ≠ [] ∧ ∀ c ∈ decimal (n : Int), c.isDigit = true := by
  have nonneg : ¬ (n : Int) < 0 := by omega
  rw [decimal, if_neg nonneg, Int.natAbs_natCast]
  exact ⟨Nat.toDigits_ne_nil, fun c mem => to_digits_digit mem⟩

def Result.cuts (r : Result) : CutsText where
  tcid := r.tcid
  gap := List.replicate (8 - r.tcid.length) ' ' ++ ' ' :: List.replicate (4 - r.tc.length) ' '
  tc := r.tc
  gap' := "  ".toList
  result := r.status
  gap'' := "  ".toList
  tcid_word := r.tcid_word
  gap_blank := by
    constructor
    · simp
    · intro c mem
      simp only [List.mem_append, List.mem_cons, List.mem_replicate] at mem
      rcases mem with ⟨_, rfl⟩ | rfl | ⟨_, rfl⟩ <;> rfl
  tc_digits := decimal_digits r.num
  gap_blank' := word_of_all (by simp) rfl
  result_letters := status_letters r.kind
  gap_blank'' := word_of_all (by simp) rfl

theorem line_before (r : Result) (rest : Str) :
    r.line ++ rest = r.cuts.before (("  ".toList ++ r.mesg) ++ '\n' :: rest) := by
  simp [Result.line, VteTstRes.resultLine, CutsText.before, Result.cuts, padRight, padLeft,
    Result.tc, Result.status, Kind.status]

/-- The key of the test case fits the buffer of `cuts_testcase`. -/
def Result.Fits (r : Result) : Prop := (r.tcid ++ ',' :: r.tc).length < keySize

instance (r : Result) : Decidable r.Fits := inferInstanceAs (Decidable (_ < _))

theorem cuts_tokens (r : Result) :
    tokens isBlank (r.cuts.before []) = [r.tcid, r.tc, r.status, [':']] := by
  have word : ∀ c ∈ r.tcid, isBlank c = false := by
    intro c mem
    cases blank : isBlank c with
    | false => rfl
    | true => cases (r.tcid_word.2 c mem).symm.trans (blank_apart blank).1
  have digits : ∀ c ∈ r.cuts.tc, isBlank c = false :=
    fun c mem => digit_not_blank (r.cuts.tc_digits.2 c mem)
  have letters : ∀ c ∈ r.cuts.result, isBlank c = false :=
    fun c mem => letter_not_blank (r.cuts.result_letters.2 c mem)
  rw [CutsText.before, tokens_blank ⟨r.cuts.tcid_word.1, word⟩ r.cuts.gap_blank,
    tokens_blank ⟨r.cuts.tc_digits.1, digits⟩ r.cuts.gap_blank',
    tokens_blank ⟨r.cuts.result_letters.1, letters⟩ r.cuts.gap_blank'']
  rfl

theorem cuts_info (r : Result) : cutsInfo (r.cuts.before []) =
    if r.Fits then some (r.tcid ++ ',' :: r.tc, r.status) else none := by
  rw [cutsInfo, cuts_tokens]
  rfl

theorem word_no_comma {w : Str} (word : ∀ c ∈ w, isWord c = true) : ',' ∉ w :=
  fun mem => absurd (word _ mem) (by decide)

theorem digits_no_comma {w : Str} (digits : ∀ c ∈ w, c.isDigit = true) : ',' ∉ w :=
  fun mem => absurd (digits _ mem) (by decide)

def Cases.add (cs : Cases) (r : Result) : Cases := upsert r.tcid (addCase r.tc r.status) cs

theorem scan_result (r : Result) (rest : Str) {s : State} {cs : Cases} (start : s.start = .cuts)
    (bol : s.atBol = true) (ctag : s.ctag = some (embed cs)) :
    scan (r.line ++ rest) s =
      if r.Fits then
        scan rest { s with ctag := some (embed (cs.add r)), yylineno := s.yylineno + 1 }
      else none := by
  have tail : '\n' ∉ "  ".toList ++ r.mesg := by
    have single := r.single
    simp [single]
  rw [line_before, scan_cuts_line _ tail rest start bol, ctag]
  by_cases fits : r.Fits
  · have info : cutsInfo (r.cuts.before []) = some (r.tcid ++ ',' :: r.tc, r.status) := by
      rw [cuts_info, if_pos fits]
    rw [if_pos fits, cuts_testcase_embed info rfl
      ⟨r.tcid_word.1, word_no_comma r.tcid_word.2⟩
      ⟨(decimal_digits r.num).1, digits_no_comma (decimal_digits r.num).2⟩]
    rfl
  · have none : cutsTestcase (some (embed cs)) (r.cuts.before []) = none := by
      rw [cutsTestcase, cuts_info, if_neg fits]
      rfl
    rw [if_neg fits, none]
    rfl

theorem scan_results (rs : List Result) : ∀ (s : State) (cs : Cases), s.start = .cuts →
    s.atBol = true → s.ctag = some (embed cs) →
    scan (emitted rs) s =
      if ∀ r ∈ rs, r.Fits then
        some { s with ctag := some (embed (rs.foldl Cases.add cs)), yylineno := s.yylineno + rs.length }
      else none := by
  induction rs with
  | nil =>
    intro s cs _ _ ctag
    simp only [List.not_mem_nil, false_imp_iff, implies_true, if_true, List.foldl_nil, ← ctag]
    rfl
  | cons r rs ih =>
    intro s cs start bol ctag
    rw [emitted, List.flatMap_cons, scan_result r _ start bol ctag]
    by_cases fits : r.Fits
    · rw [if_pos fits, ← emitted]
      rw [ih { s with ctag := some (embed (cs.add r)), yylineno := s.yylineno + 1 } (cs.add r)
        start bol rfl]
      simp only [List.mem_cons, forall_eq_or_imp, fits, true_and, List.foldl_cons, List.length_cons]
      split
      · rw [Nat.add_assoc, Nat.add_comm 1]
      · rfl
    · rw [if_neg fits, if_neg fun all => fits (all r (by simp))]

def cases (rs : List Result) : Cases := rs.foldl Cases.add []

def ofCase (rs : List Result) (tcid tc : Str) : List Result :=
  (rs.filter fun r => r.tcid = tcid).filter fun r => r.tc = tc

section cases
variable (rs : List Result) (tcid tc : Str)

theorem cases_upserts :
    cases rs = upserts (rs.map fun r => (r.tcid, addCase r.tc r.status)) := by
  rw [cases, upserts, List.foldl_map]
  rfl

theorem cases_keys : keys (cases rs) = firsts (rs.map Result.tcid) := by
  rw [cases_upserts, keys_upserts, List.map_map]
  rfl

def numbers : List (Str × Str) :=
  upserts ((rs.filter fun r => r.tcid = tcid).map fun r => (r.tc, merge r.status))

theorem numbers_keys :
    keys (numbers rs tcid) = firsts ((rs.filter fun r => r.tcid = tcid).map Result.tc) := by
  rw [numbers, keys_upserts, List.map_map]
  rfl

theorem add_cases (rs : List Result) :
    rs.foldl (fun sub r => some (addCase r.tc r.status sub)) none =
      if rs = [] then none else some (upserts (rs.map fun r => (r.tc, merge r.status))) := by
  induction rs using List.reverseRecOn with
  | nil => rfl
  | append_singleton rs r ih =>
    have sofar : (if rs = [] then none
        else some (upserts (rs.map fun r => (r.tc, merge r.status)))).getD [] =
        upserts (rs.map fun r => (r.tc, merge r.status)) := by
      split
      · rename_i empty
        rw [empty]
        rfl
      · rfl
    rw [List.foldl_append, ih, List.foldl_cons, List.foldl_nil, addCase, sofar]
    simp [upserts_snoc]

theorem find_cases : find tcid (cases rs) =
    if rs.filter (fun r => r.tcid = tcid) = [] then none else some (numbers rs tcid) := by
  rw [cases_upserts, find_upserts, applied, List.filter_map, List.foldl_map]
  exact add_cases _

theorem merge_unknown {old : Str} (unknown : worst.idxOf old = worst.length) (status : Str) :
    merge status (some old) = status := by
  have bound : worst.idxOf status ≤ worst.length := List.idxOf_le_length
  rw [merge, worstCase, if_neg (by omega)]

theorem merge_last (rs : List Result) :
    rs.foldl (fun status r => some (merge r.status status)) none = rs.getLast?.map Result.status := by
  induction rs using List.reverseRecOn with
  | nil => rfl
  | append_singleton rs r ih =>
    rw [List.foldl_append, ih, List.foldl_cons, List.foldl_nil, List.getLast?_concat, Option.map_some]
    cases rs.getLast? with
    | none => rfl
    | some old =>
      have unknown : worst.idxOf old.status = worst.length := status_unknown old.kind
      rw [Option.map_some, merge_unknown unknown]

theorem find_numbers :
    find tc (numbers rs tcid) = (ofCase rs tcid tc).getLast?.map Result.status := by
  rw [numbers, find_upserts, applied, List.filter_map, List.foldl_map]
  exact merge_last _

end cases

/-- The calls of `test_result` for the cases. -/
def caseVerdicts (cs : Cases) : List Verdict :=
  cs.flatMap fun entry => entry.2.map fun case => ⟨entry.1, case.1, case.2⟩

def tally (t : Tally) (v : Verdict) : Tally where
  verdicts := t.verdicts ++ [v]
  result := worstCase t.result v.result
  tcnum := if atoi v.tc ≠ 0 then t.tcnum + 1 else t.tcnum

theorem tally_case (tcid : Str) (sub : List (Str × Str)) : ∀ t : Tally,
    (mapValues Sym.leaf sub).foldlM (tallyCase tcid) t =
      some ((sub.map fun case => (⟨tcid, case.1, case.2⟩ : Verdict)).foldl tally t) := by
  induction sub with
  | nil => exact fun t => rfl
  | cons case sub ih => exact fun t => ih _

def Reported (tags : Table) (entry : Str × List (Str × Str)) : Prop :=
  entry.1.length < keySize ∧ entry.2 ≠ [] ∧ symGet (some tags) entry.1 = some (.table (mapValues .leaf entry.2))

theorem tally_tcids {tags : Table} (cs : Cases) (reported : ∀ entry ∈ cs, Reported tags entry) :
    ∀ t : Tally, (keys cs).foldlM (tallyTcid tags) t = some ((caseVerdicts cs).foldl tally t) := by
  induction cs with
  | nil => exact fun t => rfl
  | cons entry cs ih =>
    intro t
    obtain ⟨short, some_case, present⟩ := reported entry (by simp)
    obtain ⟨case, sub, whole⟩ := List.exists_cons_of_ne_nil some_case
    have here : tallyTcid tags t entry.1 = some
        ((entry.2.map fun case => (⟨entry.1, case.1, case.2⟩ : Verdict)).foldl tally t) := by
      rw [tallyTcid, if_pos short, present, ← tally_case entry.1 entry.2 t, whole]
      rfl
    have rest := ih (fun e mem => reported e (by simp [mem]))
    rw [caseVerdicts, List.flatMap_cons, List.foldl_append, ← caseVerdicts, ← rest]
    change (tallyTcid tags t entry.1).bind ((keys cs).foldlM (tallyTcid tags)) = _
    rw [here]
    rfl

theorem tally_verdicts (vs : List Verdict) : ∀ t : Tally, (vs.foldl tally t).verdicts = t.verdicts ++ vs := by
  induction vs with
  | nil => simp
  | cons v vs ih => simp [ih, tally]

theorem tally_last (vs : List Verdict) (unknown : ∀ v ∈ vs, worst.idxOf v.result = worst.length)
    (t : Tally) (start : t.result = [] ∨ worst.idxOf t.result = worst.length) :
    (vs.foldl tally t).result = (vs.getLast?.map Verdict.result).getD t.result := by
  induction vs generalizing t with
  | nil => rfl
  | cons v vs ih =>
    have first : worst.idxOf t.result = worst.length := by
      rcases start with empty | known
      · rw [empty]
        decide
      · exact known
    have replaced : (tally t v).result = v.result := merge_unknown first v.result
    have here := unknown v (by simp)
    rw [List.foldl_cons, ih (fun w mem => unknown w (by simp [mem])) (tally t v)
      (Or.inr (by rw [replaced]; exact here)), replaced]
    cases vs with
    | nil => rfl
    | cons w ws => simp [List.getLast?_cons]

def keysName : Str := "_keys".toList

/-- The report on a tag whose output consists of the results: the scanner has entered the CUTS block
    with an empty table, and the keywords are added at the end of the test. -/
def report (s : State) (keys : Table) (analysis : Str) (rs : List Result) :
    Option (List Verdict) := do
  let s ← scan (emitted rs) { s with start := .cuts, atBol := true, ctag := some [] }
  let ctag ← put s.ctag keysName (.table keys) false
  cutsReport (ctag.getD []) analysis

def tagTable (cs : Cases) (keys : Table) : Table :=
  if (find keysName (embed cs)).isSome then embed cs else embed cs ++ [(keysName, .table keys)]

theorem put_keys (cs : Cases) (keys : Table) :
    put (some (embed cs)) keysName (.table keys) false = some (some (tagTable cs keys)) := by
  have path : components keysName = [keysName] := by decide
  simp only [put, symPut, path, List.cons_ne_nil, false_and, if_false, putKeys, tagTable]
  cases find keysName (embed cs) with
  | none => rfl
  | some old => rfl

/-- The cases that `cuts_report` looks at. -/
def visible (cs : Cases) : Cases := cs.filter fun entry => entry.1 ≠ keysName

theorem tcid_list (cs : Cases) (keys : Table) :
    tcidList (tagTable cs keys) = Assoc.keys (visible cs) := by
  have skipped : (cs.map Prod.fst).filter (fun tcid => decide (tcid ≠ keysName)) = (visible cs).map Prod.fst := by
    rw [visible, List.filter_map]
    rfl
  rw [tcidList, tagTable]
  split
  · rw [embed, keys_map]
    exact skipped
  · rw [Assoc.keys, List.map_append, List.filter_append, ← Assoc.keys, embed, keys_map]
    have none : (List.map Prod.fst [(keysName, Sym.table keys)]).filter
        (fun tcid => decide (tcid ≠ "_keys".toList)) = [] := by simp [keysName]
    rw [none, List.append_nil]
    exact skipped

theorem get_tag_table {cs : Cases} {tcid : Str} {sub : List (Str × Str)}
    (found : find tcid cs = some sub) (keys : Table) :
    find tcid (tagTable cs keys) = some (.table (mapValues .leaf sub)) := by
  have inside : find tcid (embed cs) = some (.table (mapValues .leaf sub)) := by
    rw [embed, find_map, found]
    rfl
  rw [tagTable]
  split
  · exact inside
  · rw [find_append, inside]
    rfl

theorem reported_entry {cs : Cases} {tcid : Str} {sub : List (Str × Str)}
    (tcid_word : tcid ≠ [] ∧ ',' ∉ tcid) (short : tcid.length < keySize)
    (found : find tcid cs = some sub) (some_case : sub ≠ []) (keys : Table) :
    Reported (tagTable cs keys) (tcid, sub) := by
  refine ⟨short, some_case, ?_⟩
  simp only [symGet, components_single tcid_word.1 tcid_word.2, List.cons_ne_nil, if_false, getKeys,
    get_tag_table found, if_true, Option.getD_some]

def conclusion (analysis : Str) (t : Tally) : List Verdict :=
  ⟨"*".toList, "*".toList, t.result⟩ ::
    if tcCount analysis ≠ 0 ∧ tcCount analysis ≠ t.tcnum then
      [⟨"-".toList, "-".toList, "TC count wrong".toList⟩] else []

theorem cuts_report_eq {cs : Cases} {keys : Table}
    (reported : ∀ entry ∈ visible cs, Reported (tagTable cs keys) entry) (analysis : Str) :
    cutsReport (tagTable cs keys) analysis = some (caseVerdicts (visible cs) ++
        conclusion analysis ((caseVerdicts (visible cs)).foldl tally ⟨[], [], 0⟩)) := by
  have tallied := tally_tcids (visible cs) reported ⟨[], [], 0⟩
  rw [← tcid_list _ keys] at tallied
  have some_entry : tagTable cs keys ≠ [] := by
    rw [tagTable]
    split
    · rename_i found
      intro empty
      rw [empty] at found
      cases found
    · simp
  obtain ⟨entry, entries, whole⟩ := List.exists_cons_of_ne_nil some_entry
  have unfolded : cutsReport (tagTable cs keys) analysis =
      ((tcidList (tagTable cs keys)).foldlM (tallyTcid (tagTable cs keys)) ⟨[], [], 0⟩).bind
        fun t => some (t.verdicts ++ conclusion analysis t) := by
    rw [whole]
    rfl
  rw [unfolded, tallied, Option.bind_some, tally_verdicts, List.nil_append]

section report
variable (rs : List Result)

theorem case_of_result {tcid : Str} {sub : List (Str × Str)} (mem : (tcid, sub) ∈ cases rs) :
    sub = numbers rs tcid ∧ ∃ r ∈ rs, r.tcid = tcid := by
  have nodup : (keys (cases rs)).Nodup := by
    rw [cases_keys]
    exact firsts_nodup _
  have found := (mem_iff_find nodup).mp mem
  rw [find_cases] at found
  split at found
  · cases found
  · rename_i some_result
    obtain ⟨r, here⟩ := List.exists_mem_of_ne_nil _ some_result
    obtain ⟨mem, same⟩ := List.mem_filter.mp here
    exact ⟨(Option.some.inj found).symm, r, mem, by simpa using same⟩

theorem number_of_result {tcid tc status : Str} (mem : (tc, status) ∈ numbers rs tcid) :
    (ofCase rs tcid tc).getLast?.map Result.status = some status := by
  have nodup : (keys (numbers rs tcid)).Nodup := by
    rw [numbers_keys]
    exact firsts_nodup _
  rw [← find_numbers]
  exact (mem_iff_find nodup).mp mem

theorem mem_of_case {tcid tc : Str} {r : Result} :
    r ∈ ofCase rs tcid tc ↔ r ∈ rs ∧ r.tcid = tcid ∧ r.tc = tc := by
  simp only [ofCase, List.mem_filter, decide_eq_true_eq, and_assoc]

theorem verdict_last {v : Verdict} (mem : v ∈ caseVerdicts (visible (cases rs))) :
    v.tcid ≠ keysName ∧ ∃ r, (ofCase rs v.tcid v.tc).getLast? = some r ∧ v.result = r.status := by
  obtain ⟨entry, inside, here⟩ := List.mem_flatMap.mp mem
  obtain ⟨case, number, rfl⟩ := List.mem_map.mp here
  obtain ⟨present, other⟩ := List.mem_filter.mp inside
  obtain ⟨tcid, sub⟩ := entry
  obtain ⟨rfl, _⟩ := case_of_result rs present
  obtain ⟨r, last, status⟩ := Option.map_eq_some_iff.mp (number_of_result rs number)
  exact ⟨by simpa using other, r, last, status.symm⟩

theorem result_verdict {r : Result} (mem : r ∈ rs) (other : r.tcid ≠ keysName) :
    ∃ v ∈ caseVerdicts (visible (cases rs)), v.tcid = r.tcid ∧ v.tc = r.tc := by
  have some_result : rs.filter (fun r' => r'.tcid = r.tcid) ≠ [] := by
    intro none
    have here : r ∈ rs.filter fun r' => r'.tcid = r.tcid := List.mem_filter.mpr ⟨mem, by simp⟩
    rw [none] at here
    cases here
  have nodup : (keys (cases rs)).Nodup := by
    rw [cases_keys]
    exact firsts_nodup _
  have nodupNumbers : (keys (numbers rs r.tcid)).Nodup := by
    rw [numbers_keys]
    exact firsts_nodup _
  have entry : (r.tcid, numbers rs r.tcid) ∈ cases rs := by
    rw [mem_iff_find nodup, find_cases, if_neg some_result]
  have number : r.tc ∈ keys (numbers rs r.tcid) := by
    rw [numbers_keys, mem_firsts]
    exact List.mem_map.mpr ⟨r, List.mem_filter.mpr ⟨mem, by simp⟩, rfl⟩
  obtain ⟨status, found⟩ := find_some_iff.mpr number
  refine ⟨⟨r.tcid, r.tc, status⟩, ?_, rfl, rfl⟩
  refine List.mem_flatMap.mpr ⟨_, List.mem_filter.mpr ⟨entry, by simpa using other⟩, ?_⟩
  exact List.mem_map.mpr ⟨(r.tc, status), (mem_iff_find nodupNumbers).mpr found, rfl⟩

theorem cases_reported (fits : ∀ r ∈ rs, r.Fits) (keys : Table) :
    ∀ entry ∈ visible (cases rs), Reported (tagTable (cases rs) keys) entry := by
  rintro ⟨tcid, sub⟩ mem
  have present := (List.mem_filter.mp mem).1
  have nodup : (Assoc.keys (cases rs)).Nodup := by
    rw [cases_keys]
    exact firsts_nodup _
  have found := (mem_iff_find nodup).mp present
  obtain ⟨whole, r, inside, same⟩ := case_of_result rs present
  have word : tcid ≠ [] ∧ ',' ∉ tcid := by
    rw [← same]
    exact ⟨r.tcid_word.1, word_no_comma r.tcid_word.2⟩
  have short : tcid.length < keySize := by
    have key := fits r inside
    rw [Result.Fits, List.length_append, same] at key
    exact Nat.lt_of_le_of_lt (Nat.le_add_right _ _) key
  have some_case : sub ≠ [] := by
    intro nothing
    have number : r.tc ∈ Assoc.keys (numbers rs tcid) := by
      rw [numbers_keys, mem_firsts]
      exact List.mem_map.mpr ⟨r, List.mem_filter.mpr ⟨inside, by simp [same]⟩, rfl⟩
    rw [← whole, nothing] at number
    cases number
  exact reported_entry word short found some_case keys

theorem verdicts_unknown : ∀ v ∈ caseVerdicts (visible (cases rs)), worst.idxOf v.result = worst.length := by
  intro v mem
  obtain ⟨_, r, _, status⟩ := verdict_last rs mem
  rw [status]
  exact status_unknown r.kind

def overall (vs : List Verdict) : Str := (vs.getLast?.map Verdict.result).getD []

theorem report_eq (s : State) (keys : Table) (analysis : Str) :
    (∀ r ∈ rs, r.Fits) → ∃ wrong : List Verdict,
      (wrong = [] ∨ wrong = [⟨"-".toList, "-".toList, "TC count wrong".toList⟩]) ∧
      report s keys analysis rs = some (caseVerdicts (visible (cases rs)) ++
        ⟨"*".toList, "*".toList, overall (caseVerdicts (visible (cases rs)))⟩ :: wrong) := by
  intro fits
  have scanned := scan_results rs { s with start := .cuts, atBol := true, ctag := some [] } []
    rfl rfl rfl
  rw [if_pos fits] at scanned
  have result := tally_last (caseVerdicts (visible (cases rs))) (verdicts_unknown rs) ⟨[], [], 0⟩
    (Or.inl rfl)
  have reported := cuts_report_eq (cases_reported rs fits keys) analysis
  rw [conclusion, result] at reported
  have same : report s keys analysis rs = cutsReport (tagTable (cases rs) keys) analysis := by
    rw [report, scanned, Option.bind_eq_bind, Option.bind_some]
    change (put (some (embed (cases rs))) keysName (.table keys) false).bind _ = _
    rw [put_keys]
    rfl
  exact ⟨_, by split <;> simp, same.trans reported⟩

theorem report_none (s : State) (keys : Table) (analysis : Str) (long : ¬ ∀ r ∈ rs, r.Fits) :
    report s keys analysis rs = none := by
  have scanned := scan_results rs { s with start := .cuts, atBol := true, ctag := some [] } []
    rfl rfl rfl
  rw [if_neg long] at scanned
  rw [report, scanned]
  rfl

end report

def IsWorst (rs : List Result) (k : Kind) : Prop :=
  (∃ r ∈ rs, r.kind = k) ∧ ∀ r ∈ rs, k.rank ≤ r.kind.rank

/-- Every case has a verdict, each verdict on a case is the worst of its results, and the verdict on
    the whole tag is the worst of all. -/
structure Agrees (rs : List Result) (vs : List Verdict) : Prop where
  reported : ∀ r ∈ rs, ∃ v ∈ vs, v.tcid = r.tcid ∧ v.tc = r.tc
  each : ∀ v ∈ vs, ∀ k, IsWorst (ofCase rs v.tcid v.tc) k → v.result = k.status
  whole : ∃ v ∈ vs, v.tcid = "*".toList ∧ ∀ k, IsWorst rs k → v.result = k.status

def lastCase (rs : List Result) : List Result :=
  match (firsts (rs.map Result.tcid)).getLast? with
  | none => []
  | some tcid =>
    match (firsts ((rs.filter fun r => r.tcid = tcid).map Result.tc)).getLast? with
    | none => []
    | some tc => ofCase rs tcid tc

/-- No result after the worst one is milder: the last result of each case is the worst of the case,
    and that of the last case the worst of all. The keys fit their buffer, and no TCID is the name
    under which the keywords are kept. -/
structure WorstLast (rs : List Result) : Prop where
  fits : ∀ r ∈ rs, r.Fits
  name : ∀ r ∈ rs, r.tcid ≠ keysName
  each : ∀ r ∈ rs, ∀ last, (ofCase rs r.tcid r.tc).getLast? = some last →
    ∀ r' ∈ ofCase rs r.tcid r.tc, last.kind.rank ≤ r'.kind.rank
  whole : ∀ last, (lastCase rs).getLast? = some last → ∀ r ∈ rs, last.kind.rank ≤ r.kind.rank

section agrees
variable (rs : List Result)

theorem exists_worst {rs : List Result} (some_result : rs ≠ []) : ∃ k, IsWorst rs k := by
  have least : ∃ r ∈ rs, ∀ r' ∈ rs, r.kind.rank ≤ r'.kind.rank := by
    induction rs with
    | nil => exact absurd rfl some_result
    | cons r rs ih =>
      by_cases empty : rs = []
      · exact ⟨r, by simp, by simp [empty]⟩
      · obtain ⟨r', mem, bound⟩ := ih empty
        by_cases milder : r.kind.rank ≤ r'.kind.rank
        · refine ⟨r, by simp, ?_⟩
          intro r'' mem''
          rcases List.mem_cons.mp mem'' with rfl | mem''
          · exact Nat.le_refl _
          · exact Nat.le_trans milder (bound r'' mem'')
        · refine ⟨r', by simp [mem], ?_⟩
          intro r'' mem''
          rcases List.mem_cons.mp mem'' with rfl | mem''
          · omega
          · exact bound r'' mem''
  obtain ⟨r, mem, bound⟩ := least
  exact ⟨r.kind, ⟨r, mem, rfl⟩, bound⟩

theorem status_worst {rs : List Result} {last : Result} (mem : last ∈ rs) :
    (∀ k, IsWorst rs k → last.status = k.status) ↔ ∀ r ∈ rs, last.kind.rank ≤ r.kind.rank := by
  constructor
  · intro worst
    obtain ⟨k, least⟩ := exists_worst (List.ne_nil_of_mem mem)
    rw [status_injective (worst k least)]
    exact least.2
  · rintro bound k ⟨⟨r, inside, rfl⟩, least⟩
    have same := rank_injective (Nat.le_antisymm (bound r inside) (least last mem))
    rw [Result.status, same]

theorem visible_all (other : ∀ r ∈ rs, r.tcid ≠ keysName) : visible (cases rs) = cases rs := by
  apply List.filter_eq_self.mpr
  rintro ⟨tcid, sub⟩ mem
  obtain ⟨_, r, inside, same⟩ := case_of_result rs mem
  simpa [← same] using other r inside

theorem overall_last : overall (caseVerdicts (cases rs)) = ((lastCase rs).getLast?.map Result.status).getD [] := by
  have keysLast : (firsts (rs.map Result.tcid)).getLast? = (cases rs).getLast?.map Prod.fst := by
    rw [← cases_keys, keys, List.getLast?_map]
  rw [lastCase, keysLast]
  cases last : (cases rs).getLast? with
  | none =>
    rw [List.getLast?_eq_none_iff] at last
    rw [last]
    rfl
  | some entry =>
    obtain ⟨tcid, sub⟩ := entry
    obtain ⟨rfl, r, mem, here⟩ := case_of_result rs (List.mem_of_getLast? last)
    have numbersLast : (firsts ((rs.filter fun r => r.tcid = tcid).map Result.tc)).getLast? =
        (numbers rs tcid).getLast?.map Prod.fst := by
      rw [← numbers_keys, keys, List.getLast?_map]
    obtain ⟨before, whole⟩ := List.getLast?_eq_some_iff.mp last
    have verdicts : (caseVerdicts (cases rs)).getLast? =
        ((numbers rs tcid).getLast?.map fun case => (⟨tcid, case.1, case.2⟩ : Verdict)).or
          (caseVerdicts before).getLast? := by
      rw [whole, caseVerdicts, List.flatMap_append, List.getLast?_append]
      simp [List.getLast?_map, caseVerdicts]
    simp only [Option.map_some, numbersLast]
    cases number : (numbers rs tcid).getLast? with
    | none =>
      rw [List.getLast?_eq_none_iff] at number
      have mem_number : r.tc ∈ keys (numbers rs tcid) := by
        rw [numbers_keys, mem_firsts]
        exact List.mem_map.mpr ⟨r, List.mem_filter.mpr ⟨mem, by simp [here]⟩, rfl⟩
      rw [number] at mem_number
      cases mem_number
    | some case =>
      obtain ⟨tc, status⟩ := case
      have nodup : (keys (numbers rs tcid)).Nodup := by
        rw [numbers_keys]
        exact firsts_nodup _
      have found := find_last nodup number
      rw [find_numbers] at found
      simp [overall, verdicts, number, found]

theorem verdict_word {v : Verdict} (mem : v ∈ caseVerdicts (visible (cases rs))) :
    ∃ r ∈ rs, r.tcid = v.tcid ∧ r.tc = v.tc := by
  obtain ⟨_, r, last, _⟩ := verdict_last rs mem
  exact ⟨r, (mem_of_case rs).mp (List.mem_of_getLast? last)⟩

theorem word_not_star {r : Result} : r.tcid ≠ "*".toList := by
  intro same
  have word := r.tcid_word.2 '*' (by simp [same])
  exact absurd word (by decide)

theorem number_not_sign {r : Result} {c : Char} (sign : c.isDigit = false) : r.tc ≠ [c] := by
  intro same
  have mem : c ∈ r.tc := by
    rw [same]
    simp
  have digit := (decimal_digits r.num).2 c mem
  exact absurd (digit.symm.trans sign) (by decide)

theorem sign_no_case {c : Char} (sign : c.isDigit = false) (tcid : Str) : ofCase rs tcid [c] = [] := by
  rw [List.eq_nil_iff_forall_not_mem]
  intro r mem
  exact number_not_sign sign ((mem_of_case rs).mp mem).2.2

theorem last_case_mem {last : Result} (here : (lastCase rs).getLast? = some last) : last ∈ rs := by
  have mem := List.mem_of_getLast? here
  unfold lastCase at mem
  split at mem
  · cases mem
  · split at mem
    · cases mem
    · exact ((mem_of_case rs).mp mem).1

theorem last_case_some (some_result : rs ≠ []) : ∃ last, (lastCase rs).getLast? = some last := by
  cases here : (lastCase rs).getLast? with
  | some last => exact ⟨last, rfl⟩
  | none =>
    have tcids : rs.map Result.tcid ≠ [] := by simpa using some_result
    obtain ⟨tcid, tcidLast⟩ := Option.ne_none_iff_exists'.mp
      (mt List.getLast?_eq_none_iff.mp (mt firsts_eq_nil.mp tcids))
    have tcidMem : tcid ∈ rs.map Result.tcid := mem_firsts.mp (List.mem_of_getLast? tcidLast)
    obtain ⟨r, mem, rfl⟩ := List.mem_map.mp tcidMem
    have tcs : (rs.filter fun r' => r'.tcid = r.tcid).map Result.tc ≠ [] :=
      List.ne_nil_of_mem (List.mem_map.mpr ⟨r, List.mem_filter.mpr ⟨mem, by simp⟩, rfl⟩)
    obtain ⟨tc, tcLast⟩ := Option.ne_none_iff_exists'.mp
      (mt List.getLast?_eq_none_iff.mp (mt firsts_eq_nil.mp tcs))
    have tcMem := mem_firsts.mp (List.mem_of_getLast? tcLast)
    obtain ⟨r', mem', rfl⟩ := List.mem_map.mp tcMem
    obtain ⟨inside, same⟩ := List.mem_filter.mp mem'
    have member : r' ∈ lastCase rs := by
      simp only [lastCase, tcidLast, tcLast]
      exact (mem_of_case rs).mpr ⟨inside, by simpa using same, rfl⟩
    rw [List.getLast?_eq_none_iff] at here
    rw [here] at member
    cases member

theorem tag_lines {status : Str} {wrong : List Verdict} {v : Verdict}
    (only : wrong = [] ∨ wrong = [⟨"-".toList, "-".toList, "TC count wrong".toList⟩])
    (mem : v ∈ ⟨"*".toList, "*".toList, status⟩ :: wrong) :
    (∃ c : Char, c.isDigit = false ∧ v.tc = [c]) ∧ (v.tcid = "*".toList → v.result = status) := by
  rcases List.mem_cons.mp mem with rfl | mem
  · exact ⟨⟨'*', rfl, rfl⟩, fun _ => rfl⟩
  · rcases only with rfl | rfl
    · cases mem
    · obtain rfl := List.mem_singleton.mp mem
      exact ⟨⟨'-', rfl, rfl⟩, fun star => absurd star (by decide)⟩

section printed
variable {rs} {status : Str} {wrong : List Verdict}
  (only : wrong = [] ∨ wrong = [⟨"-".toList, "-".toList, "TC count wrong".toList⟩])
include only

theorem agrees_among (agrees : Agrees rs (caseVerdicts (visible (cases rs)) ++
      ⟨"*".toList, "*".toList, status⟩ :: wrong)) {r : Result} (mem : r ∈ rs) :
    ∃ v ∈ caseVerdicts (visible (cases rs)), v.tcid = r.tcid ∧ v.tc = r.tc := by
  obtain ⟨v, inside, tcid, tc⟩ := agrees.reported r mem
  rcases List.mem_append.mp inside with inside | inside
  · exact ⟨v, inside, tcid, tc⟩
  · obtain ⟨⟨c, sign, line⟩, _⟩ := tag_lines only inside
    exact absurd (tc.symm.trans line) (number_not_sign sign)

theorem agrees_name (agrees : Agrees rs (caseVerdicts (visible (cases rs)) ++
      ⟨"*".toList, "*".toList, status⟩ :: wrong)) {r : Result} (mem : r ∈ rs) :
    r.tcid ≠ keysName := by
  obtain ⟨v, inside, tcid, _⟩ := agrees_among only agrees mem
  rw [← tcid]
  exact (verdict_last rs inside).1

theorem agrees_each (agrees : Agrees rs (caseVerdicts (visible (cases rs)) ++
      ⟨"*".toList, "*".toList, status⟩ :: wrong)) {r last : Result} (mem : r ∈ rs)
    (here : (ofCase rs r.tcid r.tc).getLast? = some last) :
    ∀ r' ∈ ofCase rs r.tcid r.tc, last.kind.rank ≤ r'.kind.rank := by
  obtain ⟨v, inside, tcid, tc⟩ := agrees_among only agrees mem
  obtain ⟨_, last', here', result⟩ := verdict_last rs inside
  rw [tcid, tc] at here'
  obtain rfl : last' = last := Option.some.inj (here'.symm.trans here)
  apply (status_worst (List.mem_of_getLast? here)).mp
  intro k worst
  rw [← result]
  exact agrees.each v (List.mem_append_left _ inside) k (by rwa [tcid, tc])

theorem agrees_whole (agrees : Agrees rs (caseVerdicts (visible (cases rs)) ++
      ⟨"*".toList, "*".toList, status⟩ :: wrong)) {k : Kind} (worst : IsWorst rs k) :
    status = k.status := by
  obtain ⟨v, inside, star, result⟩ := agrees.whole
  rcases List.mem_append.mp inside with inside | inside
  · obtain ⟨r, _, tcid, _⟩ := verdict_word rs inside
    exact absurd (tcid.trans star) word_not_star
  · rw [← (tag_lines only inside).2 star]
    exact result k worst

theorem worst_last_agrees (right : WorstLast rs) (whole : ∀ k, IsWorst rs k → status = k.status) :
    Agrees rs (caseVerdicts (visible (cases rs)) ++ ⟨"*".toList, "*".toList, status⟩ :: wrong) := by
  refine ⟨?_, ?_, ?_⟩
  · intro r mem
    obtain ⟨v, inside, same⟩ := result_verdict rs mem (right.name r mem)
    exact ⟨v, List.mem_append_left _ inside, same⟩
  · intro v inside k worst
    rcases List.mem_append.mp inside with inside | inside
    · obtain ⟨_, last, here, result⟩ := verdict_last rs inside
      obtain ⟨r, mem, tcid, tc⟩ := verdict_word rs inside
      rw [← tcid, ← tc] at here worst
      rw [result]
      exact (status_worst (List.mem_of_getLast? here)).mpr (right.each r mem last here) k worst
    · obtain ⟨⟨c, sign, line⟩, _⟩ := tag_lines only inside
      obtain ⟨⟨r, mem, _⟩, _⟩ := worst
      rw [line, sign_no_case rs sign] at mem
      cases mem
  · exact ⟨_, List.mem_append_right _ (List.mem_cons_self ..), rfl, whole⟩

end printed

/-- The verdicts are the worst of the reported results exactly when the worst results come last. -/
theorem verdicts_worst_iff (s : State) (keys : Table) (analysis : Str) (rs : List Result) :
    (∃ vs, report s keys analysis rs = some vs ∧ Agrees rs vs) ↔ WorstLast rs := by
  constructor
  · rintro ⟨vs, reported, agrees⟩
    have fits : ∀ r ∈ rs, r.Fits := by
      by_contra long
      rw [report_none rs s keys analysis long] at reported
      cases reported
    obtain ⟨wrong, only, shown⟩ := report_eq rs s keys analysis fits
    obtain rfl := Option.some.inj (shown.symm.trans reported)
    have name : ∀ r ∈ rs, r.tcid ≠ keysName := fun r mem => agrees_name only agrees mem
    refine ⟨fits, name, fun r mem last here => agrees_each only agrees mem here, ?_⟩
    intro last here
    apply (status_worst (last_case_mem rs here)).mp
    intro k worst
    have whole := agrees_whole only agrees worst
    rw [visible_all rs name, overall_last, here] at whole
    exact whole
  · intro right
    obtain ⟨wrong, only, shown⟩ := report_eq rs s keys analysis right.fits
    refine ⟨_, shown, worst_last_agrees only right ?_⟩
    intro k worst
    obtain ⟨⟨r, mem, _⟩, _⟩ := id worst
    obtain ⟨last, here⟩ := last_case_some rs (List.ne_nil_of_mem mem)
    rw [visible_all rs right.name, overall_last, here]
    exact (status_worst (last_case_mem rs here)).mpr (right.whole last here) k worst

end agrees

def failed : Result :=
  ⟨"t".toList, 1, .fail, "no".toList, word_of_all (by simp) rfl, by simp⟩

def passed : Result :=
  ⟨"t".toList, 2, .pass, "ok".toList, word_of_all (by simp) rfl, by simp⟩

/-- A failure is masked by a later pass: the whole tag is reported as passed. -/
theorem later_pass_masks_failure :
    report init [] "cuts".toList [failed, passed] =
      some [⟨"t".toList, "1".toList, "TFAIL".toList⟩, ⟨"t".toList, "2".toList, "TPASS".toList⟩,
        ⟨"*".toList, "*".toList, "TPASS".toList⟩] ∧
    ¬ ∃ vs, report init [] "cuts".toList [failed, passed] = some vs ∧ Agrees [failed, passed] vs := by
  have shown : report init [] "cuts".toList [failed, passed] =
      some [⟨"t".toList, "1".toList, "TFAIL".toList⟩, ⟨"t".toList, "2".toList, "TPASS".toList⟩,
        ⟨"*".toList, "*".toList, "TPASS".toList⟩] := by
    decide +kernel
  refine ⟨shown, ?_⟩
  rintro ⟨vs, reported, agrees⟩
  obtain rfl := Option.some.inj (shown.symm.trans reported)
  obtain ⟨v, mem, star, worst⟩ := agrees.whole
  have fail : IsWorst [failed, passed] .fail := ⟨⟨failed, by simp, rfl⟩, fun _ _ => Nat.zero_le _⟩
  have status := worst .fail fail
  simp only [List.mem_cons, List.not_mem_nil, or_false] at mem
  rcases mem with rfl | rfl | rfl
  · exact absurd star (by decide)
  · exact absurd star (by decide)
  · exact absurd status (by decide)

end VteVerdicts
