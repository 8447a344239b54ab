import Vte.Pan.ScanLines

/-!
What the scanner reads back of the block that pan writes for a test. No rule stores an empty value,
and pan writes the contacts as an empty string.
-/
namespace VteRoundTrip
open Text Assoc Lexer VteSymbol VteTagReport VteScan

/-- The fields of a running test that `write_test_start` and `write_test_end` read. -/
structure Running where
  name : Str
  mystime : Int
  cmdline : Str

/-- The other arguments of `write_test_end`, with the differences of the process times. -/
structure Ending where
  initStatus : Str
  exitTime : Int
  termType : Str
  statLoc : BitVec 32
  termId : Int
  cutime : Int
  cstime : Int

def writeTestStart (running : Running) : Str :=
  marker "test_start".toList ++ "\ntag=".toList ++ running.name ++ " stime=".toList ++
    decimal running.mystime ++ "\ncmdline=\"".toList ++ running.cmdline ++
    "\"\ncontacts=\"".toList ++ [] ++ "\"\nanalysis=".toList ++ "exit".toList ++ ['\n'] ++
    marker "test_output".toList ++ ['\n']

def corefile (statLoc : BitVec 32) : Str :=
  if statLoc &&& 0o200 ≠ 0 then "yes".toList else "no".toList

def writeTestEnd (running : Running) (ending : Ending) : Str :=
  marker "execution_status".toList ++ "\ninitiation_status=\"".toList ++ ending.initStatus ++
    "\"\nduration=".toList ++ decimal (ending.exitTime - running.mystime) ++
    " termination_type=".toList ++ ending.termType ++ " termination_id=".toList ++
    decimal ending.termId ++ " corefile=".toList ++ corefile ending.statLoc ++
    "\ncutime=".toList ++ decimal ending.cutime ++ " cstime=".toList ++ decimal ending.cstime ++
    ['\n'] ++ marker "test_end".toList ++ ['\n']

def block (running : Running) (ending : Ending) (output : Str) : Str :=
  writeTestStart running ++ (output ++ writeTestEnd running ending)

def written (running : Running) (ending : Ending) : List (Str × Str) :=
  [("tag".toList, running.name), ("stime".toList, decimal running.mystime),
    ("cmdline".toList, running.cmdline), ("contacts".toList, []),
    ("analysis".toList, "exit".toList), ("initiation_status".toList, ending.initStatus),
    ("duration".toList, decimal (ending.exitTime - running.mystime)),
    ("termination_type".toList, ending.termType), ("termination_id".toList, decimal ending.termId),
    ("corefile".toList, corefile ending.statLoc)]

def readBack (text tag name : Str) : Option Str := do
  let s ← scan text init
  match ← symGet (some s.alltags) (tag ++ ",_keys,".toList ++ name) with
  | .leaf data => some data
  | _ => none

def RoundTrips (running : Running) (ending : Ending) (output : Str) : Prop :=
  ∀ field ∈ written running ending, readBack (block running ending output) running.name field.1 = some field.2

inductive Filled : Sym → Prop where
  | null : Filled .null
  | leaf (data : Str) (some_data : data ≠ []) : Filled (.leaf data)
  | table (entries : List (Str × Sym)) (filled : ∀ entry ∈ entries, Filled entry.2) :
    Filled (.table entries)

def FilledTable (entries : Table) : Prop := ∀ entry ∈ entries, Filled entry.2

section table
variable {entries : Table} {data : Sym}

theorem chain_filled (filled : Filled data) (ks : List Str) : Filled (chain data ks) := by
  induction ks with
  | nil => exact filled
  | cons k ks ih =>
    refine .table _ ?_
    intro entry mem
    obtain rfl := List.mem_singleton.mp mem
    exact ih

theorem put_keys_filled (filled : Filled data) (replace : Bool) (ks : List Str) :
    ∀ entries, FilledTable entries → FilledTable (putKeys data replace ks entries).1 := by
  induction ks with
  | nil => exact fun entries before => before
  | cons k ks ih =>
    intro entries before
    rw [putKeys]
    split
    · intro entry mem
      rcases List.mem_append.mp mem with mem | mem
      · exact before entry mem
      · obtain rfl := List.mem_singleton.mp mem
        exact chain_filled filled ks
    · rename_i found here
      split
      · split
        · intro entry mem
          rcases mem_of_upsert mem with mem | same
          · exact before entry mem
          · rw [same]
            exact filled
        · exact before
      · split
        · rename_i sub
          have below : FilledTable sub := by
            cases before _ (mem_of_find here) with
            | table _ below => exact below
          intro entry mem
          rcases mem_of_upsert mem with mem | same
          · exact before entry mem
          · rw [same]
            exact .table _ (ih sub below)
        · exact before

theorem get_keys_filled (ks : List Str) : ∀ entries found, FilledTable entries →
    getKeys ks entries = some found → Filled found := by
  induction ks with
  | nil =>
    intro entries found _ here
    cases here
  | cons k ks ih =>
    intro entries found before here
    rw [getKeys] at here
    split at here
    · cases here
    · rename_i next there
      have filled := before _ (mem_of_find there)
      split at here
      · obtain rfl := Option.some.inj here
        exact filled
      · split at here
        · rename_i sub
          cases filled with
          | table _ below => exact ih sub found below here
        · cases here

end table

def FilledSym (sym : Option Table) : Prop := ∀ entries ∈ sym, FilledTable entries

theorem null_filled : FilledSym none := fun _ mem => nomatch mem

theorem get_filled {sym : Option Table} {key : Str} {found : Sym} (filled : FilledSym sym)
    (here : symGet sym key = some found) : Filled found := by
  cases sym with
  | none =>
    obtain rfl := Option.some.inj here
    exact .null
  | some entries =>
    rw [symGet] at here
    split at here
    · cases here
    · obtain rfl := Option.some.inj here
      cases there : getKeys (components key) entries with
      | none => exact .null
      | some found => exact get_keys_filled _ _ _ (filled entries rfl) there

theorem put_filled {sym sym' : Option Table} {key : Str} {data : Sym} {replace : Bool}
    (filled : FilledSym sym) (some_data : Filled data)
    (result : put sym key data replace = some sym') : FilledSym sym' := by
  obtain ⟨⟨after, status⟩, puts, rfl⟩ := Option.map_eq_some_iff.mp result
  cases sym with
  | none =>
    obtain ⟨rfl, _⟩ : none = after ∧ Status.inval = status := by simpa [symPut] using puts
    exact filled
  | some entries =>
    rw [symPut] at puts
    split at puts
    · cases puts
    · cases puts
      intro entries' mem
      obtain rfl := Option.some.inj mem
      exact put_keys_filled some_data replace _ _ (filled entries rfl)

theorem leaf_filled {data : Str} (filled : Filled (.leaf data)) : data ≠ [] := by
  cases filled with
  | leaf _ some_data => exact some_data

theorem getD_filled {sym : Option Table} (filled : FilledSym sym) : FilledTable (sym.getD []) := by
  cases sym with
  | none => exact fun entry mem => nomatch mem
  | some entries => exact filled entries rfl

theorem quoted_matched {text : Str} {n : Nat} (matched : matchLength quotedPattern text = some n) :
    ∃ key cont, text.take n = key ++ '=' :: '"' :: (cont ++ ['"']) ∧ cont ≠ [] ∧ ∀ c ∈ key, isKey c = true := by
  obtain ⟨key, rest, m, rfl, _, word, afterKey, rfl⟩ := many_matched matched
  obtain ⟨c, rest, m, rfl, equals, afterEquals, rfl⟩ := one_matched afterKey
  obtain ⟨d, rest, m, rfl, quote, afterQuote, rfl⟩ := one_matched afterEquals
  obtain ⟨cont, rest, m, rfl, some_cont, _, afterCont, rfl⟩ := many_matched afterQuote
  obtain ⟨e, rest, m, rfl, quote', ended, rfl⟩ := one_matched afterCont
  obtain rfl : 0 = m := Option.some.inj ended
  rw [beq_iff_eq] at equals quote quote'
  subst equals quote quote'
  refine ⟨key, cont, ?_, some_cont, word⟩
  have whole : key ++ '=' :: '"' :: (cont ++ '"' :: rest) = (key ++ '=' :: '"' :: (cont ++ ['"'])) ++ rest := by simp
  have length : key.length + (cont.length + (0 + 1) + 1 + 1) = (key ++ '=' :: '"' :: (cont ++ ['"'])).length := by
    simp
  rw [whole, length, List.take_left]

theorem bare_matched {text : Str} {n : Nat} (matched : matchLength barePattern text = some n) :
    ∃ key cont, text.take n = key ++ '=' :: cont ∧ cont ≠ [] ∧ ∀ c ∈ key, isKey c = true := by
  obtain ⟨key, rest, m, rfl, _, word, afterKey, rfl⟩ := many_matched matched
  obtain ⟨c, rest, m, rfl, equals, afterEquals, rfl⟩ := one_matched afterKey
  obtain ⟨cont, rest, m, rfl, some_cont, _, ended, rfl⟩ := many_matched afterEquals
  obtain rfl : 0 = m := Option.some.inj ended
  rw [beq_iff_eq] at equals
  subst equals
  refine ⟨key, cont, ?_, some_cont, word⟩
  have whole : key ++ '=' :: (cont ++ rest) = (key ++ '=' :: cont) ++ rest := by simp
  have length : key.length + (cont.length + 0 + 1) = (key ++ '=' :: cont).length := by simp
  rw [whole, length, List.take_left]

theorem keyword_value {key cont : Str} (word : ∀ c ∈ key, isKey c = true) :
    keyword (key ++ '=' :: cont) = (key, cont) := by
  have other : ∀ c ∈ key, (c != '=') = true := by
    intro c mem
    rw [bne_iff_ne]
    rintro rfl
    exact absurd (word _ mem) (by decide)
  rw [keyword, List.takeWhile_append_of_pos other, List.dropWhile_append_of_pos other]
  simp

theorem keyword_quoted_value {key cont : Str} (word : ∀ c ∈ key, isKey c = true) :
    keywordQuoted (key ++ '=' :: '"' :: (cont ++ ['"'])) = (key, cont) := by
  have last : (key ++ '=' :: '"' :: (cont ++ ['"'])).getLast? = some '"' := by
    have whole : key ++ '=' :: '"' :: (cont ++ ['"']) = (key ++ '=' :: '"' :: cont) ++ ['"'] := by
      simp
    rw [whole, List.getLast?_concat]
  rw [keywordQuoted, keyword_value word, last]
  simp

theorem select_values {start : Start} {bol : Bool} {text : Str} {token : Token} {n : Nat}
    (selected : select rules start bol text = some (token, n)) :
    (token = .keywordQuoted → (keywordQuoted (text.take n)).2 ≠ []) ∧
      (token = .keyword → (keyword (text.take n)).2 ≠ []) := by
  obtain ⟨r, mem, rfl, matched⟩ := select_rule selected
  have quoted : ∀ r ∈ rules, r.token = .keywordQuoted → r.pattern = quotedPattern := by
    simp [rules, markerRules, markerRule, keyRules, outRules, cutsRules, anyRules]
  have bare : ∀ r ∈ rules, r.token = .keyword → r.pattern = barePattern := by
    simp [rules, markerRules, markerRule, keyRules, outRules, cutsRules, anyRules]
  constructor
  · intro isQuoted
    rw [quoted r mem isQuoted] at matched
    obtain ⟨key, cont, taken, some_cont, word⟩ := quoted_matched matched
    rw [taken, keyword_quoted_value word]
    exact some_cont
  · intro isBare
    rw [bare r mem isBare] at matched
    obtain ⟨key, cont, taken, some_cont, word⟩ := bare_matched matched
    rw [taken, keyword_value word]
    exact some_cont

theorem decimal_filled (i : Int) : Filled (.leaf (decimal i)) := by
  refine .leaf _ ?_
  unfold decimal
  split
  · simp
  · exact Nat.toDigits_ne_nil

theorem cuts_testcase_filled {tag tag' : Option Table} {yytext : Str} (filled : FilledSym tag)
    (acted : cutsTestcase tag yytext = some tag') : FilledSym tag' := by
  obtain ⟨⟨key, result⟩, info, rest⟩ := Option.bind_eq_some_iff.mp acted
  obtain ⟨old, found, rest⟩ := Option.bind_eq_some_iff.mp rest
  have some_result : result ≠ [] := by
    unfold cutsInfo at info
    split at info
    · rename_i tcid tc result' others found
      dsimp only at info
      split at info
      · cases info
        exact @token_some isBlank yytext result (by rw [found]; simp)
      · cases info
    · cases info
  have old_filled := get_filled filled found
  have puts : ∀ data replace, Filled data → (symPut tag key data replace).map Prod.fst = some tag' → FilledSym tag' :=
    fun data replace some_data puts => put_filled filled some_data puts
  cases old with
  | leaf oldresult =>
    have some_old := leaf_filled old_filled
    apply puts (.leaf (worstCase oldresult result)) true
    · refine .leaf _ ?_
      unfold worstCase
      split
      · exact some_old
      · exact some_result
    · obtain ⟨⟨after, status⟩, put, same⟩ := Option.bind_eq_some_iff.mp rest
      rw [put]
      exact same
  | null =>
    apply puts (.leaf result) false (.leaf _ some_result)
    obtain ⟨⟨after, status⟩, put, same⟩ := Option.bind_eq_some_iff.mp rest
    rw [put]
    exact same
  | table _ => cases rest

structure FilledState (s : State) : Prop where
  keys : FilledSym s.keys
  ctag : FilledSym s.ctag
  alltags : FilledTable s.alltags

theorem check_mode_filled {s : State} (filled : FilledState s) (expected : List ScanMode) :
    FilledState (checkMode s expected) := by
  unfold checkMode
  split
  · exact filled
  · exact ⟨filled.keys, filled.ctag, filled.alltags⟩

theorem empty_filled : FilledSym (some []) := by
  intro entries mem
  obtain rfl := Option.some.inj mem
  exact fun entry mem => nomatch mem

theorem tag_name_filled {keys keys' : Option Table} {notag notag' : Nat} {tag : Str}
    (filled : FilledSym keys) (named : tagName keys notag = some (tag, keys', notag')) :
    FilledSym keys' := by
  obtain ⟨found, _, rest⟩ := Option.bind_eq_some_iff.mp named
  cases found with
  | leaf tag =>
    cases rest
    exact filled
  | null =>
    obtain ⟨after, puts, same⟩ := Option.bind_eq_some_iff.mp rest
    cases same
    exact put_filled filled (.leaf _ (by simp)) puts
  | table _ => cases rest

theorem test_end_filled {s t : State} (filled : FilledState s)
    (ended : scannerTestEnd s = some t) : FilledState t := by
  unfold scannerTestEnd at ended
  split at ended
  · rename_i ctag keys hasCtag hasKeys
    have keysFilled := filled.keys
    have ctagFilled := filled.ctag
    rw [hasKeys] at keysFilled
    rw [hasCtag] at ctagFilled
    obtain ⟨⟨tag, keys', notag⟩, named, rest⟩ := Option.bind_eq_some_iff.mp ended
    obtain ⟨ctag', putKeys, rest⟩ := Option.bind_eq_some_iff.mp rest
    obtain ⟨old, _, rest⟩ := Option.bind_eq_some_iff.mp rest
    obtain ⟨status, _, rest⟩ := Option.bind_eq_some_iff.mp rest
    obtain ⟨alltags, putTag, rest⟩ := Option.bind_eq_some_iff.mp rest
    have newKeys := tag_name_filled keysFilled named
    have newCtag := put_filled ctagFilled (.table _ (getD_filled newKeys)) putKeys
    have before : FilledSym (some s.alltags) := by
      intro entries mem
      obtain rfl := Option.some.inj mem
      exact filled.alltags
    have newTags : FilledSym alltags := by
      unfold insertTag at putTag
      split at putTag
      · exact put_filled before (.table _ (getD_filled newCtag)) putTag
      · obtain rfl := Option.some.inj putTag
        exact before
    cases rest
    exact ⟨filled.keys, filled.ctag, getD_filled newTags⟩
  · cases ended
    exact filled

theorem table_or_null (keys : Option Table) :
    (match keys with | some keys => Sym.table keys | none => .null) = keys.elim .null Sym.table := by
  cases keys <;> rfl

theorem action_filled {token : Token} {yytext : Str} {s t : State} (filled : FilledState s)
    (values : (token = .keywordQuoted → (keywordQuoted yytext).2 ≠ []) ∧ (token = .keyword → (keyword yytext).2 ≠ []))
    (acted : action token yytext s = some t) : FilledState t := by
  cases token with
  | kwStart =>
    cases acted
    have checked := check_mode_filled (s := { s with start := .key })
      ⟨filled.keys, filled.ctag, filled.alltags⟩ [.outside]
    exact ⟨empty_filled, checked.ctag, checked.alltags⟩
  | kwEnd =>
    have checked := check_mode_filled (s := { s with start := .initial })
      ⟨filled.keys, filled.ctag, filled.alltags⟩ [.rtsKey]
    generalize at_hand : checkMode { s with start := .initial } [.rtsKey] = u at checked
    have rest : (put (some u.alltags) "_RTS".toList
        (u.keys.elim .null Sym.table) true).bind
        (fun alltags => some { u with
          scanMode := .outside, alltags := alltags.getD [], keys := none }) = some t := by
      rw [← at_hand, ← table_or_null]
      exact acted
    obtain ⟨alltags, puts, same⟩ := Option.bind_eq_some_iff.mp rest
    cases same
    have before : FilledSym (some u.alltags) := by
      intro entries mem
      obtain rfl := Option.some.inj mem
      exact checked.alltags
    have some_data : Filled (u.keys.elim .null Sym.table) := by
      have keys := checked.keys
      cases here : u.keys with
      | none => exact .null
      | some table => exact .table _ (keys table here)
    exact ⟨null_filled, checked.ctag, getD_filled (put_filled before some_data puts)⟩
  | testStart =>
    have checked := check_mode_filled (s := { s with start := .key })
      ⟨filled.keys, filled.ctag, filled.alltags⟩ [.outside]
    generalize at_hand : checkMode { s with start := .key } [.outside] = u at checked
    have rest : (put (some []) "_Start_line".toList (.leaf (decimal u.yylineno)) false).bind
        (fun keys => some { u with scanMode := .tstKey, keys := keys, ctag := some [] }) =
        some t := by
      rw [← at_hand]
      exact acted
    obtain ⟨keys, puts, same⟩ := Option.bind_eq_some_iff.mp rest
    cases same
    exact ⟨put_filled empty_filled (decimal_filled _) puts, empty_filled, checked.alltags⟩
  | testOutput =>
    have checked := check_mode_filled (s := { s with start := .out })
      ⟨filled.keys, filled.ctag, filled.alltags⟩ [.tstKey]
    obtain ⟨found, _, rest⟩ := Option.bind_eq_some_iff.mp acted
    cases found with
    | leaf analysis =>
      cases rest
      split
      · exact ⟨checked.keys, checked.ctag, checked.alltags⟩
      · exact ⟨checked.keys, checked.ctag, checked.alltags⟩
    | null =>
      cases rest
      exact ⟨checked.keys, checked.ctag, checked.alltags⟩
    | table _ => cases rest
  | execStatus =>
    cases acted
    have checked := check_mode_filled (s := { s with start := .key })
      ⟨filled.keys, filled.ctag, filled.alltags⟩ [.tstKey, .output]
    exact ⟨checked.keys, checked.ctag, checked.alltags⟩
  | testEnd =>
    have checked := check_mode_filled (s := { s with start := .initial })
      ⟨filled.keys, filled.ctag, filled.alltags⟩ [.tstKey]
    obtain ⟨keys, puts, rest⟩ := Option.bind_eq_some_iff.mp acted
    obtain ⟨u, ended, same⟩ := Option.bind_eq_some_iff.mp rest
    cases same
    have after : FilledState u := by
      refine test_end_filled ?_ ended
      exact ⟨put_filled checked.keys (decimal_filled _) puts, checked.ctag, checked.alltags⟩
    exact ⟨null_filled, null_filled, after.alltags⟩
  | keywordQuoted =>
    obtain ⟨keys, puts, same⟩ := Option.bind_eq_some_iff.mp acted
    cases same
    exact ⟨put_filled filled.keys (.leaf _ (values.1 rfl)) puts, filled.ctag, filled.alltags⟩
  | keyword =>
    obtain ⟨keys, puts, same⟩ := Option.bind_eq_some_iff.mp acted
    cases same
    exact ⟨put_filled filled.keys (.leaf _ (values.2 rfl)) puts, filled.ctag, filled.alltags⟩
  | cutsResult =>
    obtain ⟨ctag, added, same⟩ := Option.bind_eq_some_iff.mp acted
    cases same
    exact ⟨filled.keys, cuts_testcase_filled filled.ctag added, filled.alltags⟩
  | cutsResultR =>
    obtain ⟨ctag, added, same⟩ := Option.bind_eq_some_iff.mp acted
    cases same
    exact ⟨filled.keys, cuts_testcase_filled filled.ctag added, filled.alltags⟩
  | textLine =>
    cases acted
    exact filled
  | space =>
    cases acted
    exact filled

theorem scan_filled (fuel : Nat) : ∀ (text : Str) (s t : State), FilledState s →
    scanWith fuel text s = some t → FilledState t := by
  induction fuel with
  | zero =>
    intro text s t filled scanned
    cases text with
    | nil =>
      cases scanned
      exact filled
    | cons c cs => cases scanned
  | succ fuel ih =>
    intro text s t filled scanned
    cases text with
    | nil =>
      cases scanned
      exact filled
    | cons c cs =>
      rw [scanWith] at scanned
      split at scanned
      · cases scanned
      · rename_i token n selected
        split at scanned
        · cases scanned
        · obtain ⟨u, acted, rest⟩ := Option.bind_eq_some_iff.mp scanned
          have advanced : FilledState (advance ((c :: cs).take n) s) :=
            ⟨filled.keys, filled.ctag, filled.alltags⟩
          exact ih _ u t (action_filled advanced (select_values selected) acted) rest

theorem read_back_some {text tag name value : Str} (found : readBack text tag name = some value) :
    value ≠ [] := by
  obtain ⟨s, scanned, rest⟩ := Option.bind_eq_some_iff.mp found
  obtain ⟨data, got, same⟩ := Option.bind_eq_some_iff.mp rest
  have start : FilledState init := ⟨null_filled, null_filled, fun entry mem => nomatch mem⟩
  have filled := scan_filled _ _ _ _ start scanned
  have tags : FilledSym (some s.alltags) := by
    intro entries mem
    obtain rfl := Option.some.inj mem
    exact filled.alltags
  cases data with
  | leaf data =>
    cases same
    exact leaf_filled (get_filled tags got)
  | null => cases same
  | table _ => cases same

theorem never_round_trips (running : Running) (ending : Ending) (output : Str) :
    ¬ RoundTrips running ending output := by
  intro fields
  exact read_back_some (fields ("contacts".toList, []) (by simp [written])) rfl

def listing : Running := ⟨"ls01".toList, 86400, "ls -l".toList⟩

def listed : Ending := ⟨"ok".toList, 86401, "exited".toList, 0, 0, 1, 2⟩

/-- The contacts come back as the two quotes, and everything else as it was written. -/
theorem empty_contacts_quoted :
    readBack (block listing listed "total 0\n".toList) "ls01".toList "contacts".toList = some ['"', '"'] ∧
    (∀ field ∈ written listing listed, field.1 ≠ "contacts".toList →
      readBack (block listing listed "total 0\n".toList) "ls01".toList field.1 = some field.2) ∧
    ¬ RoundTrips listing listed "total 0\n".toList := by
  obtain ⟨quotes, others⟩ : readBack (block listing listed "total 0\n".toList) "ls01".toList "contacts".toList =
        some ['"', '"'] ∧
      ∀ field ∈ written listing listed, field.1 ≠ "contacts".toList →
        readBack (block listing listed "total 0\n".toList) "ls01".toList field.1 = some field.2 := by
    decide +kernel
  refine ⟨quotes, others, ?_⟩
  intro fields
  have empty := fields ("contacts".toList, []) (by simp [written])
  cases quotes.symm.trans empty

end VteRoundTrip
