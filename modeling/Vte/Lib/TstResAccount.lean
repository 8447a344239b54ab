import Vte.Base.Ensures
import Vte.Lib.TstRes

/-!
Accounting over whole tests: trees of calls whose `tst_brk` calls may run a cleanup that calls
again. One invariant relates the results reported to the exit value and `tst_count`; it holds
in every mode, and what ends a test early is a line, a file or a message that cannot be printed.
-/
namespace VteTstRes
open Text Stopping

structure Site where
  tcid : Str
  errno : CInt
  testErrno : CInt

/-- A test: its calls in order. `func` says whether `tst_brk` is passed a cleanup function,
    whose calls are `cleanup`. -/
inductive Calls where
  | done
  | res (site : Site) (ttype : CInt) (fname : Option Str) (mesg : Str) (next : Calls)
  | resm (site : Site) (ttype : CInt) (mesg : Str) (next : Calls)
  | brk (site : Site) (ttype : CInt) (fname : Option Str) (mesg : Str) (func : Bool)
      (cleanup next : Calls)

def State.visit (s : State) (site : Site) : State :=
  { s with tcid := site.tcid, errno := site.errno, testErrno := site.testErrno }

def runCalls (env : Env) (fuel : Nat) : Calls → State → Outcome
  | .done, s => .ok s
  | .res site ttype fname mesg next, s =>
    (tstRes env fuel ttype fname mesg (s.visit site)).bind (runCalls env fuel next)
  | .resm site ttype mesg next, s =>
    (tstResm env fuel ttype mesg (s.visit site)).bind (runCalls env fuel next)
  | .brk site ttype fname mesg func cleanup next, s =>
    (tstBrk env fuel ttype fname (if func then some (runCalls env fuel cleanup) else none) mesg
      (s.visit site)).bind (runCalls env fuel next)

/-- The test, ended by `tst_exit` unless a `tst_brk` has ended it. -/
def runTest (env : Env) (fuel : Nat) (tcid : Str) (calls : Calls) : Outcome :=
  (runCalls env fuel calls (init tcid)).bind (tstExit env fuel)

structure Job where
  site : Site
  ttype : CInt
  fname : Option Str
  mesg : Str

def Job.report (j : Job) : Report := ⟨ttypeResult j.ttype, expandVarArgs j.mesg⟩

/-- The result for the remaining cases, chosen by the type `tested`. -/
def remaining (site : Site) (tested ttype : CInt) : List Job :=
  if tested = tConf then [⟨site, ttype, none, remainingNotAppropriate⟩]
  else if tested = tRetr then [⟨site, ttype, none, remainingRetired⟩]
  else if tested = tBrok then [⟨site, tBrok, none, remainingBroken⟩]
  else []

def warning (site : Site) (ttype : CInt) : List Job :=
  if isBrkType ttype then [] else [⟨site, tWarn, none, invalidType ttype⟩]

/-- The results a test reports, up to the end of its first outermost `tst_brk`; `tested` gives
    the type by which `tst_brk` chooses the result for the remaining cases. -/
def jobs (tested : CInt → CInt) : Bool → Calls → List Job
  | _, .done => []
  | nested, .res site ttype fname mesg next => ⟨site, ttype, fname, mesg⟩ :: jobs tested nested next
  | nested, .resm site ttype mesg next => ⟨site, ttype, none, mesg⟩ :: jobs tested nested next
  | nested, .brk site ttype fname mesg func cleanup next =>
    warning site ttype ++ ⟨site, brkType ttype, fname, mesg⟩ ::
      ((if nested then [] else remaining site (tested ttype) (brkType ttype)) ++
        (if func then jobs tested true cleanup else []) ++
        (if nested then jobs tested true next else []))

/-- What the documentation asks for: an unsupported type is treated as `TBROK` throughout. -/
def documented (calls : Calls) : List Report :=
  (jobs (fun ttype => ttypeResult (brkType ttype)) false calls).map Job.report

def counted (rs : List Report) : Nat := (rs.filter (fun r => isCounted r.type)).length

/-- The exit status has the bits of the reported types other than TRETR, TINFO and TCONF. -/
structure Exits (rs : List Report) (status : CInt) (s : State) : Prop where
  reported : s.reported = rs
  count : s.tstCount = counted rs
  status : ∀ i, status.getLsbD i = true ↔ i ≠ 3 ∧ i ≠ 4 ∧ i ≠ 5 ∧ ∃ r ∈ rs, r.type.getLsbD i = true

/-- Whatever `TOUTPUT` says, the test runs to its exit with the documented results. -/
def Accounting (env : Env) (tcid : Str) (calls : Calls) : Prop :=
  ∃ enough status, ∀ fuel toutput, enough ≤ fuel →
    ∃ s, runTest { env with toutput := toutput } fuel tcid calls = .error (.exit status s) ∧
      Exits (documented calls) status s

/-- The outermost `tst_brk` that ends the test, if any, has a supported type. -/
def OutermostSupported : Calls → Prop
  | .done => True
  | .res _ _ _ _ next => OutermostSupported next
  | .resm _ _ _ next => OutermostSupported next
  | .brk _ ttype _ _ _ _ _ => isBrkType ttype = true

/-- The job's message is not empty, its file is missing or readable, and its line fits the line
    buffer under every number up to `total` and every value of `errno`. -/
structure Job.Printable (env : Env) (total : Nat) (j : Job) : Prop where
  message : j.mesg ≠ []
  file : ∀ name, j.fname = some name →
    (∃ contents, env.fs name = .readable contents) ∨ ∃ err, env.fs name = .missing err
  line : ∀ (mode : Mode) (err : CInt) (num : Nat), num ≤ total →
    (resultLine mode j.site.tcid num j.ttype (expandVarArgs j.mesg) ++
      errnoSuffix env j.ttype err j.site.testErrno).length + 1 < userMesg

def Printable (env : Env) (calls : Calls) : Prop :=
  ∀ j ∈ jobs ttypeResult false calls, j.Printable env (jobs ttypeResult false calls).length

def Stop.Abnormal : Stop → Prop
  | .exit _ _ => False
  | _ => True

/-- An exit satisfies `X`; any other stop shows that `P` fails. -/
def Stopped (P : Prop) (X : CInt → State → Prop) : Stop → Prop
  | .exit status s => X status s
  | _ => ¬ P

theorem stopped_abnormal {P : Prop} {X : CInt → State → Prop} {e : Stop} (abnormal : e.Abnormal)
    (fails : ¬ P) : Stopped P X e := by
  cases e with
  | exit status s => exact absurd abnormal id
  | abort s => exact fails
  | undefined => exact fails
  | deep => exact fails

def FileOk (env : Env) (s : State) : Prop :=
  ∀ name, s.file = some name → ∃ contents, env.fs name = .readable contents

section print
variable {env : Env} {s : State}

theorem warn_print {print : Str → Int → CInt → Str → State → Outcome} {name text : Str}
    (fails : ∀ tcid num mesg t, t.file = some name → t.mode ≠ .discard →
      ∃ e, print tcid num tWarn mesg t = .error e ∧ e.Abnormal)
    (file : s.file = some name) (mode : s.mode ≠ .discard) :
    ∃ e, warn print text s = .error e ∧ e.Abnormal := by
  unfold warn
  split
  · exact fails _ _ _ _ file mode
  · exact ⟨.undefined, rfl, trivial⟩

theorem fputs_file {text : Str} {t : State} (written : fputs text s = .ok t) :
    t.file = s.file ∧ t.mode = s.mode := by
  unfold fputs at written
  split at written
  · cases written
  · obtain rfl := Except.ok.inj written
    exact ⟨rfl, rfl⟩

theorem fputs_error {text : Str} {e : Stop} (stops : fputs text s = .error e) : e.Abnormal := by
  unfold fputs at stops
  split at stops
  · obtain rfl := Except.error.inj stops
    trivial
  · cases stops

theorem cat_fails {print : Str → Int → CInt → Str → State → Outcome} {name : Str}
    (fails : ∀ tcid num mesg t, t.file = some name → t.mode ≠ .discard →
      ∃ e, print tcid num tWarn mesg t = .error e ∧ e.Abnormal)
    (unreadable : ∀ contents, env.fs name ≠ .readable contents)
    (file : s.file = some name) (mode : s.mode ≠ .discard) :
    ∃ e, catFile env print name s = .error e ∧ e.Abnormal := by
  unfold catFile
  split
  · exact warn_print fails file mode
  · exact warn_print fails file mode
  · rename_i start err _
    cases written : fputs start { s with errno := 0 } with
    | error e => exact ⟨e, rfl, fputs_error written⟩
    | ok t =>
      obtain ⟨sameFile, sameMode⟩ := fputs_file written
      exact warn_print (s := { t with errno := err }) fails (sameFile.trans file)
        (by rw [sameMode]; exact mode)
  · rename_i contents status
    exact absurd status (unreadable contents)

/-- The line `tst_print` composes in a state. -/
def composed (env : Env) (s : State) (tcid : Str) (num : Int) (ttype : CInt) (mesg : Str) : Str :=
  resultLine s.mode tcid num ttype mesg ++ errnoSuffix env ttype s.errno s.testErrno

theorem print_filtered_out {ttype : CInt} (filtered : isPrinted s.mode ttype = false) (fuel : Nat)
    (tcid : Str) (num : Int) (mesg : Str) :
    tstPrint env (fuel + 1) tcid num ttype mesg s = .ok { s with exitval := s.exitval ||| ttypeResult ttype } := by
  simp [tstPrint, filtered]

theorem print_too_long {ttype : CInt} {tcid : Str} {num : Int} {mesg : Str}
    (printed : isPrinted s.mode ttype = true)
    (long : userMesg ≤ (composed env s tcid num ttype mesg).length + 1) (fuel : Nat) :
    tstPrint env (fuel + 1) tcid num ttype mesg s =
      .error (.abort { s with exitval := s.exitval ||| ttypeResult ttype }) := by
  unfold composed at long
  simp only [tstPrint, printed, if_true, if_pos long]

/-- The end of `tst_print`: the file, if one goes with the result. -/
def appendFile (env : Env) (fuel : Nat) (s : State) : Outcome :=
  match s.file with
  | none => .ok s
  | some name => catFile env (tstPrint env fuel) name s

theorem print_short {ttype : CInt} {tcid : Str} {num : Int} {mesg : Str}
    (printed : isPrinted s.mode ttype = true)
    (short : ¬ userMesg ≤ (composed env s tcid num ttype mesg).length + 1) (fuel : Nat) :
    tstPrint env (fuel + 1) tcid num ttype mesg s = (fputs (composed env s tcid num ttype mesg ++ ['\n'])
        { s with exitval := s.exitval ||| ttypeResult ttype }).bind (fun t =>
          (appendFile env fuel t).bind (fun u => .ok { u with file := none })) := by
  unfold composed at short ⊢
  simp only [tstPrint, printed, if_true, if_neg short]
  refine congrArg (Except.bind _) (funext fun t => ?_)
  rcases t with ⟨tOut, file, rest⟩
  cases file with
  | none => rfl
  | some name => rfl

theorem warning_printed {mode : Mode} (printing : mode ≠ .discard) :
    isPrinted mode tWarn = true := by
  cases mode with
  | verbose => rfl
  | nopass => rfl
  | discard => exact absurd rfl printing

theorem print_fails {name : Str} (unreadable : ∀ contents, env.fs name ≠ .readable contents)
    (fuel : Nat) : ∀ (tcid : Str) (num : Int) (mesg : Str) (s : State), s.file = some name →
    s.mode ≠ .discard → ∃ e, tstPrint env fuel tcid num tWarn mesg s = .error e ∧ e.Abnormal := by
  induction fuel with
  | zero => exact fun _ _ _ _ _ _ => ⟨.deep, rfl, trivial⟩
  | succ fuel ih =>
    intro tcid num mesg s file mode
    by_cases long : userMesg ≤ (composed env s tcid num tWarn mesg).length + 1
    · exact ⟨_, print_too_long (warning_printed mode) long fuel, trivial⟩
    · rw [print_short (warning_printed mode) long fuel]
      cases written : fputs (composed env s tcid num tWarn mesg ++ ['\n'])
          { s with exitval := s.exitval ||| ttypeResult tWarn } with
      | error e => exact ⟨e, rfl, fputs_error written⟩
      | ok t =>
        obtain ⟨sameFile, sameMode⟩ := fputs_file written
        have fileT : t.file = some name := sameFile.trans file
        obtain ⟨e, stops, abnormal⟩ := cat_fails ih unreadable fileT (by rw [sameMode]; exact mode)
        refine ⟨e, ?_, abnormal⟩
        simp only [Except.bind, appendFile, fileT, stops]

/-- What printing a result leaves unchanged, and the bits it adds to the exit value. -/
structure Printed (bits : CInt) (s t : State) : Prop where
  reported : t.reported = s.reported
  count : t.tstCount = s.tstCount
  entered : t.tstBrkEntered = s.tstBrkEntered
  exitval : t.exitval = s.exitval ||| bits
  buffered : t.buffered = s.buffered
  mode : t.mode = s.mode
  tcid : t.tcid = s.tcid
  testErrno : t.testErrno = s.testErrno
  opened : s.tOut ≠ none → t.tOut ≠ none
  file : t.file = none ∨ t.file = s.file

theorem append_ensures (fuel : Nat) (opened : s.tOut ≠ none) (mode : s.mode ≠ .discard) :
    Ensures (Printed 0 s) (fun e => e.Abnormal ∧ ¬ FileOk env s) (appendFile env fuel s) := by
  unfold appendFile
  split
  · exact ⟨rfl, rfl, rfl, by simp, rfl, rfl, rfl, rfl, id, Or.inr rfl⟩
  · rename_i name file
    by_cases readable : ∃ contents, env.fs name = .readable contents
    · obtain ⟨contents, status⟩ := readable
      obtain ⟨out, open_⟩ := Option.ne_none_iff_exists'.mp opened
      simp only [catFile, status, fputs, open_]
      exact ⟨rfl, rfl, rfl, by simp, rfl, rfl, rfl, rfl, by simp, Or.inr rfl⟩
    · have unreadable : ∀ contents, env.fs name ≠ .readable contents :=
        fun contents status => readable ⟨contents, status⟩
      obtain ⟨e, stops, abnormal⟩ := cat_fails (print_fails unreadable fuel) unreadable file mode
      rw [stops]
      exact ⟨abnormal, fun fine => readable (fine name file)⟩

theorem print_ensures (fuel : Nat) (tcid : Str) (num : Int) (ttype : CInt) (mesg : Str) :
    Ensures (Printed (ttypeResult ttype) s)
      (fun e => e.Abnormal ∧ ¬ (s.tOut ≠ none ∧ FileOk env s ∧
        (composed env s tcid num ttype mesg).length + 1 < userMesg))
      (tstPrint env (fuel + 1) tcid num ttype mesg s) := by
  by_cases printed : isPrinted s.mode ttype = true
  · by_cases long : userMesg ≤ (composed env s tcid num ttype mesg).length + 1
    · rw [print_too_long printed long fuel]
      exact ⟨trivial, fun fine => absurd long (Nat.not_le.mpr fine.2.2)⟩
    · have mode : s.mode ≠ .discard := by
        intro discard
        rw [discard] at printed
        cases printed
      rw [print_short printed long fuel]
      cases out : s.tOut with
      | none =>
        simp only [fputs]
        exact ⟨trivial, fun fine => fine.1 rfl⟩
      | some text =>
        let t : State := { s with
          exitval := s.exitval ||| ttypeResult ttype
          tOut := some (text ++ (composed env s tcid num ttype mesg ++ ['\n'])) }
        have appended : Ensures (Printed 0 t) (fun e => e.Abnormal ∧ ¬ FileOk env t)
            (appendFile env fuel t) := append_ensures fuel (by simp [t]) mode
        simp only [fputs]
        change Ensures _ _ (Except.bind (appendFile env fuel t) _)
        refine ensures_bind (ensures_mono appended (fun _ kept => kept)
          (fun e stop => ⟨stop.1, fun fine => stop.2 fine.2.1⟩)) ?_
        intro u kept
        obtain ⟨reported, count, entered, exitval, buffered, mode, tcid, testErrno, opened, _⟩ := kept
        exact ⟨reported, count, entered, by simpa [t] using exitval, buffered, mode, tcid, testErrno,
          fun _ => opened (by simp [t]), Or.inl rfl⟩
  · have filtered : isPrinted s.mode ttype = false := by simpa using printed
    rw [print_filtered_out filtered fuel tcid num mesg]
    exact ⟨rfl, rfl, rfl, rfl, rfl, rfl, rfl, rfl, id, Or.inr rfl⟩

end print

theorem result_line_result (mode : Mode) (tcid : Str) (num : Int) (ttype : CInt) (mesg : Str) :
    resultLine mode tcid num (ttypeResult ttype) mesg = resultLine mode tcid num ttype mesg := by
  simp only [resultLine, strttype_result]

/-- The bookkeeping at a call site after the results `rs`, `n` of them counted, inside `d` calls
    of `tst_brk`. What only matters for printing is kept as long as `P` holds. -/
structure Inv (P : Prop) (env : Env) (site : Site) (rs : List Report) (n d : Nat) (s : State) :
    Prop where
  reported : s.reported = rs
  count : s.tstCount = n
  entered : s.tstBrkEntered = d
  bits : ∀ i, s.exitval.getLsbD i = true ↔ ∃ r ∈ rs, r.type.getLsbD i = true
  tcid : s.tcid = site.tcid
  testErrno : s.testErrno = site.testErrno
  file : P → FileOk env s
  held : ∀ last, s.buffered = some last → (∃ r ∈ rs, r.type = last.type) ∧
    ttypeResult last.type = last.type ∧ (P → s.tOut ≠ none ∧
      ∀ mode, (resultLine mode last.tcid last.num last.type last.mesg).length + 1 < userMesg)

structure Open (P : Prop) (env : Env) (site : Site) (rs : List Report) (n d : Nat) (s : State) :
    Prop extends Inv P env site rs n d s where
  opened : P → s.tOut ≠ none

/-- The line of a result fits in either mode, whatever `errno` is. -/
def Fits (env : Env) (site : Site) (num : Int) (ttype : CInt) (mesg : Str) : Prop :=
  ∀ mode err, (resultLine mode site.tcid num ttype mesg ++
    errnoSuffix env ttype err site.testErrno).length + 1 < userMesg

section account
variable {P : Prop} {X : CInt → State → Prop} {env : Env} {site : Site} {rs : List Report}
  {n d : Nat} {s : State}

theorem Open.printed {bits : CInt} {t : State} (inv : Open P env site rs n d s)
    (among : ∃ r ∈ rs, r.type = bits) (kept : Printed bits s t) : Open P env site rs n d t := by
  obtain ⟨reported, count, entered, exitval, buffered, _, tcid, testErrno, opened, file⟩ := kept
  refine ⟨⟨reported.trans inv.reported, count.trans inv.count, entered.trans inv.entered, ?_,
    tcid.trans inv.tcid, testErrno.trans inv.testErrno, ?_, ?_⟩, fun p => opened (inv.opened p)⟩
  · intro i
    rw [exitval, BitVec.getLsbD_or, Bool.or_eq_true, inv.bits i]
    constructor
    · rintro (old | new)
      · exact old
      · obtain ⟨r, mem, type⟩ := among
        exact ⟨r, mem, by rw [type]; exact new⟩
    · exact Or.inl
  · intro p name named
    rcases file with none | same
    · rw [none] at named
      cases named
    · exact inv.file p name (same ▸ named)
  · intro last held
    obtain ⟨among, masked, fits⟩ := inv.held last (buffered ▸ held)
    exact ⟨among, masked, fun p => ⟨opened (inv.opened p), (fits p).2⟩⟩

theorem print_open (inv : Open P env site rs n d s) {ttype : CInt}
    (among : ∃ r ∈ rs, r.type = ttypeResult ttype) {tcid : Str} {num : Int} {mesg : Str}
    (fits : P → (composed env s tcid num ttype mesg).length + 1 < userMesg) (fuel : Nat) :
    Ensures (Open P env site rs n d) (Stopped P X)
      (tstPrint env (fuel + 1) tcid num ttype mesg s) := by
  refine ensures_mono (print_ensures fuel tcid num ttype mesg) (fun t kept => inv.printed among kept)
    ?_
  rintro e ⟨abnormal, why⟩
  exact stopped_abnormal abnormal fun p => why ⟨inv.opened p, inv.file p, fits p⟩

theorem print_current (inv : Open P env site rs n d s) {ttype : CInt}
    (among : ∃ r ∈ rs, r.type = ttypeResult ttype) {num : Int} {mesg : Str}
    (fits : P → Fits env site num ttype mesg) (fuel : Nat) :
    Ensures (Open P env site rs n d) (Stopped P X)
      (tstPrint env (fuel + 1) s.tcid num ttype mesg s) := by
  apply print_open inv among
  intro p
  rw [composed, inv.tcid, inv.testErrno]
  exact fits p s.mode s.errno

theorem print_held (inv : Open P env site rs n d s) {last : Last}
    (among : ∃ r ∈ rs, r.type = last.type) (masked : ttypeResult last.type = last.type)
    (fits : P → s.tOut ≠ none ∧ ∀ mode, (resultLine mode last.tcid last.num last.type last.mesg).length + 1 < userMesg)
    (fuel : Nat) :
    Ensures (Open P env site rs n d) (Stopped P X)
      (tstPrint env (fuel + 1) last.tcid last.num last.type last.mesg s) := by
  apply print_open inv (by rwa [masked])
  intro p
  have flagless := no_flags_result last.type
  rw [masked] at flagless
  rw [composed, no_errno_suffix env _ _ flagless, List.append_nil]
  exact (fits p).2 s.mode

theorem hold_open (inv : Open P env site rs n d s) {ttype : CInt}
    (among : ∃ r ∈ rs, r.type = ttypeResult ttype) {num : Int} {mesg : Str}
    (fits : P → Fits env site num ttype mesg) (fuel : Nat) :
    Ensures (Open P env site rs n d) (Stopped P X) (tstHold env (fuel + 1) num ttype mesg s) := by
  unfold tstHold
  split
  · refine ⟨⟨inv.reported, inv.count, inv.entered, inv.bits, inv.tcid, inv.testErrno, inv.file, ?_⟩, inv.opened⟩
    rintro last held
    obtain rfl := Option.some.inj held
    refine ⟨among, ttype_result_idem ttype, fun p => ⟨inv.opened p, ?_⟩⟩
    intro mode
    have whole := fits p mode 0
    rw [List.length_append] at whole
    change (resultLine mode s.tcid num (ttypeResult ttype) mesg).length + 1 < userMesg
    rw [result_line_result, inv.tcid]
    omega
  · refine ensures_bind (print_current inv among fits fuel) ?_
    intro t opened
    exact ⟨⟨opened.reported, opened.count, opened.entered, opened.bits, opened.tcid,
      opened.testErrno, opened.file, by intro last held; cases held⟩, opened.opened⟩

theorem condense_open (inv : Open P env site rs n d s) {ttype : CInt}
    (among : ∃ r ∈ rs, r.type = ttypeResult ttype) {num : Int} {mesg : Str}
    (fits : P → Fits env site num ttype mesg) (fuel : Nat) :
    Ensures (Open P env site rs n d) (Stopped P X)
      (tstCondense env (fuel + 1) num ttype mesg s) := by
  unfold tstCondense
  split
  · exact hold_open inv among fits fuel
  · rename_i last held
    split
    · exact inv
    · obtain ⟨heldAmong, masked, heldFits⟩ := inv.held last held
      have cleared : Open P env site rs n d { s with file := none } :=
        ⟨⟨inv.reported, inv.count, inv.entered, inv.bits, inv.tcid, inv.testErrno,
          fun _ _ none => (nomatch none), inv.held⟩, inv.opened⟩
      refine ensures_bind (print_held cleared heldAmong masked heldFits fuel) ?_
      intro t opened
      have again : Open P env site rs n d { t with file := s.file } :=
        ⟨⟨opened.reported, opened.count, opened.entered, opened.bits, opened.tcid, opened.testErrno,
          inv.file, opened.held⟩, opened.opened⟩
      exact hold_open again among fits fuel

theorem flush_inv (inv : Inv P env site rs n d s) (fuel : Nat) :
    Ensures (Inv P env site rs n d) (Stopped P X) (tstFlush env (fuel + 1) s) := by
  unfold tstFlush
  split
  · exact inv
  · rename_i last held
    obtain ⟨among, masked, fits⟩ := inv.held last held
    split
    · refine ensures_bind (print_held ⟨inv, fun p => (fits p).1⟩ among masked fits fuel) ?_
      intro t opened
      exact ⟨opened.reported, opened.count, opened.entered, opened.bits, opened.tcid,
        opened.testErrno, opened.file, by intro last held; cases held⟩
    · exact inv

theorem check_env_form (env : Env) (s : State) :
    ∃ first mode, checkEnv env s = { s with firstTime := first, mode := mode } := by
  unfold checkEnv
  split
  · exact ⟨_, _, rfl⟩
  · exact ⟨s.firstTime, s.mode, rfl⟩

theorem attach_form (env : Env) (fname : Option Str) (s : State) :
    ∃ errno file, attach env fname s = { s with errno := errno, file := file } ∧
      (file = s.file ∨ ∃ name, file = some name ∧ fname = some name ∧ ∀ err, env.fs name ≠ .missing err) := by
  unfold attach
  split
  · exact ⟨s.errno, s.file, rfl, Or.inl rfl⟩
  · rename_i name
    split
    · rename_i err _
      exact ⟨err, s.file, rfl, Or.inl rfl⟩
    · rename_i present
      exact ⟨s.errno, some name, rfl, Or.inr ⟨name, rfl, rfl, present⟩⟩

theorem attach_env_form (env : Env) (fname : Option Str) (s : State) :
    ∃ first mode errno file, attach env fname (checkEnv env s) =
        { s with firstTime := first, mode := mode, errno := errno, file := file } ∧
      (file = s.file ∨ ∃ name, file = some name ∧ fname = some name ∧ ∀ err, env.fs name ≠ .missing err) := by
  obtain ⟨first, mode, checked⟩ := check_env_form env s
  obtain ⟨errno, file, attached, from_⟩ :=
    attach_form env fname { s with firstTime := first, mode := mode }
  exact ⟨first, mode, errno, file, by rw [checked, attached], from_⟩

theorem report_bits {bits : CInt} (known : ∀ i, s.exitval.getLsbD i = true ↔
    ∃ r ∈ rs, r.type.getLsbD i = true) (mesg : Str) (i : Nat) :
    (s.exitval ||| bits).getLsbD i = true ↔ ∃ r ∈ rs ++ [⟨bits, mesg⟩], r.type.getLsbD i = true := by
  rw [BitVec.getLsbD_or, Bool.or_eq_true, known i]
  simp only [List.mem_append, List.mem_singleton]
  constructor
  · rintro (⟨r, mem, bit⟩ | bit)
    · exact ⟨r, Or.inl mem, bit⟩
    · exact ⟨_, Or.inr rfl, bit⟩
  · rintro ⟨r, mem | rfl, bit⟩
    · exact Or.inl ⟨r, mem, bit⟩
    · exact Or.inr bit

theorem noted_open (inv : Inv P env site rs n d s) {fname : Option Str}
    (file : P → ∀ name, fname = some name →
      (∃ contents, env.fs name = .readable contents) ∨ ∃ err, env.fs name = .missing err)
    (bits : CInt) (mesg : Str) :
    Open P env site (rs ++ [⟨bits, mesg⟩]) n d ((attach env fname (checkEnv env { s with
      exitval := s.exitval ||| bits
      tOut := some (s.tOut.getD []) })).report bits mesg) := by
  obtain ⟨first, mode, errno, attached, form, from_⟩ := attach_env_form env fname { s with
    exitval := s.exitval ||| bits
    tOut := some (s.tOut.getD []) }
  rw [form]
  have reported : s.reported ++ [⟨bits, mesg⟩] = rs ++ [⟨bits, mesg⟩] := by rw [inv.reported]
  refine ⟨⟨reported, inv.count, inv.entered,
    report_bits inv.bits mesg, inv.tcid, inv.testErrno, ?_, ?_⟩, fun _ none => nomatch none⟩
  · intro p name named
    rcases from_ with same | ⟨name', some_, given, present⟩
    · exact inv.file p name (same ▸ named)
    · obtain rfl : name' = name := Option.some.inj (some_.symm.trans named)
      rcases file p name' given with readable | ⟨err, missing⟩
      · exact readable
      · exact absurd missing (present err)
  · intro last held
    obtain ⟨⟨r, mem, type⟩, masked, fits⟩ := inv.held last held
    exact ⟨⟨r, List.mem_append.mpr (Or.inl mem), type⟩, masked,
      fun p => ⟨nofun, (fits p).2⟩⟩

theorem by_mode_open (inv : Open P env site rs n d s) {ttype : CInt}
    (among : ∃ r ∈ rs, r.type = ttypeResult ttype) {mesg : Str}
    (fits : P → Fits env site ((n : Int) + 1) ttype mesg) (fuel : Nat) :
    Ensures (Open P env site rs n d) (Stopped P X) (byMode env (fuel + 1) ttype mesg s) := by
  unfold byMode
  rw [inv.count]
  split
  · exact inv
  · exact condense_open inv among fits fuel
  · exact print_current inv among fits fuel

theorem counted_open (inv : Open P env site rs n d s) {ttype : CInt}
    (among : ∃ r ∈ rs, r.type = ttypeResult ttype) {mesg : Str}
    (fits : P → Fits env site ((n : Int) + 1) ttype mesg) (fuel : Nat) :
    Ensures (Open P env site rs (n + 1) d) (Stopped P X)
      (tstCounted env (fuel + 1) ttype mesg s) := by
  rw [counted_mode (by rw [inv.count]; omega)]
  refine ensures_bind (by_mode_open inv among fits fuel) ?_
  intro t opened
  have next : t.tstCount + 1 = ((n + 1 : Nat) : Int) := by rw [opened.count]; rfl
  exact ⟨⟨opened.reported, next, opened.entered, opened.bits, opened.tcid, opened.testErrno,
    opened.file, opened.held⟩, opened.opened⟩

theorem res_open {total : Nat} (inv : Inv P env site rs n d s) (j : Job) (here : j.site = site)
    (good : P → j.Printable env total) (room : P → n + 1 ≤ total) (fuel : Nat) :
    Ensures (Open P env site (rs ++ [j.report]) (n + counted [j.report]) d) (Stopped P X)
      (tstRes env (fuel + 1) j.ttype j.fname j.mesg s) := by
  unfold tstRes
  by_cases empty : expandVarArgs j.mesg = []
  · rw [if_pos empty]
    intro p
    exact (good p).message (by simpa [expandVarArgs, userMesg] using empty)
  · rw [if_neg empty]
    have noted := noted_open inv (fun p => (good p).file) (ttypeResult j.ttype)
      (expandVarArgs j.mesg)
    have among : ∃ r ∈ rs ++ [j.report], r.type = ttypeResult j.ttype :=
      ⟨j.report, by simp, rfl⟩
    by_cases counts : isCounted (ttypeResult j.ttype) = true
    · have other : ¬ (ttypeResult j.ttype = tWarn ∨ ttypeResult j.ttype = tInfo) := by
        simpa [isCounted, not_or] using counts
      have one : counted [j.report] = 1 := by simp [counted, Job.report, counts]
      rw [if_neg other, one]
      apply counted_open noted among
      intro p mode err
      have line := (good p).line mode err (n + 1) (room p)
      rw [here] at line
      exact line
    · have warns : ttypeResult j.ttype = tWarn ∨ ttypeResult j.ttype = tInfo := by
        by_contra other
        exact counts (by simpa [isCounted, not_or] using other)
      have none : counted [j.report] = 0 := by simp [counted, Job.report, counts]
      rw [if_pos warns, none]
      apply print_current noted among
      intro p mode err
      have line := (good p).line mode err 0 (Nat.zero_le _)
      rw [here] at line
      exact line

theorem exit_bits (x : CInt) (i : Nat) :
    (x &&& ~~~ (tRetr ||| tInfo ||| tConf)).getLsbD i = true ↔ i ≠ 3 ∧ i ≠ 4 ∧ i ≠ 5 ∧ x.getLsbD i = true := by
  by_cases inside : i < 32
  · have masked : ∀ j < 32, (tRetr ||| tInfo ||| tConf).getLsbD j = decide (j = 3 ∨ j = 4 ∨ j = 5) := by decide
    rw [BitVec.getLsbD_and, BitVec.getLsbD_not, masked i inside]
    simp only [inside, decide_true, Bool.true_and, Bool.and_eq_true, Bool.not_eq_true', decide_eq_false_iff_not, not_or]
    tauto
  · rw [BitVec.getLsbD_of_ge _ _ (Nat.not_lt.mp inside), BitVec.getLsbD_of_ge x _ (Nat.not_lt.mp inside)]
    simp

theorem exit_account (inv : Inv P env site rs (counted rs) d s) (fuel : Nat) :
    Ensures (fun _ => False) (Stopped P (Exits rs)) (tstExit env (fuel + 1) s) := by
  unfold tstExit
  refine ensures_bind (flush_inv inv fuel) ?_
  intro t flushed
  refine ⟨flushed.reported, flushed.count, ?_⟩
  intro i
  rw [exitStatus, exit_bits, flushed.bits]

theorem counted_append (rs rs' : List Report) : counted (rs ++ rs') = counted rs + counted rs' := by
  simp [counted]

theorem expand_idem (mesg : Str) : expandVarArgs (expandVarArgs mesg) = expandVarArgs mesg := by
  simp [expandVarArgs, List.take_take]

theorem printable_expanded {total : Nat} {ttype : CInt} {fname : Option Str} {mesg : Str}
    (good : Job.Printable env total ⟨site, ttype, fname, mesg⟩) :
    Job.Printable env total ⟨site, ttype, fname, expandVarArgs mesg⟩ := by
  refine ⟨?_, good.file, ?_⟩
  · have some_mesg := good.message
    simpa [expandVarArgs, userMesg] using some_mesg
  · simpa only [expand_idem] using good.line

theorem warn_open (inv : Open P env site rs n d s) {text : Str} (short : text.length < maxMesg)
    (fits : P → Fits env site 0 tWarn text) (fuel : Nat) :
    Ensures (Open P env site (rs ++ [⟨tWarn, text⟩]) n d) (Stopped P X)
      (warn (tstPrint env (fuel + 1)) text s) := by
  let noted : State := { s.report tWarn text with exitval := s.exitval ||| tWarn }
  have reported : s.reported ++ [⟨tWarn, text⟩] = rs ++ [⟨tWarn, text⟩] := by rw [inv.reported]
  have open_ : Open P env site (rs ++ [⟨tWarn, text⟩]) n d noted := by
    refine ⟨⟨reported, inv.count, inv.entered, report_bits inv.bits text, inv.tcid, inv.testErrno,
      inv.file, ?_⟩, inv.opened⟩
    intro last held
    obtain ⟨⟨r, mem, type⟩, rest⟩ := inv.held last held
    exact ⟨⟨r, List.mem_append.mpr (Or.inl mem), type⟩, rest⟩
  unfold warn
  rw [if_pos short]
  refine ensures_mono (print_ensures fuel _ _ _ _) ?_ ?_
  · intro t kept
    obtain ⟨reported, count, entered, exitval, buffered, mode, tcid, testErrno, opened, file⟩ := kept
    have bits : t.exitval = noted.exitval ||| tWarn := by
      rw [exitval]
      change s.exitval ||| tWarn = s.exitval ||| tWarn ||| tWarn
      rw [BitVec.or_assoc, BitVec.or_self]
    exact open_.printed ⟨⟨tWarn, text⟩, by simp, rfl⟩
      ⟨reported, count, entered, bits, buffered, mode, tcid, testErrno, opened, file⟩
  · rintro e ⟨abnormal, why⟩
    refine stopped_abnormal abnormal fun p => why ⟨inv.opened p, inv.file p, ?_⟩
    have line := fits p s.mode s.errno
    rw [← inv.tcid, ← inv.testErrno] at line
    exact line

theorem masked_decimal_short (ttype : CInt) : (decimal (ttypeResult ttype).toInt).length ≤ 2 := by
  have small : (ttypeResult ttype).toNat ≤ 63 := by
    have mask : ttypeMask.toNat = 63 := by decide
    rw [ttypeResult, BitVec.toNat_and, mask]
    exact Nat.and_le_right
  have value : (ttypeResult ttype).toInt = (ttypeResult ttype).toNat :=
    BitVec.toInt_eq_toNat_of_lt (by omega)
  generalize (ttypeResult ttype).toNat = type at small value
  have digits : (Nat.toDigits 10 type).length ≤ 2 := to_digits_length (by decide) (by omega)
  have nonneg : ¬ (type : Int) < 0 := by omega
  rw [value, decimal, if_neg nonneg, Int.natAbs_natCast]
  exact digits

theorem invalid_type_length (ttype : CInt) :
    (invalidType ttype).length = 36 + (decimal (ttypeResult ttype).toInt).length := by
  -- the literals are kept abstract: comparing them by unfolding is slow
  generalize before : "tst_brk: Invalid Type: ".toList = start
  generalize after : ". Using TBROK".toList = stop
  have text : invalidType ttype = start ++ decimal (ttypeResult ttype).toInt ++ stop := by
    subst before after
    rfl
  have long : start.length = 23 := by
    subst before
    decide
  have short : stop.length = 13 := by
    subst after
    decide
  rw [text, List.length_append, List.length_append]
  omega

theorem invalid_type_short (ttype : CInt) : (invalidType ttype).length < maxMesg := by
  have short := masked_decimal_short ttype
  have whole := invalid_type_length ttype
  rw [maxMesg]
  omega

theorem invalid_type_expanded (ttype : CInt) :
    expandVarArgs (invalidType ttype) = invalidType ttype := by
  have short := invalid_type_short ttype
  simp only [maxMesg] at short
  exact List.take_of_length_le (by simp only [userMesg]; omega)

def reports (js : List Job) : List Report := js.map Job.report

/-- The jobs can be printed, and there is room for their numbers after `n` counted results. -/
structure Fine (env : Env) (total : Nat) (js : List Job) (n : Nat) : Prop where
  good : ∀ j ∈ js, j.Printable env total
  room : n + js.length ≤ total

theorem counted_le (js : List Job) : counted (reports js) ≤ js.length := by
  have le := List.length_filter_le (fun r : Report => isCounted r.type) (reports js)
  rwa [reports, List.length_map] at le

theorem Fine.append {total : Nat} {js js' : List Job} (fine : Fine env total (js ++ js') n) :
    Fine env total js n ∧ Fine env total js' (n + counted (reports js)) := by
  obtain ⟨good, room⟩ := fine
  rw [List.length_append] at room
  have le := counted_le js
  exact ⟨⟨fun j mem => good j (by simp [mem]), by omega⟩, ⟨fun j mem => good j (by simp [mem]), by omega⟩⟩

theorem res_step {total : Nat} (inv : Inv P env site rs (counted rs) d s) (ttype : CInt)
    (fname : Option Str) (mesg : Str)
    (fine : P → Fine env total [⟨site, ttype, fname, mesg⟩] (counted rs)) (fuel : Nat) :
    Ensures (Open P env site (rs ++ reports [⟨site, ttype, fname, mesg⟩])
        (counted (rs ++ reports [⟨site, ttype, fname, mesg⟩])) d) (Stopped P X)
      (tstRes env (fuel + 1) ttype fname mesg s) := by
  rw [counted_append]
  exact res_open inv ⟨site, ttype, fname, mesg⟩ rfl (fun p => (fine p).good _ (by simp))
    (fun p => (fine p).room) fuel

theorem res_step_expanded {total : Nat} (inv : Inv P env site rs (counted rs) d s) (ttype : CInt)
    (fname : Option Str) (mesg : Str)
    (fine : P → Fine env total [⟨site, ttype, fname, mesg⟩] (counted rs)) (fuel : Nat) :
    Ensures (Open P env site (rs ++ reports [⟨site, ttype, fname, mesg⟩])
        (counted (rs ++ reports [⟨site, ttype, fname, mesg⟩])) d) (Stopped P X)
      (tstRes env (fuel + 1) ttype fname (expandVarArgs mesg) s) := by
  have same : reports [⟨site, ttype, fname, expandVarArgs mesg⟩] = reports [⟨site, ttype, fname, mesg⟩] := by
    simp [reports, Job.report, expand_idem]
  have step := @res_step P X env site rs d s total inv ttype fname (expandVarArgs mesg)
    (fun p => ⟨by simpa using printable_expanded ((fine p).good _ (by simp)), (fine p).room⟩) fuel
  rwa [same] at step

theorem warn_step {total : Nat} (inv : Inv P env site rs (counted rs) d s) (ttype : CInt)
    (opened : P → isBrkType ttype = false → s.tOut ≠ none)
    (fine : P → Fine env total (warning site ttype) (counted rs)) (fuel : Nat) :
    Ensures (Inv P env site (rs ++ reports (warning site ttype))
        (counted (rs ++ reports (warning site ttype))) d) (Stopped P X)
      (brkWarn env (fuel + 1) ttype s) := by
  unfold brkWarn warning at *
  by_cases supported : isBrkType ttype = true
  · simp only [supported, if_true, reports, List.map_nil, List.append_nil]
    exact inv
  · have unsupported : isBrkType ttype = false := by simpa using supported
    have note : reports [⟨site, tWarn, none, invalidType ttype⟩] = [⟨tWarn, invalidType ttype⟩] := by
      rw [← invalid_type_expanded ttype]
      simp [reports, Job.report, expand_idem, ttypeResult, tWarn, ttypeMask]
    have free : counted (rs ++ [⟨tWarn, invalidType ttype⟩]) = counted rs := by
      rw [counted_append]
      rfl
    simp only [unsupported, Bool.false_eq_true, if_false, note, free] at fine ⊢
    refine ensures_value (warn_open ⟨inv, fun p => opened p unsupported⟩
      (invalid_type_short ttype) ?_ fuel) (fun t open_ => open_.toInv)
    intro p mode err
    have line := ((fine p).good _ (List.mem_singleton.mpr rfl)).line mode err 0 (Nat.zero_le _)
    rw [invalid_type_expanded] at line
    exact line

theorem open_append_nil (inv : Open P env site rs (counted rs) d s) :
    Open P env site (rs ++ reports []) (counted (rs ++ reports [])) d s := by
  rw [reports, List.map_nil, List.append_nil]
  exact inv

theorem remaining_step {total : Nat} (inv : Open P env site rs (counted rs) d s)
    (tested ttype : CInt) (fine : P → Fine env total
      (if d = 0 then remaining site tested ttype else []) (counted rs)) (fuel : Nat) :
    Ensures (Open P env site (rs ++ reports (if d = 0 then remaining site tested ttype else []))
        (counted (rs ++ reports (if d = 0 then remaining site tested ttype else []))) d)
      (Stopped P X) (brkRemaining env (fuel + 1) tested ttype s) := by
  unfold brkRemaining remaining at *
  rw [inv.entered]
  by_cases outermost : d = 0
  · simp only [outermost, if_true] at fine inv ⊢
    split
    · rename_i conf
      simp only [conf, if_true] at fine
      exact res_step inv.toInv ttype none _ fine fuel
    · rename_i notConf
      simp only [notConf, if_false] at fine
      split
      · rename_i retr
        simp only [retr, if_true] at fine
        exact res_step inv.toInv ttype none _ fine fuel
      · rename_i notRetr
        simp only [notRetr, if_false] at fine
        split
        · rename_i brok
          simp only [brok, if_true] at fine
          exact res_step inv.toInv tBrok none _ fine fuel
        · exact open_append_nil inv
  · simp only [outermost, if_false]
    exact open_append_nil inv

/-- Calls that report exactly `js` and return, at whatever site they are made. -/
def Keeps (P : Prop) (X : CInt → State → Prop) (env : Env) (total d : Nat) (js : List Job)
    (calls : State → Outcome) : Prop :=
  ∀ site rs t, Open P env site rs (counted rs) d t → (P → Fine env total js (counted rs)) →
    Ensures (fun u => ∃ last, Open P env last (rs ++ reports js) (counted (rs ++ reports js)) d u)
      (Stopped P X) (calls t)

theorem cleanup_step {total : Nat} {func : Option (State → Outcome)} {js : List Job}
    (inv : Open P env site rs (counted rs) d s) (null : func = none → js = [])
    (keeps : ∀ cleanup, func = some cleanup → Keeps P X env total (d + 1) js cleanup)
    (fine : P → Fine env total js (counted rs)) :
    Ensures (fun t => ∃ last, Open P env last (rs ++ reports js) (counted (rs ++ reports js)) d t)
      (Stopped P X) (brkCleanup func s) := by
  unfold brkCleanup
  split
  · rw [null rfl]
    exact ⟨site, open_append_nil inv⟩
  · rename_i cleanup
    have inner : Open P env site rs (counted rs) (d + 1)
        { s with tstBrkEntered := s.tstBrkEntered + 1 } :=
      ⟨⟨inv.reported, inv.count, congrArg (· + 1) inv.entered, inv.bits, inv.tcid, inv.testErrno,
        inv.file, inv.held⟩, inv.opened⟩
    refine ensures_bind (keeps cleanup rfl site rs _ inner fine) ?_
    rintro t ⟨last, open_⟩
    have outer : t.tstBrkEntered - 1 = d := by rw [open_.entered, Nat.add_sub_cancel]
    exact ⟨last, ⟨open_.reported, open_.count, outer, open_.bits, open_.tcid, open_.testErrno,
      open_.file, open_.held⟩, open_.opened⟩

theorem brk_step (total : Nat) (js : List Job) {func : Option (State → Outcome)} {ttype : CInt}
    {fname : Option Str} {mesg : Str} {Q : State → Prop} {fuel : Nat}
    (inv : Inv P env site rs (counted rs) d s)
    (opened : P → isBrkType ttype = false → s.tOut ≠ none)
    (null : func = none → js = [])
    (keeps : ∀ cleanup, func = some cleanup → Keeps P X env total (d + 1) js cleanup)
    (fine : P → Fine env total (warning site ttype ++ ⟨site, brkType ttype, fname, mesg⟩ ::
      ((if d = 0 then remaining site (ttypeResult ttype) (brkType ttype) else []) ++ js))
      (counted rs))
    (ends : ∀ last t rs', rs' = rs ++ reports (warning site ttype ++ ⟨site, brkType ttype, fname, mesg⟩ ::
        ((if d = 0 then remaining site (ttypeResult ttype) (brkType ttype) else []) ++ js)) →
      Open P env last rs' (counted rs') d t → Ensures Q (Stopped P X)
        (if t.tstBrkEntered = 0 then tstExit env (fuel + 1) t else .ok t)) :
    Ensures Q (Stopped P X) (tstBrk env (fuel + 1) ttype fname func mesg s) := by
  unfold tstBrk
  by_cases empty : expandVarArgs mesg = []
  · rw [if_pos empty]
    intro p
    exact ((fine p).good ⟨site, brkType ttype, fname, mesg⟩ (by simp)).message
      (by simpa [expandVarArgs, userMesg] using empty)
  · rw [if_neg empty]
    generalize remains : (if d = 0 then remaining site (ttypeResult ttype) (brkType ttype)
      else []) = rest at fine ends
    refine ensures_bind (warn_step inv ttype opened (fun p => (fine p).append.1) fuel) ?_
    intro t₁ warned
    have fine₁ := fun p => (fine p).append.2
    rw [← counted_append, ← List.singleton_append] at fine₁
    refine ensures_bind (res_step_expanded warned (brkType ttype) fname mesg
      (fun p => (fine₁ p).append.1) fuel) ?_
    intro t₂ resulted
    have fine₂ := fun p => (fine₁ p).append.2
    rw [← counted_append] at fine₂
    subst remains
    refine ensures_bind (remaining_step resulted (ttypeResult ttype) (brkType ttype)
      (fun p => (fine₂ p).append.1) fuel) ?_
    intro t₃ remained
    have fine₃ := fun p => (fine₂ p).append.2
    rw [← counted_append] at fine₃
    refine ensures_bind (cleanup_step remained null keeps fine₃) ?_
    rintro t₄ ⟨last, cleaned⟩
    refine ends last t₄ _ ?_ cleaned
    simp [reports, List.append_assoc]

theorem visit_inv (inv : Inv P env site rs n d s) (here : Site) :
    Inv P env here rs n d (s.visit here) :=
  ⟨inv.reported, inv.count, inv.entered, inv.bits, rfl, rfl, inv.file, inv.held⟩

theorem visit_open (inv : Open P env site rs n d s) (here : Site) :
    Open P env here rs n d (s.visit here) :=
  ⟨visit_inv inv.toInv here, inv.opened⟩

theorem resm_step {total : Nat} (inv : Inv P env site rs (counted rs) d s) (ttype : CInt)
    (mesg : Str) (fine : P → Fine env total [⟨site, ttype, none, mesg⟩] (counted rs))
    (fuel : Nat) :
    Ensures (Open P env site (rs ++ reports [⟨site, ttype, none, mesg⟩])
        (counted (rs ++ reports [⟨site, ttype, none, mesg⟩])) d) (Stopped P X)
      (tstResm env (fuel + 1) ttype mesg s) := by
  unfold tstResm
  by_cases empty : expandVarArgs mesg = []
  · rw [if_pos empty]
    intro p
    exact ((fine p).good ⟨site, ttype, none, mesg⟩ (by simp)).message
      (by simpa [expandVarArgs, userMesg] using empty)
  · rw [if_neg empty]
    exact res_step_expanded inv ttype none mesg fine fuel

theorem keeps_bind {total : Nat} (js : List Job) {js' : List Job} {call next : State → Outcome}
    (first : Keeps P X env total d js call) (rest : Keeps P X env total d js' next) :
    Keeps P X env total d (js ++ js') (fun t => (call t).bind next) := by
  intro site rs t open_ fine
  refine ensures_bind (first site rs t open_ fun p => (fine p).append.1) ?_
  rintro u ⟨here, reached⟩
  have fineRest := fun p => (fine p).append.2
  rw [← counted_append] at fineRest
  have after := rest here _ u reached fineRest
  rwa [List.append_assoc, reports, reports, ← List.map_append] at after

theorem keeps_run {total : Nat} (fuel : Nat) (calls : Calls) : ∀ d,
    Keeps P X env total (d + 1) (jobs ttypeResult true calls) (runCalls env (fuel + 1) calls) := by
  induction calls with
  | done =>
    intro d site rs t open_ _
    exact ⟨site, open_append_nil open_⟩
  | res here ttype fname mesg next ih =>
    intro d
    refine keeps_bind [⟨here, ttype, fname, mesg⟩] ?_ (ih d)
    intro site rs t open_ fine
    exact ensures_value (res_step (visit_inv open_.toInv here) ttype fname mesg fine fuel)
      fun u reached => ⟨here, reached⟩
  | resm here ttype mesg next ih =>
    intro d
    refine keeps_bind [⟨here, ttype, none, mesg⟩] ?_ (ih d)
    intro site rs t open_ fine
    exact ensures_value (resm_step (visit_inv open_.toInv here) ttype mesg fine fuel)
      fun u reached => ⟨here, reached⟩
  | brk here ttype fname mesg func cleanup next ihCleanup ihNext =>
    intro d
    have whole : jobs ttypeResult true (.brk here ttype fname mesg func cleanup next) =
        (warning here ttype ++ ⟨here, brkType ttype, fname, mesg⟩ ::
          (if func then jobs ttypeResult true cleanup else [])) ++ jobs ttypeResult true next := by
      simp [jobs]
    rw [whole]
    refine keeps_bind _ ?_ (ihNext d)
    intro site rs t open_ fine
    have visited := visit_open open_ here
    refine brk_step total (if func then jobs ttypeResult true cleanup else [])
      visited.toInv (fun p _ => visited.opened p) ?_ ?_ ?_ ?_
    · cases func <;> simp
    · intro cleanup' given
      cases func with
      | false => cases given
      | true =>
        obtain rfl := Option.some.inj given
        exact ihCleanup (d + 1)
    · simpa only [Nat.succ_ne_zero, if_false, List.nil_append] using fine
    · intro last u rs' all reached
      have inside : u.tstBrkEntered ≠ 0 := by
        rw [reached.entered]
        exact Nat.succ_ne_zero d
      rw [if_neg inside]
      simp only [Nat.succ_ne_zero, if_false, List.nil_append] at all
      rw [all] at reached
      exact ⟨last, reached⟩

theorem run_outermost (total : Nat) {R : List Report} (fuel : Nat) (calls : Calls) : ∀ site rs s,
    Inv P env site rs (counted rs) 0 s → rs ++ reports (jobs ttypeResult false calls) = R →
    (P → Fine env total (jobs ttypeResult false calls) (counted rs)) →
    (P → OutermostSupported calls) →
    Ensures (fun t => ∃ last, Inv P env last R (counted R) 0 t) (Stopped P (Exits R))
      (runCalls env (fuel + 1) calls s) := by
  induction calls with
  | done =>
    intro site rs s inv all _ _
    simp only [jobs, reports, List.map_nil, List.append_nil] at all
    exact ⟨site, all ▸ inv⟩
  | res here ttype fname mesg next ih =>
    intro site rs s inv all fine supported
    simp only [jobs] at all fine
    rw [← List.singleton_append] at all fine
    refine ensures_bind (res_step (visit_inv inv here) ttype fname mesg
      (fun p => (fine p).append.1) fuel) ?_
    intro t reached
    have fineNext := fun p => (fine p).append.2
    rw [← counted_append] at fineNext
    refine ih here _ t reached.toInv ?_ fineNext supported
    rw [← all, List.append_assoc, reports, reports, ← List.map_append, reports]
  | resm here ttype mesg next ih =>
    intro site rs s inv all fine supported
    simp only [jobs] at all fine
    rw [← List.singleton_append] at all fine
    refine ensures_bind (resm_step (visit_inv inv here) ttype mesg
      (fun p => (fine p).append.1) fuel) ?_
    intro t reached
    have fineNext := fun p => (fine p).append.2
    rw [← counted_append] at fineNext
    refine ih here _ t reached.toInv ?_ fineNext supported
    rw [← all, List.append_assoc, reports, reports, ← List.map_append, reports]
  | brk here ttype fname mesg func cleanup next _ _ =>
    intro site rs s inv all fine supported
    simp only [jobs, Bool.false_eq_true, if_false, List.append_nil] at all fine
    have ended : Ensures (fun _ => False) (Stopped P (Exits R)) (tstBrk env (fuel + 1) ttype fname
        (if func then some (runCalls env (fuel + 1) cleanup) else none) mesg (s.visit here)) := by
      refine brk_step total (if func then jobs ttypeResult true cleanup else [])
        (visit_inv inv here) ?_ ?_ ?_ fine ?_
      · intro p unsupported
        exact absurd ((supported p).symm.trans unsupported) (by decide)
      · cases func <;> simp
      · intro cleanup' given
        cases func with
        | false => cases given
        | true =>
          obtain rfl := Option.some.inj given
          exact keeps_run fuel cleanup 0
      · intro last t rs' reported reached
        obtain rfl : rs' = R := reported.trans all
        rw [if_pos reached.entered]
        exact exit_account reached.toInv fuel
    exact ensures_bind ended fun t impossible => impossible.elim

end account

theorem init_inv (P : Prop) (env : Env) (tcid : Str) :
    Inv P env ⟨tcid, 0, 0⟩ [] (counted []) 0 (init tcid) := by
  refine ⟨rfl, rfl, rfl, ?_, rfl, rfl, ?_, ?_⟩
  · intro i
    simp [init]
  · intro _ name named
    cases named
  · intro last held
    cases held

theorem run_test {env : Env} {calls : Calls} (fuel : Nat) (tcid : Str) :
    Ensures (fun _ => False)
      (Stopped (Printable env calls ∧ OutermostSupported calls)
        (Exits (reports (jobs ttypeResult false calls))))
      (runTest env (fuel + 1) tcid calls) := by
  unfold runTest
  refine ensures_bind (run_outermost (jobs ttypeResult false calls).length fuel calls _ _ _
    (init_inv _ env tcid) (List.nil_append _) ?_
    And.right) ?_
  · rintro ⟨printable, _⟩
    exact ⟨printable, by simp [counted]⟩
  · rintro t ⟨last, reached⟩
    exact exit_account reached fuel

theorem jobs_nested (tested tested' : CInt → CInt) (calls : Calls) :
    jobs tested true calls = jobs tested' true calls := by
  induction calls with
  | done => rfl
  | res _ _ _ _ _ ih => simp only [jobs, ih]
  | resm _ _ _ _ ih => simp only [jobs, ih]
  | brk _ _ _ _ _ _ _ ihCleanup ihNext => simp only [jobs, ihCleanup, ihNext, if_true]

theorem unsupported_broken {ttype : CInt} (unsupported : isBrkType ttype = false) :
    ttypeResult (brkType ttype) = tBrok := by
  have cleared : ttype &&& ~~~ (ttype &&& ttypeMask) &&& ttypeMask = 0#32 := by
    rw [BitVec.and_assoc, BitVec.and_comm (~~~ _), ← BitVec.and_assoc]
    exact BitVec.and_not_self _
  have kept : tBrok &&& ttypeMask = tBrok := by decide
  simp only [brkType, unsupported, Bool.false_eq_true, if_false, ttypeResult]
  rw [BitVec.and_or_distrib_right, cleared, kept, BitVec.zero_or]

theorem unsupported_remaining {site : Site} {ttype ttype' : CInt}
    (unsupported : isBrkType ttype = false) : remaining site (ttypeResult ttype) ttype' = [] := by
  simp only [isBrkType, decide_eq_false_iff_not, not_or] at unsupported
  obtain ⟨_, brok, conf, retr⟩ := unsupported
  simp [remaining, brok, conf, retr]

theorem documented_iff (calls : Calls) :
    documented calls = reports (jobs ttypeResult false calls) ↔ OutermostSupported calls := by
  unfold documented reports
  induction calls with
  | done => simp [jobs, OutermostSupported]
  | res _ _ _ _ _ ih => simpa [jobs, OutermostSupported] using ih
  | resm _ _ _ _ ih => simpa [jobs, OutermostSupported] using ih
  | brk here ttype fname mesg func cleanup next _ _ =>
    rw [OutermostSupported]
    constructor
    · intro same
      by_contra other
      have unsupported : isBrkType ttype = false := by simpa using other
      have lengths := congrArg List.length same
      simp only [jobs, jobs_nested _ ttypeResult cleanup, unsupported_broken unsupported,
        unsupported_remaining unsupported, Bool.false_eq_true, if_false, List.map_append,
        List.map_cons, List.length_append, List.length_cons] at lengths
      simp [remaining, tBrok, tConf, tRetr] at lengths
    · intro supported
      have same : brkType ttype = ttype := by simp [brkType, supported]
      simp only [jobs, same, jobs_nested _ ttypeResult cleanup, Bool.false_eq_true, if_false]

theorem exits_unique {rs : List Report} {status status' : CInt} {s s' : State}
    (exits : Exits rs status s) (exits' : Exits rs status' s') : status = status' := by
  apply BitVec.eq_of_getLsbD_eq
  intro i _
  rw [Bool.eq_iff_iff, exits.status i, exits'.status i]

theorem printable_toutput {env : Env} {calls : Calls} (printable : Printable env calls)
    (toutput : Option Str) : Printable { env with toutput := toutput } calls := by
  intro j mem
  obtain ⟨message, file, line⟩ := printable j mem
  exact ⟨message, file, line⟩

theorem runs_to_exit {env : Env} {calls : Calls} (printable : Printable env calls)
    (supported : OutermostSupported calls) (tcid : Str) {fuel : Nat} (enough : 1 ≤ fuel) :
    ∃ status s, runTest env fuel tcid calls = .error (.exit status s) ∧ Exits (documented calls) status s := by
  obtain ⟨fuel, rfl⟩ := Nat.exists_eq_add_of_le' enough
  have result := @run_test env calls fuel tcid
  rw [(documented_iff calls).mpr supported]
  cases run : runTest env (fuel + 1) tcid calls with
  | ok s =>
    rw [run] at result
    exact absurd result id
  | error stop =>
    rw [run] at result
    cases stop with
    | exit status s => exact ⟨status, s, rfl, result⟩
    | abort s => exact absurd ⟨printable, supported⟩ result
    | undefined => exact absurd ⟨printable, supported⟩ result
    | deep => exact absurd ⟨printable, supported⟩ result

theorem exit_documented {env : Env} {calls : Calls} {fuel : Nat} {tcid : Str} {status : CInt}
    {s : State} (run : runTest env (fuel + 1) tcid calls = .error (.exit status s)) :
    Exits (documented calls) status s ↔ OutermostSupported calls := by
  have result := @run_test env calls fuel tcid
  rw [run] at result
  constructor
  · intro exits
    exact (documented_iff calls).mp (exits.reported.symm.trans result.reported)
  · intro supported
    rw [(documented_iff calls).mpr supported]
    exact result

/-- A test is accounted for as documented in every mode exactly when the `tst_brk` that ends it
    has a supported type, as long as its results can be printed. -/
theorem accounting_when_supported (env : Env) (tcid : Str) (calls : Calls) :
    (Accounting env tcid calls → OutermostSupported calls) ∧
      (Printable env calls → OutermostSupported calls → Accounting env tcid calls) ∧
      ∀ fuel toutput status s, runTest { env with toutput := toutput } (fuel + 1) tcid calls = .error (.exit status s) →
        (Exits (documented calls) status s ↔ OutermostSupported calls) := by
  refine ⟨?_, ?_, fun fuel toutput status s run => exit_documented run⟩
  · rintro ⟨enough, status, runs⟩
    obtain ⟨s, run, exits⟩ := runs (enough + 1) none (Nat.le_succ _)
    exact (exit_documented run).mp exits
  · intro printable supported
    obtain ⟨status, first, _, exits⟩ := runs_to_exit printable supported tcid (Nat.le_refl 1)
    refine ⟨1, status, ?_⟩
    intro fuel toutput enough
    obtain ⟨status', s, run, exits'⟩ := runs_to_exit (printable_toutput printable toutput) supported
      tcid enough
    obtain rfl := exits_unique exits exits'
    exact ⟨s, run, exits'⟩

/-- After a passed case, `tst_brk` with `TPASS`. -/
def passThenBrkPass : Calls :=
  .resm ⟨"t".toList, 0, 0⟩ tPass "ok".toList
    (.brk ⟨"t".toList, 0, 0⟩ tPass none "stop".toList false .done .done)

def plainEnv : Env := ⟨none, fun _ => .missing 2, fun _ => []⟩

/-- The result for the remaining cases is chosen by the type before the substitution, so it is
    missing after a type that is treated as `TBROK`. -/
theorem substituted_type_not_followed :
    documented passThenBrkPass = [⟨tPass, "ok".toList⟩, ⟨tWarn, invalidType tPass⟩,
      ⟨tBrok, "stop".toList⟩, ⟨tBrok, remainingBroken⟩] ∧
    (∃ s, runTest plainEnv 1 "t".toList passThenBrkPass = .error (.exit 6 s) ∧
      s.reported = [⟨tPass, "ok".toList⟩, ⟨tWarn, invalidType tPass⟩, ⟨tBrok, "stop".toList⟩] ∧
      s.tstCount = 2) ∧
    ¬ Accounting plainEnv "t".toList passThenBrkPass := by
  refine ⟨by decide, ⟨_, rfl, rfl, rfl⟩, ?_⟩
  rintro ⟨enough, status, runs⟩
  obtain ⟨s, run, exits⟩ := runs (enough + 1) none (Nat.le_succ _)
  have supported : isBrkType tPass = true := (exit_documented run).mp exits
  exact absurd supported (by decide)

end VteTstRes
