import Vte.Lib.TstResAccount

/-!
The files that go with results: the name that `tst_res` leaves in `File` is printed by the next
`tst_print` that is not filtered, and a file that cannot be read makes `cat_file` call `tst_print`
again with the name still there.
-/
namespace VteTstResFiles
open Text VteTstRes Stopping

/-- A call, with TCID, `tst_count`, `errno` and TEST_ERRNO as the test has left them. -/
structure Call where
  ttype : CInt
  fname : Option Str
  mesg : Str
  tcid : Str
  count : Int
  errno : CInt
  testErrno : CInt

/-- `tst_resm` is `tst_res` without a file. -/
inductive Event where
  | res (c : Call)
  | flush

section calls
variable (env : Env) (fuel : Nat)

def called (c : Call) (s : State) : State :=
  { s with tcid := c.tcid, tstCount := c.count, errno := c.errno, testErrno := c.testErrno }

def entered (c : Call) (s : State) : State :=
  (attach env c.fname (checkEnv env { called c s with
    exitval := s.exitval ||| ttypeResult c.ttype
    tOut := some (s.tOut.getD []) })).report (ttypeResult c.ttype) (expandVarArgs c.mesg)

def Event.run : Event → State → Outcome
  | .res c, s => tstRes env fuel c.ttype c.fname c.mesg (called c s)
  | .flush, s => tstFlush env fuel s

end calls

section texts
variable (env : Env)

def contents : Option Str → Str
  | none => []
  | some name =>
    match env.fs name with
    | .readable text => text
    | _ => []

def plainLine (s : State) (tcid : Str) (num : Int) (ttype : CInt) (mesg : Str) : Str :=
  composed env s tcid num ttype mesg ++ ['\n']

def invalidCount : Str := "tst_res(): tst_count < 0 is not valid".toList

def warningLine (s : State) : Str := plainLine env s s.tcid 0 tWarn invalidCount

def heldLine (s : State) : Str :=
  match s.buffered with
  | none => []
  | some last => plainLine env s last.tcid last.num last.type last.mesg

def ownLine (c : Call) (s : State) : Str :=
  plainLine env s s.tcid (if isCounted (ttypeResult c.ttype) then c.count + 1 else 0) c.ttype
    (expandVarArgs c.mesg) ++ contents env c.fname

/-- What an event may put on the output: the warning, the line held back and the event's own, in this
    order; a file only behind the line of the result it was passed with. -/
def Prints (e : Event) (s t : State) : Prop :=
  match e with
  | .res c => ∃ warned held own : Bool, t.tOut = some (s.tOut.getD [] ++
      ((if warned then warningLine env (entered env c s) else []) ++
        ((if held then heldLine env (entered env c s) else []) ++
          if own then ownLine env c (entered env c s) else [])))
  | .flush => ∃ held : Bool, t.tOut.getD [] = s.tOut.getD [] ++ if held then heldLine env s else []

end texts

/-- The process stops by `abort` or `exit`: not by a recursion without end, and not by writing where it
    must not. -/
def Clean : Stop → Prop
  | .exit _ _ | .abort _ => True
  | .undefined | .deep => False

def AllRight (env : Env) (fuel : Nat) : List Event → State → Prop
  | [], _ => True
  | e :: events, s => Ensures (Prints env e s) Clean (e.run env fuel s) ∧
      ∀ t, e.run env fuel s = .ok t → AllRight env fuel events t

/-- When the call's own line is printed with a name in `File`, it is the name of the call's own file,
    which can be read; and the warning about `tst_count` is not printed with a name there. -/
structure CallOk (env : Env) (c : Call) (s : State) : Prop where
  own : ∀ name, s.file = some name → isPrinted s.mode c.ttype = true →
    c.fname = some name ∧ ∃ text, env.fs name = .readable text
  warning : s.file ≠ none → isCounted (ttypeResult c.ttype) = true → s.mode ≠ .discard → 0 ≤ c.count

/-- No name is left in `File` when `tst_flush` prints the result held back. -/
def FlushOk (s : State) : Prop :=
  s.mode = .nopass → ∀ last, s.buffered = some last → isPrinted .nopass last.type = true → s.file = none

def EventOk (env : Env) : Event → State → Prop
  | .res c, s => CallOk env c (entered env c s)
  | .flush, s => FlushOk s

def AllOk (env : Env) (fuel : Nat) : List Event → State → Prop
  | [], _ => True
  | e :: events, s => EventOk env e s ∧ ∀ t, e.run env fuel s = .ok t → AllOk env fuel events t

section printing
variable {env : Env} {s t u : State} {out text : Str}

/-- Neither what decides how results are printed nor the name in `File` has changed. -/
structure Keeps (s t : State) : Prop where
  mode : t.mode = s.mode
  errno : t.errno = s.errno
  testErrno : t.testErrno = s.testErrno
  tcid : t.tcid = s.tcid
  buffered : t.buffered = s.buffered
  file : t.file = s.file
  count : t.tstCount = s.tstCount

/-- Some text has been put on the output, and nothing else has changed that matters. -/
structure Wrote (s t : State) (out text : Str) : Prop extends Keeps s t where
  out : t.tOut = some (out ++ text)

theorem keeps_refl (s : State) : Keeps s s := ⟨rfl, rfl, rfl, rfl, rfl, rfl, rfl⟩

theorem plain_line_keeps (keeps : Keeps s t) (tcid : Str) (num : Int) (ttype : CInt) (mesg : Str) :
    plainLine env t tcid num ttype mesg = plainLine env s tcid num ttype mesg := by
  rw [plainLine, plainLine, composed, composed, keeps.mode, keeps.errno, keeps.testErrno]

theorem print_plain (env : Env) (s : State) (no_file : s.file = none) (opened : s.tOut = some out)
    (fuel : Nat) (tcid : Str) (num : Int) (ttype : CInt) (mesg : Str) :
    Ensures (fun t => ∃ shown : Bool, Wrote s t out
        (if shown then plainLine env s tcid num ttype mesg else [])) Clean
      (tstPrint env (fuel + 1) tcid num ttype mesg s) := by
  by_cases printed : isPrinted s.mode ttype = true
  · by_cases long : userMesg ≤ (composed env s tcid num ttype mesg).length + 1
    · rw [print_too_long printed long]
      trivial
    · rw [print_short printed long]
      simp only [fputs, opened, Except.bind, appendFile, no_file]
      exact ⟨true, ⟨rfl, rfl, rfl, rfl, rfl, no_file.symm, rfl⟩, rfl⟩
  · rw [print_filtered_out (by simpa using printed)]
    exact ⟨false, ⟨rfl, rfl, rfl, rfl, rfl, rfl, rfl⟩, by simp [opened]⟩

theorem print_file (opened : s.tOut = some out) (fuel : Nat) {tcid : Str} {num : Int} {ttype : CInt}
    {mesg : Str} (fine : isPrinted s.mode ttype = true → FileOk env s) :
    Ensures (fun t => t.tOut = some (out ++ if isPrinted s.mode ttype then
        plainLine env s tcid num ttype mesg ++ contents env s.file else [])) Clean
      (tstPrint env (fuel + 1) tcid num ttype mesg s) := by
  by_cases printed : isPrinted s.mode ttype = true
  · by_cases long : userMesg ≤ (composed env s tcid num ttype mesg).length + 1
    · rw [print_too_long printed long]
      trivial
    · rw [print_short printed long, if_pos printed]
      cases file : s.file with
      | none =>
        simp only [fputs, opened, Except.bind, appendFile]
        simp [Ensures, plainLine, contents]
      | some name =>
        obtain ⟨text, status⟩ := fine printed name file
        simp only [fputs, opened, Except.bind, appendFile, catFile, status]
        simp [Ensures, plainLine, contents, status]
  · rw [print_filtered_out (by simpa using printed), if_neg printed]
    simp [Ensures, opened]

theorem hold_shows (s : State) (opened : s.tOut = some out) (fuel : Nat) {num : Int} {ttype : CInt}
    {mesg : Str} (fine : isPrinted s.mode ttype = true → FileOk env s) :
    Ensures (fun t => ∃ own : Bool, (own = true → isPrinted s.mode ttype = true) ∧ t.tOut = some (out ++ if own then
          plainLine env s s.tcid num ttype mesg ++ contents env s.file else [])) Clean
      (tstHold env (fuel + 1) num ttype mesg s) := by
  unfold tstHold
  split
  · exact ⟨false, by simp, by simp [opened]⟩
  · refine ensures_bind (print_file opened fuel fine) ?_
    intro t shown
    exact ⟨isPrinted s.mode ttype, id, shown⟩

theorem condense_shows (opened : s.tOut = some out) (fuel : Nat) {num : Int} {ttype : CInt}
    {mesg : Str} (fine : isPrinted s.mode ttype = true → FileOk env s) :
    Ensures (fun t => ∃ held own : Bool, (own = true → isPrinted s.mode ttype = true) ∧
        t.tOut = some (out ++ ((if held then heldLine env s else []) ++ if own then
          plainLine env s s.tcid num ttype mesg ++ contents env s.file else []))) Clean
      (tstCondense env (fuel + 1) num ttype mesg s) := by
  unfold tstCondense
  split
  · refine ensures_value (hold_shows s opened fuel fine) ?_
    rintro t ⟨own, only, shown⟩
    exact ⟨false, own, only, by simpa using shown⟩
  · rename_i last held
    split
    · exact ⟨false, false, by simp, by simp [opened]⟩
    · refine ensures_bind (print_plain env { s with file := none } rfl opened fuel last.tcid last.num
        last.type last.mesg) ?_
      rintro t ⟨shown, wrote⟩
      have line : heldLine env s = plainLine env s last.tcid last.num last.type last.mesg := by
        rw [heldLine, held]
      have back : Keeps s { t with file := s.file } :=
        ⟨wrote.mode, wrote.errno, wrote.testErrno, wrote.tcid, wrote.buffered, rfl, wrote.count⟩
      have fine' : isPrinted t.mode ttype = true → FileOk env { t with file := s.file } := by
        rw [wrote.mode]
        exact fine
      refine ensures_value (hold_shows { t with file := s.file } wrote.out fuel fine') ?_
      rintro u ⟨own, only, out_eq⟩
      refine ⟨shown, own, fun yes => by simpa [wrote.mode] using only yes, ?_⟩
      have tcid : t.tcid = s.tcid := wrote.tcid
      rw [out_eq, plain_line_keeps back, line]
      simp only [List.append_assoc, tcid]
      rfl

end printing

section steps
variable {env : Env} {c : Call} {s t : State}

theorem entered_form (env : Env) (c : Call) (s : State) :
    (entered env c s).tOut = some (s.tOut.getD []) ∧ (entered env c s).tcid = c.tcid ∧
      (entered env c s).tstCount = c.count := by
  unfold entered
  obtain ⟨first, mode, errno, file, attached, _⟩ := attach_env_form env c.fname { called c s with
    exitval := s.exitval ||| ttypeResult c.ttype
    tOut := some (s.tOut.getD []) }
  rw [attached]
  exact ⟨rfl, rfl, rfl⟩

theorem res_entered (env : Env) (fuel : Nat) (c : Call) (s : State) :
    (Event.res c).run env fuel s =
      if expandVarArgs c.mesg = [] then .error (.abort (called c s))
      else if ttypeResult c.ttype = tWarn ∨ ttypeResult c.ttype = tInfo then
        tstPrint env fuel (entered env c s).tcid 0 c.ttype (expandVarArgs c.mesg) (entered env c s)
      else tstCounted env fuel c.ttype (expandVarArgs c.mesg) (entered env c s) := rfl

/-- The name in `File` is that of the call when the call's line is printed; else nothing is shown of
    the call's file. -/
theorem contents_own (ok : CallOk env c (entered env c s))
    (printed : isPrinted (entered env c s).mode c.ttype = true) :
    contents env (entered env c s).file = contents env c.fname := by
  cases file : (entered env c s).file with
  | some name =>
    obtain ⟨own, _⟩ := ok.own name file printed
    rw [own]
  | none =>
    cases fname : c.fname with
    | none => rfl
    | some name =>
      rw [entered, fname] at file
      unfold attach at file
      cases status : env.fs name with
      | missing err => simp [contents, status]
      | unopenable err => simp [status, State.report] at file
      | unreadable start err => simp [status, State.report] at file
      | readable text => simp [status, State.report] at file

theorem file_ok (ok : CallOk env c (entered env c s))
    (printed : isPrinted (entered env c s).mode c.ttype = true) : FileOk env (entered env c s) :=
  fun name file => (ok.own name file printed).2

theorem counted_bind (env : Env) (fuel : Nat) (ttype : CInt) (tmesg : Str) (s : State) :
    tstCounted env fuel ttype tmesg s =
      (if s.tstCount < 0 then warn (tstPrint env fuel) invalidCount s else .ok s).bind fun s =>
        (byMode env fuel ttype tmesg s).bind fun s =>
          .ok { s with tstCount := s.tstCount + 1 } := by
  unfold tstCounted
  by_cases negative : s.tstCount < 0
  · simp only [if_pos negative]
    rfl
  · simp only [if_neg negative]
    rfl

theorem counted_warns (fuel : Nat) {out : Str} (opened : s.tOut = some out)
    (ok : s.file ≠ none → s.mode ≠ .discard → 0 ≤ s.tstCount) :
    Ensures (fun t => ∃ warned : Bool, Wrote s t out (if warned then warningLine env s else []))
      Clean (if s.tstCount < 0 then warn (tstPrint env (fuel + 1)) invalidCount s else .ok s) := by
  split
  · rename_i negative
    have short : invalidCount.length < maxMesg := by decide
    rw [warn, if_pos short]
    by_cases no_file : s.file = none
    · refine ensures_value (print_plain env (s.report tWarn invalidCount) no_file opened fuel s.tcid 0
        tWarn invalidCount) ?_
      rintro t ⟨shown, wrote⟩
      exact ⟨shown, ⟨wrote.mode, wrote.errno, wrote.testErrno, wrote.tcid, wrote.buffered,
        wrote.file, wrote.count⟩, wrote.out⟩
    · have discard : s.mode = .discard := by
        by_contra other
        have := ok no_file other
        omega
      have filtered : isPrinted (s.report tWarn invalidCount).mode tWarn = false := by
        rw [State.report, discard]
        rfl
      rw [print_filtered_out filtered]
      exact ⟨false, ⟨rfl, rfl, rfl, rfl, rfl, rfl, rfl⟩, by simp [State.report, opened]⟩
  · exact ⟨false, keeps_refl s, by simp [opened]⟩

theorem by_mode_shows (fuel : Nat) {out : Str} {ttype : CInt} {mesg : Str}
    (opened : s.tOut = some out) (fine : isPrinted s.mode ttype = true → FileOk env s) :
    Ensures (fun t => ∃ held own : Bool, (own = true → isPrinted s.mode ttype = true) ∧
        t.tOut = some (out ++ ((if held then heldLine env s else []) ++ if own then
          plainLine env s s.tcid (s.tstCount + 1) ttype mesg ++ contents env s.file else []))) Clean
      (byMode env (fuel + 1) ttype mesg s) := by
  unfold byMode
  split
  · exact ⟨false, false, by simp, by simp [opened]⟩
  · exact condense_shows opened fuel fine
  · refine ensures_value (print_file opened fuel fine) ?_
    intro t shown
    exact ⟨false, isPrinted s.mode ttype, id, by simpa using shown⟩

theorem res_prints (fuel : Nat) (ok : CallOk env c (entered env c s)) :
    Ensures (Prints env (.res c) s) Clean ((Event.res c).run env (fuel + 1) s) := by
  obtain ⟨opened, tcid, count⟩ := entered_form env c s
  rw [res_entered]
  split
  · trivial
  · split
    · rename_i uncounted
      have number : isCounted (ttypeResult c.ttype) = false := by
        rcases uncounted with warn | info
        · simp [isCounted, warn]
        · simp [isCounted, info]
      refine ensures_value (print_file opened fuel (file_ok ok)) ?_
      intro t shown
      refine ⟨false, false, isPrinted (entered env c s).mode c.ttype, ?_⟩
      rw [shown, ownLine, number]
      by_cases printed : isPrinted (entered env c s).mode c.ttype = true
      · simp [printed, contents_own ok printed]
      · simp [printed]
    · rename_i some_count
      have number : isCounted (ttypeResult c.ttype) = true := by
        simpa [isCounted] using some_count
      rw [counted_bind]
      refine ensures_bind (counted_warns fuel opened fun file mode => ?_) ?_
      · rw [count]
        exact ok.warning file number mode
      rintro t ⟨warned, wrote⟩
      have fine : isPrinted t.mode c.ttype = true → FileOk env t := by
        intro printed name file
        rw [wrote.mode] at printed
        rw [wrote.file] at file
        exact file_ok ok printed name file
      refine ensures_bind (by_mode_shows fuel wrote.out fine) ?_
      rintro u ⟨held, own, only, shown⟩
      refine ⟨warned, held, own, ?_⟩
      have held_same : heldLine env t = heldLine env (entered env c s) := by
        rw [heldLine, heldLine, wrote.buffered]
        split
        · rfl
        · exact plain_line_keeps wrote.toKeeps _ _ _ _
      change u.tOut = _
      rw [shown, held_same, plain_line_keeps wrote.toKeeps, wrote.file, wrote.tcid, wrote.count, count, ownLine, number]
      simp only [List.append_assoc, if_true]
      cases own with
      | false => rfl
      | true =>
        have printed := only rfl
        rw [wrote.mode] at printed
        rw [contents_own ok printed]

theorem flush_prints (fuel : Nat) (ok : FlushOk s) (opened : s.buffered ≠ none → s.tOut ≠ none) :
    Ensures (Prints env .flush s) Clean (Event.flush.run env (fuel + 1) s) := by
  have same : Prints env .flush s s := ⟨false, by simp⟩
  change Ensures _ _ (tstFlush env (fuel + 1) s)
  unfold tstFlush
  split
  · exact same
  · rename_i last held
    split
    · rename_i nopass
      obtain ⟨out, stream⟩ := Option.ne_none_iff_exists'.mp (opened (by simp [held]))
      have line : heldLine env s = plainLine env s last.tcid last.num last.type last.mesg := by
        rw [heldLine, held]
      by_cases printed : isPrinted .nopass last.type = true
      · refine ensures_bind (print_plain env s (ok nopass last held printed) stream fuel last.tcid
          last.num last.type last.mesg) ?_
        rintro t ⟨shown, wrote⟩
        refine ⟨shown, ?_⟩
        change t.tOut.getD [] = _
        rw [wrote.out, stream, line]
        rfl
      · rw [print_filtered_out (by rw [nopass]; simpa using printed)]
        exact same
    · exact same

def Opened (s : State) : Prop := s.buffered ≠ none → s.tOut ≠ none

theorem event_opened {e : Event} {fuel : Nat} (opened : Opened s)
    (prints : Ensures (Prints env e s) Clean (e.run env fuel s))
    (run : e.run env fuel s = .ok t) : Opened t := by
  rw [run] at prints
  cases e with
  | res c =>
    obtain ⟨warned, held, own, out⟩ := prints
    intro _
    rw [out]
    simp
  | flush =>
    change tstFlush env fuel s = .ok t at run
    unfold tstFlush at run
    split at run
    · obtain rfl := Except.ok.inj run
      exact opened
    · split at run
      · rename_i last held nopass
        cases printed : tstPrint env fuel last.tcid last.num last.type last.mesg s with
        | error e =>
          rw [printed] at run
          cases run
        | ok u =>
          rw [printed] at run
          obtain rfl := Except.ok.inj run
          exact fun held => absurd rfl held
      · obtain rfl := Except.ok.inj run
        exact opened

theorem run_right (fuel : Nat) (events : List Event) : ∀ s, Opened s →
    AllOk env (fuel + 1) events s → AllRight env (fuel + 1) events s := by
  induction events with
  | nil => exact fun _ _ _ => trivial
  | cons e events ih =>
    rintro s opened ⟨ok, rest⟩
    have prints : Ensures (Prints env e s) Clean (e.run env (fuel + 1) s) := by
      cases e with
      | res c => exact res_prints fuel ok
      | flush => exact flush_prints fuel ok opened
    exact ⟨prints, fun t run => ih t (event_opened opened prints run) (rest t run)⟩

end steps

/-- The warning of `cat_file` about a file that cannot be opened, or not be read to its end. -/
def failureText (env : Env) (name : Str) : Option Str :=
  match env.fs name with
  | .missing err | .unopenable err =>
    some ("tst_res(): fopen(".toList ++ name ++ ", \"r\") failed; errno = ".toList ++
      decimal err.toInt ++ ": ".toList ++ env.strerror err)
  | .unreadable _ err =>
    some ("tst_res(): While trying to cat \"".toList ++ name ++
      "\", fread() failed, errno = ".toList ++ decimal err.toInt ++ ": ".toList ++
      env.strerror err)
  | .readable _ => none

/-- The line is printed with the name of a file in `File` that cannot be read, and the warning about it
    fits `Warn_mesg` and a line. -/
structure Loops (env : Env) (s : State) (tcid : Str) (num : Int) (ttype : CInt) (mesg : Str) :
    Prop where
  printed : isPrinted s.mode ttype = true
  short : (composed env s tcid num ttype mesg).length + 1 < userMesg
  opened : s.tOut ≠ none
  failure : ∃ name text, s.file = some name ∧ failureText env name = some text ∧
    text.length < maxMesg ∧ (resultLine s.mode s.tcid 0 tWarn text).length + 1 < userMesg

section termination
variable {env : Env} {s : State} {name text : Str}

theorem cat_failure (failure : failureText env name = some text) (opened : s.tOut ≠ none)
    (print : Str → Int → CInt → Str → State → Outcome) :
    ∃ u, catFile env print name s = warn print text u ∧ Keeps s { u with errno := s.errno } ∧ u.tOut ≠ none := by
  obtain ⟨out, stream⟩ := Option.ne_none_iff_exists'.mp opened
  unfold failureText at failure
  unfold catFile
  cases status : env.fs name with
  | missing err =>
    rw [status] at failure
    obtain rfl := Option.some.inj failure
    exact ⟨_, rfl, ⟨rfl, rfl, rfl, rfl, rfl, rfl, rfl⟩, opened⟩
  | unopenable err =>
    rw [status] at failure
    obtain rfl := Option.some.inj failure
    exact ⟨_, rfl, ⟨rfl, rfl, rfl, rfl, rfl, rfl, rfl⟩, opened⟩
  | unreadable start err =>
    rw [status] at failure
    obtain rfl := Option.some.inj failure
    simp only [fputs, stream]
    exact ⟨_, rfl, ⟨rfl, rfl, rfl, rfl, rfl, rfl, rfl⟩, by simp⟩
  | readable text =>
    rw [status] at failure
    cases failure

theorem warning_line (env : Env) (s : State) (mesg : Str) :
    composed env s s.tcid 0 tWarn mesg = resultLine s.mode s.tcid 0 tWarn mesg := by
  have flagless : tWarn &&& tErrno = 0 ∧ tWarn &&& tTErrno = 0 := by decide
  rw [composed, no_errno_suffix env _ _ flagless, List.append_nil]

def lineDone (env : Env) (s : State) (tcid : Str) (num : Int) (ttype : CInt) (mesg out : Str) : State :=
  { s with
    exitval := s.exitval ||| ttypeResult ttype
    tOut := some (out ++ (composed env s tcid num ttype mesg ++ ['\n'])) }

theorem print_deep_iff {tcid mesg out : Str} {num : Int} {ttype : CInt}
    (printed : isPrinted s.mode ttype = true)
    (short : ¬ userMesg ≤ (composed env s tcid num ttype mesg).length + 1) (stream : s.tOut = some out)
    (fuel : Nat) :
    tstPrint env (fuel + 1) tcid num ttype mesg s = .error .deep ↔
      appendFile env fuel (lineDone env s tcid num ttype mesg out) = .error .deep := by
  rw [print_short printed short]
  simp only [fputs, stream]
  change (appendFile env fuel (lineDone env s tcid num ttype mesg out)).bind _ = _ ↔ _
  cases appendFile env fuel (lineDone env s tcid num ttype mesg out) with
  | ok u => exact ⟨by rintro ⟨⟩, by rintro ⟨⟩⟩
  | error e => exact Iff.rfl

theorem append_deep_iff {t : State} (file : t.file = some name)
    (failure : failureText env name = some text) (opened : t.tOut ≠ none) (fuel : Nat) :
    ∃ u : State, Keeps t { u with errno := t.errno } ∧ u.tOut ≠ none ∧
      (appendFile env fuel t = .error .deep ↔ text.length < maxMesg ∧
        tstPrint env fuel u.tcid 0 tWarn text (u.report tWarn text) = .error .deep) := by
  obtain ⟨u, fails, keeps, still⟩ := cat_failure failure opened (tstPrint env fuel)
  refine ⟨u, keeps, still, ?_⟩
  rw [appendFile, file]
  dsimp only
  rw [fails, warn]
  split
  · rename_i small
    exact ⟨fun deep => ⟨small, deep⟩, And.right⟩
  · rename_i large
    exact ⟨by rintro ⟨⟩, fun both => absurd both.1 large⟩

theorem readable_not_deep {t : State} (file : t.file = some name) (failure : failureText env name = none)
    (opened : t.tOut ≠ none) (fuel : Nat) : appendFile env fuel t ≠ .error .deep := by
  obtain ⟨out, stream⟩ := Option.ne_none_iff_exists'.mp opened
  rw [appendFile, file]
  unfold failureText at failure
  cases status : env.fs name with
  | readable text => simp [catFile, status, fputs, stream]
  | missing err => simp [status] at failure
  | unopenable err => simp [status] at failure
  | unreadable start err => simp [status] at failure

section warned
variable {t u : State}

theorem warned_line (mode : u.mode = s.mode) (tcid : u.tcid = s.tcid) :
    composed env (u.report tWarn text) u.tcid 0 tWarn text = resultLine s.mode s.tcid 0 tWarn text := by
  have line := warning_line env (u.report tWarn text) text
  change composed env (u.report tWarn text) u.tcid 0 tWarn text = resultLine u.mode u.tcid 0 tWarn text at line
  rw [line, mode, tcid]

theorem warned_printed {ttype : CInt} (printed : isPrinted s.mode ttype = true)
    (mode : u.mode = s.mode) : isPrinted (u.report tWarn text).mode tWarn = true := by
  apply warning_printed
  intro discard
  rw [← mode, show u.mode = .discard from discard] at printed
  cases printed

end warned

theorem loops_deep (fuel : Nat) : ∀ (s : State) (tcid : Str) (num : Int) (ttype : CInt) (mesg : Str),
    Loops env s tcid num ttype mesg → tstPrint env fuel tcid num ttype mesg s = .error .deep := by
  induction fuel with
  | zero => exact fun _ _ _ _ _ _ => rfl
  | succ fuel ih =>
    intro s tcid num ttype mesg loops
    obtain ⟨name, text, file, failure, small, fits⟩ := loops.failure
    obtain ⟨out, stream⟩ := Option.ne_none_iff_exists'.mp loops.opened
    rw [print_deep_iff loops.printed (Nat.not_le.mpr loops.short) stream]
    obtain ⟨u, keeps, opened, deep⟩ := append_deep_iff
      (t := lineDone env s tcid num ttype mesg out) file failure (by simp [lineDone]) fuel
    have mode : u.mode = s.mode := keeps.mode
    have same_tcid : u.tcid = s.tcid := keeps.tcid
    rw [deep]
    refine ⟨small, ih _ _ _ _ _ ?_⟩
    refine ⟨warned_printed loops.printed mode, ?_, opened, name, text, keeps.file.trans file, failure, small, ?_⟩
    · rw [warned_line mode same_tcid]
      exact fits
    · change (resultLine u.mode u.tcid 0 tWarn text).length + 1 < userMesg
      rw [mode, same_tcid]
      exact fits

theorem not_loops_ends {tcid : Str} {num : Int} {ttype : CInt} {mesg : Str}
    (ends : ¬ Loops env s tcid num ttype mesg) :
    tstPrint env 2 tcid num ttype mesg s ≠ .error .deep := by
  by_cases printed : isPrinted s.mode ttype = true
  · by_cases long : userMesg ≤ (composed env s tcid num ttype mesg).length + 1
    · rw [print_too_long printed long]
      rintro ⟨⟩
    · cases stream : s.tOut with
      | none =>
        rw [print_short printed long]
        simp [fputs, stream, Except.bind]
      | some out =>
        rw [Ne, print_deep_iff printed long stream]
        have opened : (lineDone env s tcid num ttype mesg out).tOut ≠ none := by simp [lineDone]
        cases file : s.file with
        | none =>
          rw [appendFile, show (lineDone env s tcid num ttype mesg out).file = none from file]
          rintro ⟨⟩
        | some name =>
          cases failure : failureText env name with
          | none =>
            exact readable_not_deep (t := lineDone env s tcid num ttype mesg out) file failure opened 1
          | some text =>
            obtain ⟨u, keeps, _, deep⟩ := append_deep_iff
              (t := lineDone env s tcid num ttype mesg out) file failure opened 1
            have mode : u.mode = s.mode := keeps.mode
            rw [deep]
            rintro ⟨small, again⟩
            have too_long : userMesg ≤ (composed env (u.report tWarn text) u.tcid 0 tWarn text).length + 1 := by
              rw [warned_line mode (show u.tcid = s.tcid from keeps.tcid)]
              by_contra fits
              exact ends ⟨printed, by omega, by simp [stream], name, text, file, failure, small,
                by omega⟩
            rw [print_too_long (warned_printed printed mode) too_long] at again
            cases again
  · rw [print_filtered_out (by simpa using printed)]
    rintro ⟨⟩

theorem terminates_iff (env : Env) (s : State) (tcid : Str) (num : Int) (ttype : CInt) (mesg : Str) :
    (∃ fuel, tstPrint env fuel tcid num ttype mesg s ≠ .error .deep) ↔ ¬ Loops env s tcid num ttype mesg :=
  ⟨fun ⟨fuel, ends⟩ loops => ends (loops_deep fuel s tcid num ttype mesg loops),
    fun ends => ⟨2, not_loops_ends ends⟩⟩

end termination

theorem expand_twice (mesg : Str) : expandVarArgs (expandVarArgs mesg) = expandVarArgs mesg := by
  simp [expandVarArgs, List.take_take]

theorem resm_res (env : Env) (fuel : Nat) (ttype : CInt) (mesg : Str) (s : State) :
    tstResm env fuel ttype mesg s = tstRes env fuel ttype none mesg s := by
  by_cases empty : expandVarArgs mesg = []
  · rw [tstResm, if_pos empty, tstRes, if_pos empty]
  · rw [tstResm, if_neg empty, tstRes, tstRes, expand_twice]

/-- A file is printed behind the line of its own result only, in every run whose calls that print a
    line with a name in `File` have brought that name and can read the file; and a print ends unless
    the file cannot be read and the warning about that can be printed. -/
theorem files_follow_results (env : Env) (fuel : Nat) (tcid : Str) (events : List Event)
    (ok : AllOk env (fuel + 1) events (init tcid)) :
    AllRight env (fuel + 1) events (init tcid) ∧
      ∀ s tcid num ttype mesg, (∃ fuel, tstPrint env fuel tcid num ttype mesg s ≠ .error .deep) ↔
        ¬ Loops env s tcid num ttype mesg :=
  ⟨run_right fuel events (init tcid) (fun held => absurd rfl held) ok, terminates_iff env⟩

/-- `tst_res(TFAIL, "f", "a")` where `f` holds an x. -/
def failFile : Call := ⟨tFail, some ['f'], ['a'], ['t'], 0, 0, 0⟩

def xEnv (toutput : Option Str) : Env := ⟨toutput, fun _ => .readable ['x'], fun _ => []⟩

theorem file_behind_fail : AllRight (xEnv none) 1 [.res failFile] (init ['t']) := by
  refine (files_follow_results (xEnv none) 0 ['t'] [.res failFile] ?_).1
  refine ⟨⟨fun name file _ => ?_, fun _ _ _ => by decide⟩, fun _ _ => trivial⟩
  obtain rfl : ['f'] = name := Option.some.inj file
  exact ⟨rfl, ['x'], rfl⟩

/-- `tst_res(TPASS, "f", "a")`, which NOPASS filters, and `tst_resm(TFAIL, "b")`. -/
def passFile : Call := ⟨tPass, some ['f'], ['a'], ['t'], 0, 0, 0⟩

def failPlain : Call := ⟨tFail, none, ['b'], ['t'], 1, 0, 0⟩

/-- The file of the first result is printed behind the second. Without NOPASS, a file that cannot be
    opened keeps `tst_print` and `cat_file` calling each other. -/
theorem file_behind_later_result :
    ¬ AllRight (xEnv (some toutNopass)) 1 [.res passFile, .res failPlain] (init ['t']) ∧
      ∀ fuel, (Event.res failFile).run ⟨none, fun _ => .unopenable 13, fun _ => []⟩ fuel (init ['t']) =
        .error .deep := by
  constructor
  · rintro ⟨_, rest⟩
    have shown := (rest _ rfl).1
    obtain ⟨warned, held, own, out⟩ :
      Prints (xEnv (some toutNopass)) (.res failPlain) _ _ := shown
    cases warned <;> cases held <;> cases own <;> exact absurd out (by decide +kernel)
  · intro fuel
    let env : Env := ⟨none, fun _ => .unopenable 13, fun _ => []⟩
    have deep : tstPrint env fuel ['t'] 1 tFail ['a'] (entered env failFile (init ['t'])) = .error .deep := by
      apply loops_deep
      refine ⟨rfl, by decide +kernel, nofun, ['f'], _, rfl, rfl, by decide +kernel, by decide +kernel⟩
    change (Event.res failFile).run env fuel (init ['t']) = _
    rw [res_entered, if_neg (by decide), if_neg (by decide), counted_bind, if_neg (by decide)]
    change ((tstPrint env fuel ['t'] 1 tFail ['a'] (entered env failFile (init ['t']))).bind _) = _
    rw [deep]
    rfl

end VteTstResFiles
