import Vte.Lib.TstResAccount
import Vte.Lib.TstResCondense

/-!
The errno suffixes of the printed lines. `tst_print` takes `errno` as it finds it, after the
library calls of `tst_res`, and a result that `tst_condense` holds back keeps only its masked type.
A trace records for every printed line the call whose result it is.
-/
namespace VteTstResErrno
open Text VteTstRes Stopping

/-- A call of `tst_res`, with `TCID`, `tst_count`, `errno` and `TEST_ERRNO` as the test has left
    them, and what the library leaves in `errno`: after the message is formatted and TOUTPUT is
    looked up, and after a line is written. -/
structure Call where
  ttype : CInt
  fname : Option Str
  mesg : Str
  tcid : Str
  count : Nat
  errno : CInt
  testErrno : CInt
  formatErrno : CInt → CInt
  putErrno : CInt → CInt

inductive Event where
  | res (c : Call)
  | flush

structure Line where
  call : Call
  body : Str
  suffix : Str

structure Log where
  lines : List Line
  /-- The call whose result is held back. -/
  held : Option Call

abbrev Traced := Outcome × Log

def andThen (t : Traced) (next : State → Log → Traced) : Traced :=
  match t with
  | (.ok s, log) => next s log
  | (.error stop, log) => (.error stop, log)

section traced
variable (env : Env) (fuel : Nat)

/-- `tst_print` for the result of `call`. -/
def printTraced (call : Call) (put : CInt → CInt) (tcid : Str) (tnum : Int) (ttype : CInt)
    (tmesg : Str) (s : State) (log : Log) : Traced :=
  if isPrinted s.mode ttype ∧ (composed env s tcid tnum ttype tmesg).length + 1 < userMesg then
    ((tstPrint env fuel tcid tnum ttype tmesg s).map fun t => { t with errno := put t.errno }, { log with
        lines := log.lines ++ [⟨call, resultLine s.mode tcid tnum ttype tmesg,
          errnoSuffix env ttype s.errno s.testErrno⟩] })
  else (tstPrint env fuel tcid tnum ttype tmesg s, log)

def holdTraced (c : Call) (tnum : Int) (tmesg : Str) (s : State) (log : Log) : Traced :=
  if s.file = none then (tstHold env fuel tnum c.ttype tmesg s, { log with held := some c })
  else
    andThen (printTraced env fuel c c.putErrno s.tcid tnum c.ttype tmesg s log) fun s log =>
      (.ok { s with buffered := none }, { log with held := none })

def condenseTraced (c : Call) (tnum : Int) (tmesg : Str) (s : State) (log : Log) : Traced :=
  match s.buffered, log.held with
  | some last, some h =>
    if last.tcid = s.tcid ∧ last.type = ttypeResult c.ttype ∧ last.mesg = tmesg ∧ s.file = none then
      (.ok s, log)
    else
      andThen (printTraced env fuel h c.putErrno last.tcid last.num last.type last.mesg
        { s with file := none } log) fun t log =>
          holdTraced env fuel c tnum tmesg { t with file := s.file } log
  | _, _ => holdTraced env fuel c tnum tmesg s log

/-- The state that the test has left to the call; its library calls up to `access` come first, since
    nothing looks at `errno` before. -/
def called (c : Call) (s : State) : State :=
  { s with
    tcid := c.tcid
    tstCount := c.count
    errno := c.formatErrno c.errno
    testErrno := c.testErrno }

def entered (c : Call) (s : State) : State :=
  attach env c.fname (checkEnv env { called c s with
    exitval := s.exitval ||| ttypeResult c.ttype
    tOut := some (s.tOut.getD []) })

def byModeTraced (c : Call) (tmesg : Str) (s : State) (log : Log) : Traced :=
  match s.mode with
  | .discard => (.ok s, log)
  | .nopass => condenseTraced env fuel c (s.tstCount + 1) tmesg s log
  | .verbose => printTraced env fuel c c.putErrno s.tcid (s.tstCount + 1) c.ttype tmesg s log

/-- `tst_res`; the number of results is not negative. -/
def resTraced (c : Call) (s : State) (log : Log) : Traced :=
  let tmesg := expandVarArgs c.mesg
  if tmesg = [] then (.error (.abort (called c s)), log)
  else
    let s := (entered env c s).report (ttypeResult c.ttype) tmesg
    if ttypeResult c.ttype = tWarn ∨ ttypeResult c.ttype = tInfo then
      printTraced env fuel c c.putErrno s.tcid 0 c.ttype tmesg s log
    else
      andThen (byModeTraced env fuel c tmesg s log) fun s log =>
        (.ok { s with tstCount := s.tstCount + 1 }, log)

def flushTraced (s : State) (log : Log) : Traced :=
  match s.buffered, log.held with
  | some last, some h =>
    if s.mode = .nopass then
      andThen (printTraced env fuel h id last.tcid last.num last.type last.mesg s log) fun s log =>
        (.ok { s with buffered := none }, { log with held := none })
    else (.ok s, log)
  | _, _ => (.ok s, log)

def Event.run : Event → State → Log → Traced
  | .res c => resTraced env fuel c
  | .flush => flushTraced env fuel

def runTraced (events : List Event) (t : Traced) : Traced :=
  events.foldl (fun t e => andThen t (e.run env fuel)) t

end traced

def start (tcid : Str) : Traced := (.ok (init tcid), ⟨[], none⟩)

/-- The line carries the suffixes for `errno` and TEST_ERRNO as they were at the call. -/
def Carries (env : Env) (l : Line) : Prop :=
  l.suffix = errnoSuffix env l.call.ttype l.call.errno l.call.testErrno

def Flagless (c : Call) : Prop := c.ttype &&& tErrno = 0 ∧ c.ttype &&& tTErrno = 0

def PrintsHeld (c : Call) (s : State) (last : Last) : Prop :=
  isCounted (ttypeResult c.ttype) ∧ s.mode = .nopass ∧ s.buffered = some last ∧ isPrinted .nopass last.type ∧
    ¬ (last.tcid = s.tcid ∧ last.type = ttypeResult c.ttype ∧ last.mesg = expandVarArgs c.mesg ∧ s.file = none)

def PrintsNow (c : Call) (s : State) : Prop :=
  isPrinted s.mode c.ttype ∧ (isCounted (ttypeResult c.ttype) → s.mode = .nopass → s.file ≠ none)

/-- `errno` matters to the line of the call. -/
def WantsErrno (c : Call) : Prop := c.ttype &&& tErrno ≠ 0

/-- A result that was held back had no errno flag when it is printed, and the library has left
    `errno` alone when the call prints its own result with TERRNO. -/
structure CallOk (env : Env) (c : Call) (s : State) (log : Log) : Prop where
  held : ∀ last h, PrintsHeld c (entered env c s) last → log.held = some h → Flagless h
  first : PrintsNow c (entered env c s) → (¬ ∃ last, PrintsHeld c (entered env c s) last) →
    WantsErrno c → (entered env c s).errno = c.errno
  after : PrintsNow c (entered env c s) → (∃ last, PrintsHeld c (entered env c s) last) →
    WantsErrno c → c.putErrno (entered env c s).errno = c.errno

def FlushOk (s : State) (log : Log) : Prop :=
  s.mode = .nopass → ∀ last h, s.buffered = some last → isPrinted .nopass last.type → log.held = some h → Flagless h

def EventOk (env : Env) : Event → State → Log → Prop
  | .res c => CallOk env c
  | .flush => FlushOk

def AllOk (env : Env) (fuel : Nat) : List Event → Traced → Prop
  | [], _ => True
  | e :: events, t =>
    (∀ s, t.1 = .ok s → EventOk env e s t.2) ∧ AllOk env fuel events (andThen t (e.run env fuel))

def Tracks (s : State) (log : Log) : Prop :=
  match s.buffered, log.held with
  | none, none => True
  | some last, some h => last.type = ttypeResult h.ttype
  | _, _ => False

/-- Every line is right so far, and `Q` holds if the process goes on. -/
def Good (env : Env) (Q : State → Log → Prop) (t : Traced) : Prop :=
  (∀ l ∈ t.2.lines, Carries env l) ∧ ∀ s, t.1 = .ok s → Q s t.2

section good
variable {env : Env} {fuel : Nat} {Q R : State → Log → Prop}

theorem good_here {s : State} {log : Log} (lines : ∀ l ∈ log.lines, Carries env l)
    (holds : Q s log) : Good env Q (.ok s, log) := by
  refine ⟨lines, ?_⟩
  intro s' same
  obtain rfl := Except.ok.inj same
  exact holds

theorem good_stopped {stop : Stop} {log : Log} (lines : ∀ l ∈ log.lines, Carries env l) :
    Good env Q (.error stop, log) := by
  refine ⟨lines, ?_⟩
  intro s same
  cases same

theorem good_then {t : Traced} {next : State → Log → Traced} (first : Good env Q t)
    (rest : ∀ s, (∀ l ∈ t.2.lines, Carries env l) → Q s t.2 → Good env R (next s t.2)) :
    Good env R (andThen t next) := by
  obtain ⟨outcome, log⟩ := t
  obtain ⟨lines, holds⟩ := first
  cases outcome with
  | ok s => exact rest s lines (holds s rfl)
  | error stop => exact good_stopped lines

/-- What a print leaves, with `errno` as it is after the line when no file goes with it. -/
structure After (put : CInt → CInt) (ttype : CInt) (s t : State) : Prop where
  buffered : t.buffered = s.buffered
  mode : t.mode = s.mode
  testErrno : t.testErrno = s.testErrno
  errno : s.file = none → t.errno = if isPrinted s.mode ttype then put s.errno else s.errno

theorem print_errno {s t : State} {tcid tmesg : Str} {tnum : Int} {ttype : CInt}
    (no_file : s.file = none) (printed : tstPrint env (fuel + 1) tcid tnum ttype tmesg s = .ok t) :
    t.errno = s.errno := by
  by_cases shown : isPrinted s.mode ttype = true
  · by_cases long : userMesg ≤ (composed env s tcid tnum ttype tmesg).length + 1
    · rw [print_too_long shown long] at printed
      cases printed
    · rw [print_short shown long] at printed
      cases out : s.tOut with
      | none =>
        simp only [fputs, out] at printed
        cases printed
      | some text =>
        simp only [fputs, out, Except.bind, appendFile, no_file] at printed
        obtain rfl := Except.ok.inj printed
        rfl
  · rw [print_filtered_out (by simpa using shown)] at printed
    obtain rfl := Except.ok.inj printed
    rfl

theorem print_after {s t : State} {tcid tmesg : Str} {tnum : Int} {ttype : CInt}
    (printed : tstPrint env fuel tcid tnum ttype tmesg s = .ok t) :
    t.buffered = s.buffered ∧ t.mode = s.mode ∧ t.testErrno = s.testErrno ∧ (s.file = none → t.errno = s.errno) := by
  cases fuel with
  | zero => cases printed
  | succ fuel =>
    have kept : Ensures (Printed (ttypeResult ttype) s) (fun _ => True)
        (tstPrint env (fuel + 1) tcid tnum ttype tmesg s) :=
      ensures_mono (print_ensures fuel tcid tnum ttype tmesg) (fun _ done => done)
        fun _ _ => trivial
    rw [printed] at kept
    exact ⟨kept.buffered, kept.mode, kept.testErrno, fun no_file => print_errno no_file printed⟩

theorem print_good {call : Call} {put : CInt → CInt} {tcid tmesg : Str} {tnum : Int} {ttype : CInt}
    {s : State} {log : Log} (lines : ∀ l ∈ log.lines, Carries env l)
    (right : isPrinted s.mode ttype → errnoSuffix env ttype s.errno s.testErrno =
      errnoSuffix env call.ttype call.errno call.testErrno) :
    Good env (fun t log' => After put ttype s t ∧ log'.held = log.held)
      (printTraced env fuel call put tcid tnum ttype tmesg s log) := by
  unfold printTraced
  split
  · rename_i shown
    constructor
    · intro l mem
      rcases List.mem_append.mp mem with mem | mem
      · exact lines l mem
      · rw [List.mem_singleton.mp mem]
        exact right shown.1
    · intro t printed
      refine ⟨?_, rfl⟩
      cases whole : tstPrint env fuel tcid tnum ttype tmesg s with
      | error stop =>
        rw [whole] at printed
        cases printed
      | ok u =>
        rw [whole] at printed
        obtain rfl := Except.ok.inj printed
        obtain ⟨buffered, mode, testErrno, errno⟩ := print_after whole
        refine ⟨buffered, mode, testErrno, ?_⟩
        intro no_file
        rw [if_pos shown.1]
        exact congrArg put (errno no_file)
  · rename_i hidden
    refine ⟨lines, ?_⟩
    intro t printed
    refine ⟨?_, rfl⟩
    obtain ⟨buffered, mode, testErrno, errno⟩ := print_after printed
    refine ⟨buffered, mode, testErrno, ?_⟩
    intro no_file
    by_cases shown : isPrinted s.mode ttype = true
    · -- the line was too long, and the process has stopped
      exfalso
      have long : userMesg ≤ (composed env s tcid tnum ttype tmesg).length + 1 := by
        by_contra short
        exact hidden ⟨shown, by omega⟩
      cases fuel with
      | zero => cases printed
      | succ fuel =>
        rw [print_too_long shown long] at printed
        cases printed
    · rw [if_neg shown]
      exact errno no_file

theorem own_suffix {c : Call} {err : CInt} (kept : WantsErrno c → err = c.errno) :
    errnoSuffix env c.ttype err c.testErrno = errnoSuffix env c.ttype c.errno c.testErrno := by
  by_cases wants : WantsErrno c
  · rw [kept wants]
  · have unset : c.ttype &&& tErrno = 0 := by
      by_contra set
      exact wants set
    simp [errnoSuffix, unset]

theorem held_suffix {last : Last} {h : Call} (type : last.type = ttypeResult h.ttype)
    (flagless : Flagless h) (err testErrno : CInt) :
    errnoSuffix env last.type err testErrno = errnoSuffix env h.ttype h.errno h.testErrno := by
  have masked : last.type &&& tErrno = 0 ∧ last.type &&& tTErrno = 0 := by
    rw [type]
    exact no_flags_result h.ttype
  rw [no_errno_suffix env _ _ masked, no_errno_suffix env _ _ flagless]

theorem print_own {c : Call} {tcid tmesg : Str} {tnum : Int} {s : State} {log : Log}
    (lines : ∀ l ∈ log.lines, Carries env l) (testErrno : s.testErrno = c.testErrno)
    (kept : isPrinted s.mode c.ttype → WantsErrno c → s.errno = c.errno) :
    Good env (fun t log' => After c.putErrno c.ttype s t ∧ log'.held = log.held)
      (printTraced env fuel c c.putErrno tcid tnum c.ttype tmesg s log) := by
  apply print_good lines
  intro printed
  rw [testErrno]
  exact own_suffix (kept printed)

theorem hold_good {c : Call} {tnum : Int} {tmesg : Str} {s : State} {log : Log}
    (lines : ∀ l ∈ log.lines, Carries env l) (testErrno : s.testErrno = c.testErrno)
    (kept : s.file ≠ none → isPrinted s.mode c.ttype → WantsErrno c → s.errno = c.errno) :
    Good env Tracks (holdTraced env fuel c tnum tmesg s log) := by
  unfold holdTraced
  split
  · rename_i no_file
    rw [tstHold, if_pos no_file]
    exact good_here lines rfl
  · rename_i file
    apply good_then (print_own lines testErrno (kept file))
    intro t lines' _
    exact good_here lines' trivial

section call
variable {c : Call} {s : State} {log : Log}

theorem own_good (tnum : Int) (tmesg : Str) (lines : ∀ l ∈ log.lines, Carries env l)
    (tracks : Tracks s log) (testErrno : s.testErrno = c.testErrno)
    (kept : isPrinted s.mode c.ttype → WantsErrno c → s.errno = c.errno) :
    Good env Tracks (printTraced env fuel c c.putErrno s.tcid tnum c.ttype tmesg s log) := by
  have printed : Good env (fun t log' => After c.putErrno c.ttype s t ∧ log'.held = log.held)
      (printTraced env fuel c c.putErrno s.tcid tnum c.ttype tmesg s log) :=
    print_own lines testErrno kept
  refine ⟨printed.1, ?_⟩
  intro t done
  obtain ⟨left, same⟩ := printed.2 t done
  rw [Tracks, left.buffered, same]
  exact tracks

theorem condense_good (tnum : Int) (lines : ∀ l ∈ log.lines, Carries env l)
    (tracks : Tracks s log) (testErrno : s.testErrno = c.testErrno)
    (counted : isCounted (ttypeResult c.ttype)) (mode : s.mode = .nopass)
    (held : ∀ last h, PrintsHeld c s last → log.held = some h → Flagless h)
    (first : PrintsNow c s → (¬ ∃ last, PrintsHeld c s last) → WantsErrno c → s.errno = c.errno)
    (after : PrintsNow c s → (∃ last, PrintsHeld c s last) → WantsErrno c → c.putErrno s.errno = c.errno) :
    Good env Tracks (condenseTraced env fuel c tnum (expandVarArgs c.mesg) s log) := by
  unfold condenseTraced
  unfold Tracks at tracks
  split
  · rename_i last h buffered recorded
    rw [buffered, recorded] at tracks
    split
    · apply good_here lines
      rw [Tracks, buffered, recorded]
      exact tracks
    · rename_i differs
      have evicts : isPrinted s.mode last.type → PrintsHeld c s last := by
        intro printed
        rw [mode] at printed
        exact ⟨counted, mode, buffered, printed, differs⟩
      have printed : Good env
          (fun t log' => After c.putErrno last.type { s with file := none } t ∧ log'.held = log.held)
          (printTraced env fuel h c.putErrno last.tcid last.num last.type last.mesg
            { s with file := none } log) := by
        apply print_good lines
        intro printed
        exact held_suffix tracks (held last h (evicts printed) recorded) s.errno s.testErrno
      apply good_then printed
      rintro t lines' ⟨left, _⟩
      have kept : { t with file := s.file }.testErrno = c.testErrno := left.testErrno.trans testErrno
      apply hold_good lines' kept
      intro file own wants
      have own' : isPrinted s.mode c.ttype := by rwa [← left.mode]
      have now : PrintsNow c s := ⟨own', fun _ _ => file⟩
      change t.errno = c.errno
      rw [left.errno rfl]
      by_cases out : isPrinted s.mode last.type = true
      · rw [if_pos out]
        exact after now ⟨last, evicts out⟩ wants
      · rw [if_neg out]
        refine first now ?_ wants
        rintro ⟨last', _, _, some_last, out', _⟩
        obtain rfl : last = last' := Option.some.inj (buffered.symm.trans some_last)
        rw [mode] at out
        exact out out'
  · rename_i apart
    have nothing : ¬ ∃ last, PrintsHeld c s last := by
      rintro ⟨last, _, _, buffered, _⟩
      cases recorded : log.held with
      | none =>
        rw [buffered, recorded] at tracks
        cases tracks
      | some h => exact apart last h buffered recorded
    exact hold_good lines testErrno
      fun file printed => first ⟨printed, fun _ _ => file⟩ nothing

theorem by_mode_good (lines : ∀ l ∈ log.lines, Carries env l)
    (tracks : Tracks s log) (testErrno : s.testErrno = c.testErrno)
    (counted : isCounted (ttypeResult c.ttype))
    (held : ∀ last h, PrintsHeld c s last → log.held = some h → Flagless h)
    (first : PrintsNow c s → (¬ ∃ last, PrintsHeld c s last) → WantsErrno c → s.errno = c.errno)
    (after : PrintsNow c s → (∃ last, PrintsHeld c s last) → WantsErrno c → c.putErrno s.errno = c.errno) :
    Good env Tracks (byModeTraced env fuel c (expandVarArgs c.mesg) s log) := by
  unfold byModeTraced
  split
  · exact good_here lines tracks
  · rename_i mode
    exact condense_good _ lines tracks testErrno counted mode held first after
  · rename_i mode
    have nothing : ¬ ∃ last, PrintsHeld c s last := by
      rintro ⟨_, _, nopass, _⟩
      cases mode.symm.trans nopass
    apply own_good _ _ lines tracks testErrno
    intro printed
    exact first ⟨printed, fun _ nopass => nomatch mode.symm.trans nopass⟩ nothing

theorem entered_keeps (c : Call) (s : State) : (entered env c s).buffered = s.buffered ∧
    (entered env c s).testErrno = c.testErrno ∧ (entered env c s).tstCount = c.count := by
  unfold entered
  obtain ⟨first, mode, errno, file, attached, _⟩ := attach_env_form env c.fname { called c s with
    exitval := s.exitval ||| ttypeResult c.ttype
    tOut := some (s.tOut.getD []) }
  rw [attached]
  exact ⟨rfl, rfl, rfl⟩

theorem entered_tracks (c : Call) (tracks : Tracks s log) :
    Tracks ((entered env c s).report (ttypeResult c.ttype) (expandVarArgs c.mesg)) log := by
  have buffered : (entered env c s).buffered = s.buffered := (entered_keeps c s).1
  rw [Tracks, State.report]
  simp only [buffered]
  exact tracks

theorem res_good (lines : ∀ l ∈ log.lines, Carries env l) (tracks : Tracks s log)
    (fine : CallOk env c s log) : Good env Tracks (resTraced env fuel c s log) := by
  have tracks' : Tracks ((entered env c s).report (ttypeResult c.ttype) (expandVarArgs c.mesg)) log :=
    entered_tracks c tracks
  have testErrno : ((entered env c s).report (ttypeResult c.ttype) (expandVarArgs c.mesg)).testErrno =
      c.testErrno := (entered_keeps c s).2.1
  unfold resTraced
  simp only
  split
  · exact good_stopped lines
  · split
    · rename_i uncounted
      have notCounted : ¬ isCounted (ttypeResult c.ttype) := by
        rcases uncounted with warn | info
        · simp [isCounted, warn]
        · simp [isCounted, info]
      apply own_good 0 _ lines tracks' testErrno
      intro printed
      apply fine.first ⟨printed, fun counted => absurd counted notCounted⟩
      rintro ⟨_, counted, _⟩
      exact notCounted counted
    · rename_i counted
      have isCounted : isCounted (ttypeResult c.ttype) := by
        simpa [isCounted, not_or] using counted
      apply good_then (by_mode_good lines tracks' testErrno isCounted fine.held fine.first fine.after)
      intro t lines' tracks''
      exact good_here lines' tracks''

theorem flush_good (lines : ∀ l ∈ log.lines, Carries env l) (tracks : Tracks s log)
    (fine : FlushOk s log) : Good env Tracks (flushTraced env fuel s log) := by
  unfold flushTraced
  split
  · rename_i last h buffered recorded
    split
    · rename_i mode
      have type : last.type = ttypeResult h.ttype := by
        rw [Tracks, buffered, recorded] at tracks
        exact tracks
      have printed : Good env (fun t log' => After id last.type s t ∧ log'.held = log.held)
          (printTraced env fuel h id last.tcid last.num last.type last.mesg s log) := by
        apply print_good lines
        intro printed
        rw [mode] at printed
        exact held_suffix type (fine mode last h buffered printed recorded) s.errno s.testErrno
      apply good_then printed
      intro t lines' _
      exact good_here lines' trivial
    · exact good_here lines tracks
  · exact good_here lines tracks

end call

theorem event_good {e : Event} {s : State} {log : Log} (lines : ∀ l ∈ log.lines, Carries env l)
    (tracks : Tracks s log) (fine : EventOk env e s log) :
    Good env Tracks (e.run env fuel s log) := by
  cases e with
  | res c => exact res_good lines tracks fine
  | flush => exact flush_good lines tracks fine

theorem run_good (events : List Event) : ∀ t : Traced, Good env Tracks t →
    AllOk env fuel events t → Good env Tracks (runTraced env fuel events t) := by
  induction events with
  | nil => exact fun t good _ => good
  | cons e events ih =>
    intro t good fine
    apply ih _ _ fine.2
    obtain ⟨outcome, log⟩ := t
    cases outcome with
    | ok s => exact event_good good.1 (good.2 s rfl) (fine.1 s rfl)
    | error stop => exact good_stopped good.1

end good

/-- In a run in which no result with an errno flag is held back until it is printed, and in which the
    library leaves `errno` alone before a TERRNO line, every line carries the errno of its call. -/
theorem lines_carry_errno (env : Env) (fuel : Nat) (tcid : Str) (events : List Event)
    (fine : AllOk env fuel events (start tcid)) :
    ∀ l ∈ (runTraced env fuel events (start tcid)).2.lines, Carries env l :=
  (run_good events (start tcid) ⟨nofun, fun s same => by
    obtain rfl := Except.ok.inj same
    trivial⟩ fine).1

/-- The event in the model of the code, when writing a line leaves `errno` alone. -/
def Event.plain (env : Env) (fuel : Nat) : Event → State → Outcome
  | .res c, s => tstRes env fuel c.ttype c.fname c.mesg (called c s)
  | .flush, s => tstFlush env fuel s

def Event.Quiet : Event → Prop
  | .res c => c.putErrno = id
  | .flush => True

section outcome
variable {env : Env} {fuel : Nat}

theorem then_outcome (t : Traced) (next : State → Log → Traced) :
    (andThen t next).1 = t.1.bind fun s => (next s t.2).1 := by
  obtain ⟨outcome, log⟩ := t
  cases outcome with
  | ok s => rfl
  | error stop => rfl

theorem print_outcome (call : Call) (tcid : Str) (tnum : Int) (ttype : CInt) (tmesg : Str)
    (s : State) (log : Log) : (printTraced env fuel call id tcid tnum ttype tmesg s log).1 =
      tstPrint env fuel tcid tnum ttype tmesg s := by
  unfold printTraced
  split
  · cases tstPrint env fuel tcid tnum ttype tmesg s with
    | ok t => rfl
    | error stop => rfl
  · rfl

variable {c : Call} (quiet : c.putErrno = id) {s : State} {log : Log}
include quiet

theorem hold_outcome (tnum : Int) (tmesg : Str) (s : State) (log : Log) :
    (holdTraced env fuel c tnum tmesg s log).1 = tstHold env fuel tnum c.ttype tmesg s := by
  unfold holdTraced
  split
  · rfl
  · rename_i file
    rw [then_outcome, quiet, print_outcome, tstHold, if_neg file]
    rfl

theorem condense_outcome (tracks : Tracks s log) (tnum : Int) (tmesg : Str) :
    (condenseTraced env fuel c tnum tmesg s log).1 = tstCondense env fuel tnum c.ttype tmesg s := by
  unfold condenseTraced
  unfold Tracks at tracks
  split
  · rename_i last h buffered recorded
    by_cases same : last.tcid = s.tcid ∧ last.type = ttypeResult c.ttype ∧ last.mesg = tmesg ∧ s.file = none
    · rw [if_pos same, condense_same buffered same]
    · rw [if_neg same, condense_new buffered same, then_outcome, quiet, print_outcome]
      congr 1
      funext t
      exact hold_outcome quiet tnum tmesg _ _
  · rename_i apart
    have empty : s.buffered = none := by
      cases buffered : s.buffered with
      | none => rfl
      | some last =>
        cases recorded : log.held with
        | none =>
          rw [buffered, recorded] at tracks
          cases tracks
        | some h => exact absurd recorded (apart last h buffered)
    rw [hold_outcome quiet]
    unfold tstCondense
    split
    · rfl
    · rename_i last buffered
      cases empty.symm.trans buffered

theorem by_mode_outcome (tracks : Tracks s log) (tmesg : Str) :
    (byModeTraced env fuel c tmesg s log).1 = byMode env fuel c.ttype tmesg s := by
  cases mode : s.mode with
  | discard => simp only [byModeTraced, byMode, mode]
  | nopass =>
    simp only [byModeTraced, byMode, mode]
    exact condense_outcome quiet tracks _ _
  | verbose =>
    simp only [byModeTraced, byMode, mode]
    rw [quiet, print_outcome]

theorem res_outcome (tracks : Tracks s log) : (resTraced env fuel c s log).1 =
    tstRes env fuel c.ttype c.fname c.mesg (called c s) := by
  have tracks' : Tracks ((entered env c s).report (ttypeResult c.ttype) (expandVarArgs c.mesg)) log :=
    entered_tracks c tracks
  have count : ((entered env c s).report (ttypeResult c.ttype) (expandVarArgs c.mesg)).tstCount =
      c.count := (entered_keeps c s).2.2
  unfold resTraced tstRes
  simp only
  split
  · rfl
  · change _ = if ttypeResult c.ttype = tWarn ∨ ttypeResult c.ttype = tInfo then
        tstPrint env fuel (entered env c s).tcid 0 c.ttype (expandVarArgs c.mesg)
          ((entered env c s).report (ttypeResult c.ttype) (expandVarArgs c.mesg))
      else tstCounted env fuel c.ttype (expandVarArgs c.mesg)
          ((entered env c s).report (ttypeResult c.ttype) (expandVarArgs c.mesg))
    split
    · rw [quiet, print_outcome]
      rfl
    · rw [then_outcome, by_mode_outcome quiet tracks', counted_mode (by rw [count]; omega)]

end outcome

section plain
variable {env : Env} {fuel : Nat}

theorem event_outcome {e : Event} (quiet : e.Quiet) {s : State} {log : Log}
    (tracks : Tracks s log) : (e.run env fuel s log).1 = e.plain env fuel s := by
  cases e with
  | res c => exact res_outcome quiet tracks
  | flush =>
    unfold Tracks at tracks
    change (flushTraced env fuel s log).1 = tstFlush env fuel s
    unfold flushTraced tstFlush
    cases buffered : s.buffered with
    | none => rfl
    | some last =>
      cases recorded : log.held with
      | none =>
        rw [buffered, recorded] at tracks
        cases tracks
      | some h =>
        change (if s.mode = .nopass then _ else _ : Traced).1 = if s.mode = .nopass then _ else _
        split
        · rw [then_outcome, print_outcome]
          rfl
        · rfl

theorem run_outcome (events : List Event) (quiet : ∀ e ∈ events, e.Quiet) : ∀ t : Traced,
    Good env Tracks t → AllOk env fuel events t →
      (runTraced env fuel events t).1 = t.1.bind (events.foldlM fun s e => e.plain env fuel s) := by
  induction events with
  | nil =>
    rintro ⟨outcome, log⟩ _ _
    cases outcome with
    | ok s => rfl
    | error stop => rfl
  | cons e events ih =>
    rintro ⟨outcome, log⟩ good fine
    have rest := ih (fun e' mem => quiet e' (by simp [mem])) (andThen (outcome, log) (e.run env fuel))
    cases outcome with
    | error stop => exact rest good fine.2
    | ok s =>
      have here := good.2 s rfl
      have same : (e.run env fuel s log).1 = e.plain env fuel s :=
        event_outcome (quiet e (by simp)) here
      have stepped := rest (event_good good.1 here (fine.1 s rfl)) fine.2
      rw [then_outcome] at stepped
      change (runTraced env fuel events (andThen (.ok s, log) (e.run env fuel))).1 = _
      rw [stepped]
      change (e.run env fuel s log).1.bind _ = (e.plain env fuel s).bind _
      rw [same]

theorem print_writes {s t : State} {tcid tmesg out : Str} {tnum : Int} {ttype : CInt}
    (opened : s.tOut = some out) (shown : isPrinted s.mode ttype = true)
    (printed : tstPrint env (fuel + 1) tcid tnum ttype tmesg s = .ok t) :
    ∃ file, t.tOut = some (out ++ (resultLine s.mode tcid tnum ttype tmesg ++
      errnoSuffix env ttype s.errno s.testErrno ++ '\n' :: file)) := by
  by_cases long : userMesg ≤ (composed env s tcid tnum ttype tmesg).length + 1
  · rw [print_too_long shown long] at printed
    cases printed
  · rw [print_short shown long, fputs, opened] at printed
    simp only [Except.bind] at printed
    split at printed
    · cases printed
    · rename_i u appended
      obtain rfl := Except.ok.inj printed
      unfold appendFile at appended
      split at appended
      · obtain rfl := Except.ok.inj appended
        exact ⟨[], by simp [composed]⟩
      · rename_i name file
        by_cases readable : ∃ contents, env.fs name = .readable contents
        · obtain ⟨contents, status⟩ := readable
          simp only [catFile, status, fputs] at appended
          obtain rfl := Except.ok.inj appended
          exact ⟨contents, by simp [composed]⟩
        · have unreadable : ∀ contents, env.fs name ≠ .readable contents :=
            fun contents status => readable ⟨contents, status⟩
          have mode : s.mode ≠ .discard := by
            intro discard
            rw [discard] at shown
            cases shown
          obtain ⟨e, stops, _⟩ := cat_fails (print_fails unreadable fuel) unreadable file mode
          cases stops.symm.trans appended

end plain

/-- `tst_res(TFAIL | TERRNO, NULL, "open")` with `errno` EACCES, and a library that never sets it. -/
def failErrno : Call := ⟨tFail ||| tErrno, none, "open".toList, ['t'], 0, 13, 0, id, id⟩

theorem verbose_line_carries : AllOk plainEnv 1 [.res failErrno] (start ['t']) ∧
    (runTraced plainEnv 1 [.res failErrno] (start ['t'])).2.lines.length = 1 ∧
    ∀ l ∈ (runTraced plainEnv 1 [.res failErrno] (start ['t'])).2.lines, Carries plainEnv l := by
  have fine : AllOk plainEnv 1 [.res failErrno] (start ['t']) := by
    refine ⟨?_, trivial⟩
    intro s same
    obtain rfl := Except.ok.inj same
    refine ⟨fun _ _ _ => nofun, fun _ _ _ => rfl, ?_⟩
    rintro _ ⟨last, _, nopass, _⟩
    cases nopass
  exact ⟨fine, by decide +kernel, lines_carry_errno plainEnv 1 ['t'] [.res failErrno] fine⟩

/-- In NOPASS mode the line of the same call comes out of the buffer without its suffix. -/
theorem held_errno_lost :
    (runTraced nopassEnv 1 [.res failErrno, .flush] (start ['t'])).2.lines.map Line.suffix = [[]] ∧
    ¬ ∀ l ∈ (runTraced nopassEnv 1 [.res failErrno, .flush] (start ['t'])).2.lines, Carries nopassEnv l := by
  have printed : (runTraced nopassEnv 1 [.res failErrno, .flush] (start ['t'])).2.lines.map
      (fun l => (l.suffix, l.call.ttype, l.call.errno, l.call.testErrno)) =
        [([], tFail ||| tErrno, 13, 0)] := by decide +kernel
  obtain ⟨l, lines, line⟩ := List.map_eq_singleton_iff.mp printed
  rw [lines]
  simp only [Prod.mk.injEq] at line
  obtain ⟨suffix, type, errno, testErrno⟩ := line
  refine ⟨by rw [List.map_singleton, suffix], ?_⟩
  intro all
  have carries := all l (List.mem_singleton_self l)
  rw [Carries, suffix, type, errno, testErrno] at carries
  exact absurd carries (by decide +kernel)

end VteTstResErrno
