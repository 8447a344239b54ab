import Vte.Base.Text

/-!
lib/tst_res.c: result reporting. The file's static variables are the fields of `State`; a
call either returns a state or stops the process. The environment says what `getenv`,
`access`, `fopen`, `fread` and `strerror` answer; writes to the output stream succeed.
`reported` is a ghost field: the results reported so far, the internal warnings included.
-/
namespace VteTstRes
open Text

abbrev CInt := BitVec 32

def userMesg : Nat := 2048
def maxMesg : Nat := 80

def ttypeMask : CInt := 0x3f
def tPass : CInt := 0
def tFail : CInt := 1
def tBrok : CInt := 2
def tWarn : CInt := 4
def tRetr : CInt := 8
def tInfo : CInt := 16
def tConf : CInt := 32
def tErrno : CInt := 0x100
def tTErrno : CInt := 0x200

def ttypeResult (ttype : CInt) : CInt := ttype &&& ttypeMask

def isCounted (type : CInt) : Bool := type ≠ tWarn ∧ type ≠ tInfo

inductive Mode where
  | verbose
  | nopass
  | discard
  deriving DecidableEq

def toutNopass : Str := "NOPASS".toList
def toutDiscard : Str := "DISCARD".toList

/-- `strttype`: the pair table is indexed by the result type; entries without a name and types
    past its end give `???`. -/
def strttype (ttype : CInt) : Str :=
  match (ttypeResult ttype).toNat with
  | 0 => "TPASS".toList
  | 1 => "TFAIL".toList
  | 2 => "TBROK".toList
  | 4 => "TWARN".toList
  | 8 => "TRETR".toList
  | 16 => "TINFO".toList
  | 32 => "TCONF".toList
  | _ => "???".toList

/-- The names of `errno_pairs` from 1 on; 35 has none. -/
def errnoNames : List String :=
  ["EPERM", "ENOENT", "ESRCH", "EINTR", "EIO", "ENXIO", "E2BIG", "ENOEXEC", "EBADF", "ECHILD",
    "EAGAIN", "ENOMEM", "EACCES", "EFAULT", "ENOTBLK", "EBUSY", "EEXIST", "EXDEV", "ENODEV",
    "ENOTDIR", "EISDIR", "EINVAL", "ENFILE", "EMFILE", "ENOTTY", "ETXTBSY", "EFBIG", "ENOSPC",
    "ESPIPE", "EROFS", "EMLINK", "EPIPE", "EDOM", "ERANGE", "???", "ENAMETOOLONG"]

def strerrnodef (err : CInt) : Str :=
  if 0 < err.toInt then ((errnoNames[err.toNat - 1]?).getD "???").toList else "???".toList

/-- What `access`, `fopen` and `fread` find under a name. -/
inductive FileStatus where
  | missing (err : CInt)
  | unopenable (err : CInt)
  | unreadable (start : Str) (err : CInt)
  | readable (contents : Str)

structure Env where
  /-- `getenv("TOUTPUT")` -/
  toutput : Option Str
  fs : Str → FileStatus
  strerror : CInt → Str

structure Last where
  tcid : Str
  num : Int
  type : CInt
  mesg : Str
  deriving DecidableEq

structure Report where
  type : CInt
  mesg : Str
  deriving DecidableEq

structure State where
  /-- What was written to `T_out`; none while the stream is NULL. -/
  tOut : Option Str
  file : Option Str
  exitval : CInt
  mode : Mode
  firstTime : Bool
  /-- `Buffered` and the `Last_` variables, which are only read while it is set. -/
  buffered : Option Last
  tstCount : Int
  tstBrkEntered : Nat
  tcid : Str
  errno : CInt
  testErrno : CInt
  reported : List Report

inductive Stop where
  | exit (status : CInt) (s : State)
  | abort (s : State)
  /-- A write through a NULL stream or past the end of `Warn_mesg`. -/
  | undefined
  /-- The fuel for the recursion between `tst_print` and `cat_file` ran out. -/
  | deep

abbrev Outcome := Except Stop State

def init (tcid : Str) : State where
  tOut := none
  file := none
  exitval := 0
  mode := .verbose
  firstTime := true
  buffered := none
  tstCount := 0
  tstBrkEntered := 0
  tcid := tcid
  errno := 0
  testErrno := 0
  reported := []

/-- `vsnprintf` into a buffer of `USERMESG` bytes. -/
def expandVarArgs (mesg : Str) : Str := mesg.take (userMesg - 1)

def State.report (s : State) (type : CInt) (mesg : Str) : State :=
  { s with reported := s.reported ++ [⟨type, mesg⟩] }

/-- The line of `tst_print` up to the errno suffixes. -/
def resultLine (mode : Mode) (tcid : Str) (tnum : Int) (ttype : CInt) (tmesg : Str) : Str :=
  padRight 8 tcid ++ ' ' :: padLeft 4 (decimal tnum) ++ (if mode = .verbose then "  ".toList else "       ".toList) ++
    strttype ttype ++ "  :  ".toList ++ tmesg

def errnoSuffix (env : Env) (ttype err testErrno : CInt) : Str :=
  (if ttype &&& tErrno ≠ 0 then
    ": errno=".toList ++ strerrnodef err ++ '(' :: decimal err.toInt ++ "): ".toList ++ env.strerror err
  else []) ++
  (if ttype &&& tTErrno ≠ 0 then
    ": TEST_ERRNO=".toList ++ strerrnodef testErrno ++ '(' :: decimal testErrno.toInt ++
      "): ".toList ++ env.strerror testErrno
  else [])

/-- The types that `tst_print` does not filter in the given mode. -/
def isPrinted (mode : Mode) (ttype : CInt) : Bool :=
  match mode with
  | .verbose => true
  | .nopass => ttypeResult ttype = tFail ∨ ttypeResult ttype = tBrok ∨ ttypeResult ttype = tWarn
  | .discard => false

def checkEnv (env : Env) (s : State) : State :=
  if s.firstTime then
    { s with
      firstTime := false
      mode := match env.toutput with
        | none => .verbose
        | some value =>
          if value = toutNopass then .nopass
          else if value = toutDiscard then .discard
          else .verbose }
  else s

def fputs (message : Str) (s : State) : Outcome :=
  match s.tOut with
  | none => .error .undefined
  | some out => .ok { s with tOut := some (out ++ message) }

/-- `sprintf` into `Warn_mesg` and the `TWARN` line; `print` is `tst_print`. -/
def warn (print : Str → Int → CInt → Str → State → Outcome) (text : Str) (s : State) : Outcome :=
  if text.length < maxMesg then print s.tcid 0 tWarn text (s.report tWarn text)
  else .error .undefined

def catFile (env : Env) (print : Str → Int → CInt → Str → State → Outcome) (filename : Str)
    (s : State) : Outcome :=
  match env.fs filename with
  | .missing err | .unopenable err =>
    warn print ("tst_res(): fopen(".toList ++ filename ++ ", \"r\") failed; errno = ".toList ++
      decimal err.toInt ++ ": ".toList ++ env.strerror err) { s with errno := err }
  | .unreadable start err => do
    let s ← fputs start { s with errno := 0 }
    warn print ("tst_res(): While trying to cat \"".toList ++ filename ++
      "\", fread() failed, errno = ".toList ++ decimal err.toInt ++ ": ".toList ++
      env.strerror err) { s with errno := err }
  | .readable contents => fputs contents { s with errno := 0 }

def tstPrint (env : Env) : Nat → Str → Int → CInt → Str → State → Outcome
  | 0, _, _, _, _, _ => .error .deep
  | fuel + 1, tcid, tnum, ttype, tmesg, s =>
    let err := s.errno
    let s := { s with exitval := s.exitval ||| ttypeResult ttype }
    if isPrinted s.mode ttype then
      let message := resultLine s.mode tcid tnum ttype tmesg ++ errnoSuffix env ttype err s.testErrno
      -- each of the three size checks fails only if the last one does
      if userMesg ≤ message.length + 1 then .error (.abort s)
      else do
        let s ← fputs (message ++ ['\n']) s
        let s ← match s.file with
          | none => .ok s
          | some filename => catFile env (tstPrint env fuel) filename s
        return { s with file := none }
    else .ok s

/-- The second half of `tst_condense`: print the result if a file goes with it, else hold it. -/
def tstHold (env : Env) (fuel : Nat) (tnum : Int) (ttype : CInt) (tmesg : Str) (s : State) :
    Outcome :=
  if s.file = none then
    .ok { s with buffered := some ⟨s.tcid, tnum, ttypeResult ttype, tmesg⟩ }
  else do
    let s ← tstPrint env fuel s.tcid tnum ttype tmesg s
    return { s with buffered := none }

def tstCondense (env : Env) (fuel : Nat) (tnum : Int) (ttype : CInt) (tmesg : Str) (s : State) :
    Outcome :=
  match s.buffered with
  | none => tstHold env fuel tnum ttype tmesg s
  | some last =>
    if last.tcid = s.tcid ∧ last.type = ttypeResult ttype ∧ last.mesg = tmesg ∧ s.file = none then
      .ok s
    else do
      let file := s.file
      let s ← tstPrint env fuel last.tcid last.num last.type last.mesg { s with file := none }
      tstHold env fuel tnum ttype tmesg { s with file := file }

/-- `if (fname != NULL && access(fname, F_OK) == 0) File = fname;` -/
def attach (env : Env) (fname : Option Str) (s : State) : State :=
  match fname with
  | none => s
  | some name =>
    match env.fs name with
    | .missing err => { s with errno := err }
    | _ => { s with file := some name }

def byMode (env : Env) (fuel : Nat) (ttype : CInt) (tmesg : Str) (s : State) : Outcome :=
  match s.mode with
  | .discard => .ok s
  | .nopass => tstCondense env fuel (s.tstCount + 1) ttype tmesg s
  | .verbose => tstPrint env fuel s.tcid (s.tstCount + 1) ttype tmesg s

/-- The part of `tst_res` for the types that count. -/
def tstCounted (env : Env) (fuel : Nat) (ttype : CInt) (tmesg : Str) (s : State) : Outcome := do
  let s ← if s.tstCount < 0 then
      warn (tstPrint env fuel) "tst_res(): tst_count < 0 is not valid".toList s
    else .ok s
  let s ← byMode env fuel ttype tmesg s
  return { s with tstCount := s.tstCount + 1 }

theorem counted_mode {env : Env} {fuel : Nat} {ttype : CInt} {tmesg : Str} {s : State}
    (nonneg : 0 ≤ s.tstCount) :
    tstCounted env fuel ttype tmesg s =
      (byMode env fuel ttype tmesg s).bind (fun t => .ok { t with tstCount := t.tstCount + 1 }) := by
  rw [tstCounted, if_neg (Int.not_lt.mpr nonneg)]
  rfl

def tstRes (env : Env) (fuel : Nat) (ttype : CInt) (fname : Option Str) (mesg : Str) (s : State) :
    Outcome :=
  let tmesg := expandVarArgs mesg
  if tmesg = [] then .error (.abort s)
  else
    let s := { s with exitval := s.exitval ||| ttypeResult ttype, tOut := some (s.tOut.getD []) }
    let s := (attach env fname (checkEnv env s)).report (ttypeResult ttype) tmesg
    if ttypeResult ttype = tWarn ∨ ttypeResult ttype = tInfo then
      tstPrint env fuel s.tcid 0 ttype tmesg s
    else tstCounted env fuel ttype tmesg s

def tstFlush (env : Env) (fuel : Nat) (s : State) : Outcome :=
  match s.buffered with
  | none => .ok s
  | some last =>
    if s.mode = .nopass then do
      let s ← tstPrint env fuel last.tcid last.num last.type last.mesg s
      return { s with buffered := none }
    else .ok s

theorem flush_held {env : Env} {fuel : Nat} {s : State} {last : Last}
    (buffered : s.buffered = some last) (mode : s.mode = .nopass) :
    tstFlush env fuel s = (tstPrint env fuel last.tcid last.num last.type last.mesg s).bind
      (fun t => .ok { t with buffered := none }) := by
  unfold tstFlush
  split
  · rename_i none
    cases none.symm.trans buffered
  · rename_i last' held
    obtain rfl : last' = last := Option.some.inj (held.symm.trans buffered)
    rw [if_pos mode]
    rfl

/-- `T_exitval & ~(TRETR | TINFO | TCONF)` -/
def exitStatus (s : State) : CInt := s.exitval &&& ~~~ (tRetr ||| tInfo ||| tConf)

def tstExit (env : Env) (fuel : Nat) (s : State) : Outcome := do
  let s ← tstFlush env fuel s
  .error (.exit (exitStatus s) s)

theorem exit_flushed {env : Env} {fuel : Nat} {s s' : State}
    (flushed : tstFlush env fuel s = .ok s') :
    tstExit env fuel s = .error (.exit (exitStatus s') s') := by
  rw [tstExit, flushed]
  rfl

def isBrkType (ttype : CInt) : Bool :=
  ttypeResult ttype = tFail ∨ ttypeResult ttype = tBrok ∨ ttypeResult ttype = tConf ∨ ttypeResult ttype = tRetr

def invalidType (ttype : CInt) : Str :=
  "tst_brk: Invalid Type: ".toList ++ decimal (ttypeResult ttype).toInt ++ ". Using TBROK".toList

def remainingNotAppropriate : Str := "Remaining cases not appropriate for configuration".toList
def remainingRetired : Str := "Remaining cases retired".toList
def remainingBroken : Str := "Remaining cases broken".toList

/-- `ttype = (ttype & ~ttype_result) | TBROK` for an unsupported type. -/
def brkType (ttype : CInt) : CInt :=
  if isBrkType ttype then ttype else (ttype &&& ~~~ ttypeResult ttype) ||| tBrok

def brkWarn (env : Env) (fuel : Nat) (ttype : CInt) (s : State) : Outcome :=
  if isBrkType ttype then .ok s else warn (tstPrint env fuel) (invalidType ttype) s

/-- `tested` is `ttype_result`, taken from the caller's type before it was substituted. -/
def brkRemaining (env : Env) (fuel : Nat) (tested ttype : CInt) (s : State) : Outcome :=
  if s.tstBrkEntered = 0 then
    if tested = tConf then tstRes env fuel ttype none remainingNotAppropriate s
    else if tested = tRetr then tstRes env fuel ttype none remainingRetired s
    else if tested = tBrok then tstRes env fuel tBrok none remainingBroken s
    else .ok s
  else .ok s

/-- `func` is the cleanup function, none for NULL. -/
def brkCleanup (func : Option (State → Outcome)) (s : State) : Outcome :=
  match func with
  | none => .ok s
  | some func => do
    let s ← func { s with tstBrkEntered := s.tstBrkEntered + 1 }
    return { s with tstBrkEntered := s.tstBrkEntered - 1 }

def tstBrk (env : Env) (fuel : Nat) (ttype : CInt) (fname : Option Str)
    (func : Option (State → Outcome)) (mesg : Str) (s : State) : Outcome :=
  let tmesg := expandVarArgs mesg
  if tmesg = [] then .error (.abort s)
  else do
    let s ← brkWarn env fuel ttype s
    let s ← tstRes env fuel (brkType ttype) fname tmesg s
    let s ← brkRemaining env fuel (ttypeResult ttype) (brkType ttype) s
    let s ← brkCleanup func s
    if s.tstBrkEntered = 0 then tstExit env fuel s else .ok s

def tstResm (env : Env) (fuel : Nat) (ttype : CInt) (mesg : Str) (s : State) : Outcome :=
  let tmesg := expandVarArgs mesg
  if tmesg = [] then .error (.abort s) else tstRes env fuel ttype none tmesg s

theorem ttype_result_idem (ttype : CInt) : ttypeResult (ttypeResult ttype) = ttypeResult ttype := by
  simp only [ttypeResult, BitVec.and_assoc, BitVec.and_self]

theorem strttype_result (ttype : CInt) : strttype (ttypeResult ttype) = strttype ttype := by
  unfold strttype
  rw [ttype_result_idem]

theorem no_flags_result (ttype : CInt) :
    ttypeResult ttype &&& tErrno = 0 ∧ ttypeResult ttype &&& tTErrno = 0 := by
  simp only [ttypeResult, BitVec.and_assoc]
  constructor
  · rw [show ttypeMask &&& tErrno = 0#32 from rfl]
    exact BitVec.and_zero
  · rw [show ttypeMask &&& tTErrno = 0#32 from rfl]
    exact BitVec.and_zero

theorem no_errno_suffix (env : Env) {ttype : CInt} (err testErrno : CInt)
    (flagless : ttype &&& tErrno = 0 ∧ ttype &&& tTErrno = 0) :
    errnoSuffix env ttype err testErrno = [] := by
  simp [errnoSuffix, flagless.1, flagless.2]

end VteTstRes
