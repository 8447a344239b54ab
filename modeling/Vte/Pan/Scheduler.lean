import Mathlib.Algebra.Order.Ring.Nat
import Vte.Base.Machine
import Vte.Base.Text

/-!
pan/ltp-pan.c: the main loop with run_child and check_pids, next to the kernel's table of pan's
children. Between two steps of pan the kernel may change the state of any child.
-/
namespace VteScheduler
open Text

structure CollEntry where
  name : Str
  cmdline : Str

abbrev Signal := { sig : Nat // 0 < sig }

def sighup : Nat := 1
def sigint : Nat := 2
def sigkill : Nat := 9
def sigusr1 : Nat := 10
def sigusr2 : Nat := 12
def sigterm : Nat := 15

inductive Status where
  | exited (code : Nat)
  | signaled (sig : Signal)
  | stopped (sig : Signal)
  | continued

def Status.terminated : Status → Bool
  | .exited _ => true
  | .signaled _ => true
  | _ => false

def Status.text : Status → Str
  | .exited _ => "exited".toList
  | .signaled _ => "signaled".toList
  | .stopped _ => "stopped".toList
  | .continued => "unknown".toList

def Status.termId : Status → Nat
  | .exited code => code
  | .signaled sig => sig
  | .stopped sig => sig
  | .continued => 0

/-- A child that has not been waited for; `news` is what `waitpid` can report. -/
structure Child where
  pid : Nat
  inGroup : Bool
  news : Option Status

structure Slot where
  pgrp : Nat
  stopping : Bool
  cmd : Option CollEntry

structure Opts where
  keepActive : Nat
  sequential : Bool
  hasBrakes : Bool
  trackExitStats : Bool
  fmtPrint : Bool
  logfile : Bool
  failcmdfile : Bool
  /-- output goes to files in a directory -/
  testOutDir : Bool

inductive Line where
  | result (name verdict : Str) (value : Nat)
  | tag (name exit : Str) (stat : Nat)

/-- `"%-30.30s %-10.10s %-5d\n"` for a result; of a tag without the times. -/
def Line.text : Line → Str
  | .result name verdict value =>
    padRight 30 (name.take 30) ++ [' '] ++ padRight 10 (verdict.take 10) ++ [' '] ++
      padRight 5 (decimal value) ++ ['\n']
  | .tag name exit stat =>
    "tag=".toList ++ name ++ " exit=".toList ++ exit ++ " stat=".toList ++ decimal stat ++ ['\n']

inductive Pc where
  | schedule
  | poll (i pcnt : Nat)
  | wait
  | exited
  | rebooted
  | crashed

structure State where
  running : List Slot
  numActive : Int
  starts : Int
  stop : Nat
  goIdle : Nat
  forkInRoad : Bool
  exitStat : Nat
  failcnt : Nat
  c : Nat
  recSignal : Nat
  sendSignal : Nat
  lastsent : Nat
  log : List Line
  failcmds : List (Str × Str)
  children : List Child
  pc : Pc

def defaultStarts (timed sequential : Bool) (starts : Int) (keepActive cnt : Nat) : Int :=
  if timed ∧ starts = -1 then -1
  else if starts = -1 then if sequential then cnt else 1
  else if starts = 0 then -1
  else if starts < keepActive then keepActive
  else starts

def initial (o : Opts) (starts : Int) (forkInRoad : Bool) : State where
  running := List.replicate o.keepActive { pgrp := 0, stopping := false, cmd := none }
  numActive := 0
  starts
  stop := 0
  goIdle := 0
  forkInRoad
  exitStat := 0
  failcnt := 0
  c := 0
  recSignal := 0
  sendSignal := 0
  lastsent := 0
  log := []
  failcmds := []
  children := []
  pc := .schedule

def State.waitHandler (s : State) (sig : Nat) : State :=
  if sig = sigusr2 then { s with recSignal := sig }
  else
    let send :=
      if s.lastsent = 0 then sig
      else if s.lastsent = sigusr1 then sigint
      else if s.lastsent = sig then sigterm
      else if s.lastsent = sigterm then sighup
      else if s.lastsent = sighup then sigkill
      else s.sendSignal
    { s with recSignal := sig, sendSignal := send, lastsent := send }

inductive Launch where
  | noOutput
  | noPipe
  | noFork
  /-- no exec; the wait for the child may be interrupted, which leaves the child with this pid -/
  | failed (status : Status) (left : Option Nat)
  /-- the read from the child is interrupted, and the length of its message is garbage -/
  | garbled
  | started (pid : Nat)

def fresh (children : List Child) (pid : Nat) : Bool :=
  pid != 0 && children.all (·.pid != pid)

def Launch.possible (o : Opts) (children : List Child) : Launch → Bool
  | .noOutput => o.testOutDir
  | .failed status none => status.terminated
  | .failed _ (some pid) => fresh children pid
  | .started pid => fresh children pid
  | _ => true

def newChild (pid : Nat) : Child := { pid, inGroup := true, news := none }

/-- `run_child` for the command in slot `i`; the pid, or none for -1. -/
def runChild (o : Opts) (colle : CollEntry) (i : Nat) (result : Launch) (s : State) :
    State × Option Nat :=
  match result with
  | .noOutput => (s, none)
  | .noPipe => (s, none)
  | .noFork => ({ s with running := s.running.modify i ({ · with cmd := some colle }) }, none)
  | .garbled => ({ s with pc := .crashed }, none)
  | .failed status left =>
    let termid := status.termId
    let lines :=
      if !o.logfile then []
      else if !o.fmtPrint then [.tag colle.name status.text termid]
      else [.result colle.name (if termid ≠ 0 then "FAIL" else "PASS").toList termid]
    ({ s with
      running := s.running.modify i ({ · with cmd := some colle })
      failcnt := s.failcnt + if o.logfile ∧ o.fmtPrint ∧ termid ≠ 0 then 1 else 0
      log := s.log ++ lines
      children := s.children ++ (left.map newChild).toList }, none)
  | .started pid =>
    ({ s with
      running := s.running.modify i fun _ => { pgrp := pid, stopping := false, cmd := some colle }
      children := s.children ++ [newChild pid] }, some pid)

def State.wantsStart (o : Opts) (s : State) : Bool :=
  decide (s.numActive < o.keepActive) && s.starts != 0

def State.held (s : State) : Bool := s.stop != 0 || s.recSignal != 0 || s.goIdle != 0

def State.freeSlot (s : State) : Option Nat := s.running.findIdx? (·.pgrp == 0)

def State.next (o : Opts) (coll : List CollEntry) (draw : Nat) (s : State) : Nat :=
  if o.sequential then s.c else draw % coll.length

/-- The counters after `run_child` for the command `c`. -/
def afterRun (o : Opts) (coll : List CollEntry) (c : Nat) (r : State × Option Nat) : State :=
  { r.1 with
    numActive := if r.2.isSome then r.1.numActive + 1 else r.1.numActive
    starts := if (r.2.isSome || o.sequential) ∧ 0 < r.1.starts then r.1.starts - 1 else r.1.starts
    c := if o.sequential then (if coll.length ≤ c + 1 then 0 else c + 1) else c }

def launch (o : Opts) (coll : List CollEntry) (draw : Nat) (result : Launch) (s : State) :
    Option State :=
  if s.wantsStart o ∧ !s.held ∧ result.possible o s.children then do
    let i ← s.freeSlot
    let c := s.next o coll draw
    let colle ← coll[c]?
    some (afterRun o coll c (runChild o colle i result s))
  else none

def State.abort (s : State) : State :=
  let s := s.waitHandler sigint
  { s with exitStat := s.exitStat + 1 }

/-- A received signal idles or stops the scheduler; `propagate_signal` sends it on. -/
def State.onSignal (s : State) : State :=
  if s.recSignal = 0 then s
  else
    let forkInRoad := if s.recSignal = sigusr1 then false else s.forkInRoad
    let running :=
      if s.recSignal = sigusr2 then s.running
      else s.running.map fun slot => if slot.pgrp = 0 then slot else { slot with stopping := true }
    { s with
      running
      forkInRoad
      goIdle := if forkInRoad then s.goIdle + 1 else s.goIdle
      stop := if forkInRoad then s.stop else s.stop + 1
      recSignal := 0
      sendSignal := 0 }

/-- `running->cmd`, the command of the first slot. -/
def State.cmd (s : State) : Option CollEntry := s.running.head?.bind (·.cmd)

/-- The way into `check_pids`, which reads the name of the first slot's command. -/
def State.checkPc (o : Opts) (s : State) : Pc :=
  if !o.logfile then .wait else if s.cmd.isSome then .poll 0 0 else .crashed

/-- What follows the inner loop, up to the wait in `check_pids`. -/
def turn (o : Opts) (stopFile : Bool) (s : State) : Option State :=
  if s.wantsStart o ∧ !s.held ∧ s.freeSlot.isSome then none
  else
    let s := if s.wantsStart o ∧ !s.held then s.abort else s
    let s :=
      if s.starts = 0 ∨ (s.starts = -1 ∧ stopFile) then { s with stop := s.stop + 1 } else s
    let s := s.onSignal
    some { s with pc := s.checkPc o }

def onError (o : Opts) (s : State) : State :=
  let s := { s with
    goIdle := if s.forkInRoad then s.goIdle + 1 else s.goIdle
    exitStat := if o.trackExitStats then s.exitStat + 1 else s.exitStat }
  if o.hasBrakes then s.waitHandler sigint else s

def State.exitTest (s : State) : State :=
  if s.stop ≠ 0 ∧ s.numActive = 0 then { s with pc := .exited }
  else if s.goIdle ≠ 0 ∧ s.numActive = 0 then { s with goIdle := 0, lastsent := 0, pc := .schedule }
  else { s with pc := .schedule }

/-- What follows `check_pids`, whose result is `err`. -/
def finish (o : Opts) (err : Int) (s : State) : State :=
  (if err = 0 then s else onError o s).exitTest

def isSuffixChar (c : Char) : Bool := c = 'L' || c = 'H' || c = 'U'

def suffixLength (name : Str) : Nat := (name.reverse.takeWhile isSuffixChar).length

/-- The name without `_L`, `_H`, `_U`, as far as the code finds them. -/
def oricom (name : Str) : Str :=
  if suffixLength name < name.length ∧ 0 < suffixLength name then
    name.take (name.length - suffixLength name - 1)
  else name

def State.name (s : State) : Str := (s.cmd.map (·.name)).getD []

def timeout (name : Str) : Nat :=
  if name.getLast? = some 'U' then 0xffffffff
  else
    3600 + ((name.reverse.takeWhile fun c => c = 'L' || c = 'H').map fun c =>
      if c = 'L' then 1800 else 3600).sum

/-- The end of the command in slot `i`, whose child has been reported. -/
def endSlot (o : Opts) (i : Nat) (slot : Slot) (status : Status) (ret : Int) (s : State) : State × Int :=
  let forgiven := status.termId = 130 ∧ slot.stopping = true ∧ status.text = "exited".toList
  let w := if forgiven then 0 else status.termId
  let ret := if forgiven then ret - 1 else ret
  let own := (slot.cmd.map (·.name)).getD []
  let lines :=
    if !o.logfile then []
    else if !o.fmtPrint then [.tag own status.text w]
    else [.result (oricom s.name) (if w ≠ 0 then "FAIL" else "PASS").toList w]
  ({ s with
    failcnt := s.failcnt + if o.logfile ∧ o.fmtPrint ∧ w ≠ 0 then 1 else 0
    log := s.log ++ lines
    failcmds := s.failcmds ++
      if o.failcmdfile ∧ w ≠ 0 then [(own, (slot.cmd.map (·.cmdline)).getD [])] else []
    running := s.running.set i { slot with pgrp := 0 } },
   if status.text = "signaled".toList ∧ slot.stopping = false then ret + 1 else ret)

/-- What a change of state adds to the result of `check_pids`, before the slot is looked at. -/
def Status.ret : Status → Int
  | .exited code => if code ≠ 0 then 1 else 0
  | .signaled _ => 0
  | .stopped _ => 1
  | .continued => 1

/-- The part of `check_pids` after `STEP2`, for the child reported. -/
def ended (o : Opts) (pid : Nat) (status : Status) (s : State) : State × Int :=
  let s := if status.terminated then { s with numActive := s.numActive - 1 } else s
  match s.running.findIdx? (·.pgrp == pid) with
  | none => (s, status.ret)
  | some i =>
    match s.running[i]? with
    | none => (s, status.ret)
    | some slot => endSlot o i slot status status.ret s

def updateChild (pid : Nat) (f : Child → Child) (children : List Child) : List Child :=
  children.map fun child => if child.pid = pid then f child else child

def reported (pid : Nat) (status : Status) (children : List Child) : List Child :=
  if status.terminated then children.filter (·.pid != pid)
  else updateChild pid ({ · with news := none }) children

/-- The children that `waitpid` for a process group of 0, or for a child, asks for. -/
def Child.asked (pgrp : Nat) (child : Child) : Bool :=
  if pgrp = 0 then child.inGroup else child.pid == pgrp

def failSlot (o : Opts) (i : Nat) (s : State) : State :=
  let cmdline := (s.cmd.map (·.cmdline)).getD []
  { s with
    numActive := s.numActive - 1
    running := s.running.modify i ({ · with pgrp := 0 })
    failcmds := s.failcmds ++ if o.failcmdfile then [(s.name, cmdline)] else []
    log := s.log ++ if o.failcmdfile then [.result s.name "CFAIL".toList 128] else [] }

def pollAgain (o : Opts) (i pcnt : Nat) (s : State) : State :=
  if timeout s.name < pcnt + 1 then
    let cmdline := (s.cmd.map (·.cmdline)).getD []
    { s with
      failcmds := s.failcmds ++ if o.failcmdfile then [(s.name, cmdline)] else []
      log := s.log ++ if o.failcmdfile then [.result (oricom s.name) "TIMEOUT".toList 255] else []
      pc := .rebooted }
  else { s with pc := .poll (if i + 1 < s.running.length then i + 1 else 0) (pcnt + 1) }

inductive Act where
  | launch (draw : Nat) (result : Launch)
  | turn (stopFile : Bool)
  /-- the wait reports this child -/
  | report (pid : Nat)
  /-- `waitpid` finds nothing new -/
  | still
  /-- there is no child to wait for -/
  | noChild
  /-- `wait` is interrupted by a signal -/
  | interrupted (sig : Nat)
  | signal (sig : Nat)
  /-- the kernel: a child changes its state, or leaves pan's process group -/
  | news (pid : Nat) (status : Status)
  | leave (pid : Nat)

def Child.report (s : State) (child : Child) : Option Status :=
  match s.pc with
  | .poll i _ =>
    match s.running[i]? with
    | some slot => if child.asked slot.pgrp then child.news else none
    | none => none
  | .wait => child.news.filter (·.terminated)
  | _ => none

def step (o : Opts) (coll : List CollEntry) : Act → State → Option State
  | .launch draw result, s =>
    match s.pc with
    | .schedule => launch o coll draw result s
    | _ => none
  | .turn stopFile, s =>
    match s.pc with
    | .schedule => turn o stopFile s
    | _ => none
  | .report pid, s => do
    let child ← s.children.find? (·.pid == pid)
    let status ← child.report s
    let r := ended o pid status { s with children := reported pid status s.children }
    some (finish o r.2 r.1)
  | .still, s =>
    match s.pc with
    | .poll i pcnt => do
      let slot ← s.running[i]?
      let asked := s.children.filter (·.asked slot.pgrp)
      if asked ≠ [] ∧ asked.all (·.news.isNone) then some (pollAgain o i pcnt s) else none
    | _ => none
  | .noChild, s =>
    match s.pc with
    | .poll i _ => do
      let slot ← s.running[i]?
      if s.children.all (!·.asked slot.pgrp) then some (finish o 0 (failSlot o i s)) else none
    | .wait => if s.children.isEmpty then some (finish o 0 s) else none
    | _ => none
  | .interrupted sig, s =>
    match s.pc with
    | .wait => if s.children.isEmpty then none else some (finish o 0 (s.waitHandler sig))
    | _ => none
  | .signal sig, s => some (s.waitHandler sig)
  | .news pid status, s =>
    match s.children.find? (·.pid == pid) with
    | some child =>
      if child.news.any (·.terminated) then none
      else some { s with children := updateChild pid ({ · with news := some status }) s.children }
    | none => none
  | .leave pid, s =>
    some { s with children := updateChild pid ({ · with inGroup := false }) s.children }

end VteScheduler
