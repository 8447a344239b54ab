import Mathlib.Logic.Function.Basic
import Vte.Base.Machine
import Vte.Sched.Process

/-!
kernel/sched/process_stress/process.c: what the processes of the tree do at the same time. A step is a fork, an
operation on a semaphore or the message queue, or what lies between two of them; each process has its own copy
of the stack of its parent. The queue has room, no timer expires, and no call fails but `SETVAL` with a
negative value.
-/
namespace Handshake
open Function Process

structure Params where
  args : Args
  /-- the process id that the process of each slot gets -/
  pid : Nat → Int
  /-- the first process is there until all others have been forked -/
  pid_first : ∀ slot, slot ≠ 0 → pid slot ≠ pid 0

/-- `parse_args` refuses negative values. -/
def Params.BVAL (p : Params) : Nat := p.args.BVAL.toNat

def Params.DVAL (p : Params) : Nat := p.args.DVAL.toNat

structure Frame where
  val : Nat
  i : Nat
  pslot : Int
deriving DecidableEq

inductive Pc where
  /-- not forked yet -/
  | absent
  /-- about to call `put_proc_info` -/
  | start
  | fork
  /-- in `notify`, about to send to the entry `i` of its list -/
  | send (i : Nat)
  | receive (cldcnt : Nat)
  /-- `semoper(tval, sem_count, 0)` -/
  | semZero
  /-- `semoper(slot, sem_lock, -1)` -/
  | lock (slot : Nat)
  | getval (pslot : Nat)
  | setval (pslot : Nat) (semval : Int)
  /-- `SETVAL` of the lock to 1 -/
  | unlock (pslot : Nat)
  /-- back in `doit` -/
  | doit
  | exited
deriving DecidableEq

/-- The static variables of `spawn`, and its calls, the last one first. -/
structure Proc where
  level : Nat
  tval : Nat
  frames : List Frame
  pc : Pc
deriving DecidableEq

structure Pinfo where
  pid : Int
  list : List Int
deriving DecidableEq

structure Msg where
  mtyp : Int
  ndx : Nat
  slot : Nat
  pid : Int
deriving DecidableEq

structure State where
  proc : Nat → Proc
  shm : Nat → Pinfo
  queue : List Msg
  sem_count : Nat → Nat
  sem_lock : Nat → Nat
  /-- the message to the first parent that everything went well -/
  success : Bool
  /-- history: from whom each process has received valid messages -/
  got : Nat → List Nat
  /-- history: whether each process has seen its counter at zero -/
  zero : Nat → Bool
  /-- history: who has decremented each counter -/
  decremented : Nat → List Nat

section step
variable (p : Params)

/-- As the first process starts, in `doit`. -/
def init : State where
  proc := fun slot => if slot = 0 then ⟨0, 1, [], .start⟩ else ⟨0, 0, [], .absent⟩
  shm := fun _ => ⟨-1, List.replicate p.BVAL (-1)⟩
  queue := []
  sem_count := fun _ => p.BVAL
  sem_lock := fun _ => 1
  success := false
  got := fun _ => []
  zero := fun _ => false
  decremented := fun _ => []

def State.put (s : State) (slot : Nat) (pr : Proc) : State := { s with proc := update s.proc slot pr }

def semNum (slot : Nat) : Nat := (semoper p.args slot).toNat

/-- `tval` when the other turns of the loop are over, which fork nothing. -/
def lastTval (f : Frame) (tval : Nat) : Nat := if f.i < p.BVAL then f.val * p.BVAL + p.BVAL else tval

/-- What a process does when a call of `spawn` returns `r` to the calls that made it: only a -1 makes it
decrement the counter, and every other call goes on to its end. -/
def returns (r : Int) : List Frame → Nat → Pc × List Frame × Nat
  | [], tval => (.doit, [], tval)
  | f :: rest, tval =>
    if r = -1 then (.lock tval, f :: rest, tval) else returns f.pslot rest (lastTval p f tval)

def Proc.back (pr : Proc) (r : Int) (frames : List Frame) (tval : Nat) : Proc :=
  let (pc, frames, tval) := returns p r frames tval
  { pr with pc := pc, frames := frames, tval := tval }

/-- `put_proc_info`, and then the first turn of `spawn` or of `notify`. -/
def start (s : State) (slot : Nat) : State :=
  let pr := s.proc slot
  let list := if slot = 0 then (s.shm slot).list else entries p.args slot
  let s := { s with shm := update s.shm slot ⟨p.pid slot, list⟩ }
  if slot = 0 ∨ pr.level < p.DVAL then
    s.put slot { pr with level := pr.level + 1, frames := ⟨slot, 1, 0⟩ :: pr.frames, pc := .fork }
  else s.put slot { pr with pc := .send 1 }

def fork (s : State) (slot : Nat) : Option State :=
  let pr := s.proc slot
  match pr.frames with
  | [] => none
  | f :: rest =>
    let tval := f.val * p.BVAL + f.i
    let s := s.put tval ⟨pr.level, tval, f :: rest, .start⟩
    if f.i < p.BVAL then some (s.put slot { pr with tval := tval, frames := { f with i := f.i + 1 } :: rest })
    else some (s.put slot { pr with tval := tval, pc := .semZero })

def send (s : State) (slot i : Nat) : Option State := do
  let mtyp ← (s.shm slot).list[i]?
  let m : Msg := ⟨mtyp, i, slot, (s.shm slot).pid⟩
  let s := { s with queue := s.queue ++ [m] }
  let pr := s.proc slot
  some (s.put slot { pr with pc := if i + 1 < p.BVAL then .send (i + 1) else .receive 1 })

/-- `msgrcv` takes the first message of the type; one that is not valid is dropped. -/
def receive (s : State) (slot cldcnt : Nat) : Option State := do
  let m ← s.queue.find? fun m => m.mtyp = (slot : Int)
  let s := { s with queue := s.queue.erase m }
  if (s.shm m.slot).list[m.ndx]? = some (slot : Int) ∧ (s.shm m.slot).pid = m.pid then
    let s := { s with got := update s.got slot (s.got slot ++ [m.slot]) }
    let pr := s.proc slot
    -- after the last message the call that is on top returns -1
    some (s.put slot (if cldcnt + 1 < p.BVAL then { pr with pc := .receive (cldcnt + 1) }
      else pr.back p (-1) pr.frames.tail pr.tval))
  else some s

def semZero (s : State) (slot : Nat) : Option State :=
  let pr := s.proc slot
  let pslot := semNum p pr.tval
  if s.sem_count pslot = 0 then
    some ({ s with zero := update s.zero slot true }.put slot { pr with pc := .lock pslot })
  else none

def lock (s : State) (slot target : Nat) : Option State :=
  let pslot := semNum p target
  if 0 < s.sem_lock pslot then
    some ({ s with sem_lock := update s.sem_lock pslot (s.sem_lock pslot - 1) }.put slot
      { s.proc slot with pc := .getval pslot })
  else none

def getval (s : State) (slot pslot : Nat) : State :=
  s.put slot { s.proc slot with pc := .setval pslot ((s.sem_count pslot : Int) - 1) }

def setval (s : State) (slot pslot : Nat) (semval : Int) : State :=
  let s := if 0 ≤ semval then
    { s with
      sem_count := update s.sem_count pslot semval.toNat
      decremented := update s.decremented pslot (s.decremented pslot ++ [slot]) }
    else s
  s.put slot { s.proc slot with pc := .unlock pslot }

/-- The call that is on top ends, and returns `pslot`. -/
def unlock (s : State) (slot pslot : Nat) : Option State :=
  let pr := s.proc slot
  let s := { s with sem_lock := update s.sem_lock pslot 1 }
  match pr.frames with
  | [] => none
  | f :: rest => some (s.put slot (pr.back p pslot rest (lastTval p f pr.tval)))

def doit (s : State) (slot : Nat) : State :=
  { s with success := s.success || (s.shm 0).pid = p.pid slot }.put slot { s.proc slot with pc := .exited }

def step (slot : Nat) (s : State) : Option State :=
  match (s.proc slot).pc with
  | .absent | .exited => none
  | .start => some (start p s slot)
  | .fork => fork p s slot
  | .send i => send p s slot i
  | .receive cldcnt => receive p s slot cldcnt
  | .semZero => semZero p s slot
  | .lock target => lock p s slot target
  | .getval pslot => some (getval s slot pslot)
  | .setval pslot semval => some (setval s slot pslot semval)
  | .unlock pslot => unlock p s slot pslot
  | .doit => some (doit p s slot)

end step
end Handshake
