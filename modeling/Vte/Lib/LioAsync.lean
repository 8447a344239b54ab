import Mathlib.Data.Finset.Basic
import Vte.Base.CInt
import Vte.Base.Machine

/-!
`lio_write_buffer` and `lio_read_buffer` on Linux, with the calls that start a request in the kernel:
the signal setup, the submission, `lio_wait4asyncio` and `lio_check_asyncio`, step by step beside the
request, its completion signal or callback, and the caller's signal mask.
-/
namespace VteLio
open CInt Machine

def lioIoSync : BitVec 32 := 0o1#32
def lioIoAsync : BitVec 32 := 0o2#32
def lioIoSlistio : BitVec 32 := 0o4#32
def lioIoAlistio : BitVec 32 := 0o10#32
def lioIoSyncv : BitVec 32 := 0o20#32
def lioIoSyncp : BitVec 32 := 0o40#32
def lioIoTypes : BitVec 32 := 0o61#32
def lioIoAtypes : BitVec 32 := 0o77#32

def lioWaitNone : BitVec 32 := 0o10000#32
def lioWaitActive : BitVec 32 := 0o20000#32
def lioWaitRecall : BitVec 32 := 0o40000#32
def lioWaitSigpause : BitVec 32 := 0o100000#32
def lioWaitSigactive : BitVec 32 := 0o200000#32
def lioWaitCbsuspend : BitVec 32 := 0o400000#32
def lioWaitSigsuspend : BitVec 32 := 0o1000000#32
def lioWaitTypes : BitVec 32 := 0o20000#32
def lioWaitCbtypes : BitVec 32 := lioWaitCbsuspend
def lioWaitSigtypes : BitVec 32 := lioWaitSigpause ||| lioWaitSigactive ||| lioWaitSigsuspend

def lioRandom : BitVec 32 := 0o10000000#32
def lioUseSignal : BitVec 32 := 0o20000000#32

def eintr : Int := 4
def eio : Int := 5
def espipe : Int := 29
def einprogress : Int := 115

def Has (method bits : BitVec 32) : Prop := method &&& bits ≠ 0#32

instance (method bits : BitVec 32) : Decidable (Has method bits) :=
  inferInstanceAs (Decidable (method &&& bits ≠ 0#32))

/-- The bits are what `random_bit` drew from the io types and from the wait methods. -/
def lioRandomMethods (currMask ioBit waitBit : BitVec 32) : BitVec 32 :=
  currMask &&& ~~~(lioIoTypes ||| lioWaitTypes ||| lioRandom) ||| ioBit ||| waitBit

inductive Direction where
  | write
  | read
deriving DecidableEq

inductive Notify where
  | none
  | signal
  | thread
deriving DecidableEq

structure Aiocb where
  aioFildes : Int
  aioNbytes : Nat
  aioOffset : Int
  aioLioOpcode : Direction
  sigevNotify : Notify
  sigevSigno : Int
  sigevNotifyAttributes : Int

/-- The arguments, the draws of `random_bit`, and what `lseek` returns with `errno` after it. -/
structure Args where
  direction : Direction
  fd : Int
  method : BitVec 32
  size : Int
  sig : Int
  ioBit : BitVec 32
  waitBit : BitVec 32
  seek : Int
  seekErrno : Int

def chosenMethod (args : Args) : BitVec 32 :=
  if Has args.method lioRandom then lioRandomMethods args.method args.ioBit args.waitBit
  else args.method

/-- On a fifo a `pread` or `pwrite` that was drawn becomes a `read` or `write`. -/
def usedMethod (args : Args) : BitVec 32 :=
  let method := chosenMethod args
  if int32 args.seek = -1 ∧ args.seekErrno = espipe ∧ Has method lioIoSyncp ∧ Has args.method lioRandom then
    method &&& ~~~lioIoSyncp ||| lioIoSync
  else method

def usedSignal (method : BitVec 32) (sig : Int) : Int :=
  let kept := if sig ≠ 0 ∧ ¬ Has method lioUseSignal ∧ ¬ Has method lioWaitSigtypes then 0 else sig
  if kept ≠ 0 ∧ Has method lioWaitCbtypes then 0 else kept

def notifyOf (method : BitVec 32) (sig : Int) : Notify :=
  if sig ≠ 0 ∧ Has method lioWaitSigtypes then .signal
  else if Has method lioWaitCbtypes then .thread
  else .none

inductive IoCall where
  | sync
  | async
  | slistio
  | alistio
  | syncv
  | syncp
  | unknown
deriving DecidableEq

def ioCall (method : BitVec 32) : IoCall :=
  if Has method lioIoSync ∨ ¬ Has method (lioIoTypes ||| lioIoAtypes) then .sync
  else if Has method lioIoAsync then .async
  else if Has method lioIoSlistio then .slistio
  else if Has method lioIoAlistio then .alistio
  else if Has method lioIoSyncv then .syncv
  else if Has method lioIoSyncp then .syncp
  else .unknown

structure Call where
  method : BitVec 32
  size : Int
  sig : Int
  io : IoCall
  aiocb : Aiocb

def setup (args : Args) : Call :=
  let method := usedMethod args
  let sig := usedSignal method args.sig
  let notify := notifyOf method sig
  let io := ioCall method
  { method := method
    size := args.size
    sig := sig
    io := io
    aiocb :=
      { aioFildes := args.fd
        aioNbytes := u64 args.size
        aioOffset := if int32 args.seek = -1 then 0 else int32 args.seek
        aioLioOpcode := if io = .slistio ∨ io = .alistio then args.direction else .read
        sigevNotify := notify
        sigevSigno := if notify = .signal then sig else 0
        sigevNotifyAttributes := if notify = .thread then args.size else 0 } }

/-- What `sigset`, `sighold` and `sigrelse` take: not SIGKILL and SIGSTOP, and not the two signals
    that the C library keeps for itself. -/
def catchable (sig : Int) : Bool :=
  1 ≤ sig ∧ sig ≤ 64 ∧ sig ≠ 9 ∧ sig ≠ 19 ∧ sig ≠ 32 ∧ sig ≠ 33

def deadly (sig : Int) : Bool := sig = 9 ∨ sig = 19

inductive Outcome where
  | transferred (n : Nat)
  | failed (errno : Int)
deriving DecidableEq

/-- Linux transfers no more than `0x7ffff000` bytes at a time. -/
def Outcome.Possible (size : Nat) : Outcome → Prop
  | .transferred n => n ≤ size ∧ n ≤ 0x7ffff000
  | .failed errno => 0 < errno ∧ errno ≠ einprogress

instance (size : Nat) (o : Outcome) : Decidable (o.Possible size) :=
  match o with
  | .transferred n => inferInstanceAs (Decidable (n ≤ size ∧ n ≤ 0x7ffff000))
  | .failed errno => inferInstanceAs (Decidable (0 < errno ∧ errno ≠ einprogress))

inductive Request where
  | unsubmitted
  | inProgress
  | done (o : Outcome)
deriving DecidableEq

inductive Pc where
  | ready
  | held
  | listing
  | suspended
  | active
  | paused
  | spinning
  | check
  | polling (cnt : Nat)
  | returned (ret : Int)
  | synchronous
  | gone
deriving DecidableEq

structure State where
  pc : Pc
  mask : Finset Int
  errno : Int
  request : Request
  notified : Bool
  pending : Bool
  receivedSignal : Nat
  recSignal : Nat
  receivedCallback : Nat

inductive Wakeup where
  | done
  | fails (errno : Int)

inductive Act where
  | complete (o : Outcome)
  | generate
  | deliver
  | callback
  | crash
  | hold
  | submit (answer : Option Int)
  | listed (answer : Wakeup)
  | resumed (answer : Wakeup)
  | pauseEnds
  | spin
  | release
  | aioError

def sigset (sig : Int) (mask : Finset Int) : Finset Int :=
  if catchable sig then mask.erase sig else mask

def sighold (sig : Int) (mask : Finset Int) : Finset Int :=
  if catchable sig then insert sig mask else mask

def sigrelse (sig : Int) (mask : Finset Int) : Finset Int :=
  if catchable sig then mask.erase sig else mask

/-- The call after its setup, or after an `lseek` that failed; `received` signals and `callbacks` are
    from calls before it. -/
def start (args : Args) (mask : Finset Int) (received callbacks : Nat) : State :=
  let c := setup args
  { pc :=
      if int32 args.seek = -1 ∧ args.seekErrno ≠ espipe then .returned (-args.seekErrno)
      else if c.io = .async ∨ c.io = .slistio ∨ c.io = .alistio then .ready
      else .synchronous
    mask :=
      if int32 args.seek = -1 ∧ args.seekErrno ≠ espipe then mask
      else if c.aiocb.sigevNotify = .signal then sigset c.sig mask
      else mask
    errno := args.seekErrno
    request := .unsubmitted
    notified := false
    pending := false
    receivedSignal := received
    recSignal := received
    receivedCallback := callbacks }

/-- A system call fails: `if (sig) sigrelse(sig); return -errno;`. -/
def callFails (c : Call) (errno : Int) (s : State) : State :=
  { s with
    mask := if c.sig ≠ 0 then sigrelse c.sig s.mask else s.mask
    errno := errno
    pc := .returned (-errno) }

def lioWait4asyncio (c : Call) (s : State) : State :=
  if Has c.method lioWaitRecall ∨ Has c.method lioWaitCbsuspend ∨ Has c.method lioWaitSigsuspend ∨
      ¬ Has c.method lioWaitTypes then
    { s with pc := .suspended }
  else if Has c.method lioWaitActive then { s with pc := .active }
  else if Has c.method lioWaitSigpause then { s with pc := .paused }
  else if Has c.method lioWaitSigactive then
    if c.aiocb.sigevNotify = .signal then
      { s with mask := sigrelse c.aiocb.sigevSigno s.mask, pc := .spinning }
    else { s with pc := .returned (-1) }
  else { s with pc := .returned (-1) }

def submitted (c : Call) (s : State) : State :=
  let s := { s with request := .inProgress }
  if c.io = .slistio then { s with pc := .listing } else lioWait4asyncio c s

/-- `lio_listio` with `LIO_WAIT` answers for the one request of its list. -/
def listed (c : Call) (answer : Wakeup) (s : State) : Option State :=
  match answer with
  | .fails errno => some (callFails c errno s)
  | .done =>
    match s.request with
    | .done (.transferred _) => some { s with pc := .check }
    | .done (.failed _) => some (callFails c eio s)
    | _ => none

/-- `aio_suspend` answers: a signal that interrupts it is expected where one is asked for. -/
def resumed (c : Call) (answer : Wakeup) (s : State) : Option State :=
  match answer with
  | .done =>
    match s.request with
    | .done _ => some { s with pc := .check }
    | _ => none
  | .fails errno =>
    if errno = eintr ∧ c.aiocb.sigevNotify = .signal then
      some { s with errno := errno, pc := .check }
    else some { s with errno := errno, pc := .returned (-errno) }

/-- One call of `aio_error` in `lio_check_asyncio`, the `cnt`-th, and what follows it. -/
def lioCheckAsyncio (cnt : Nat) (s : State) : Option State :=
  match s.request with
  | .unsubmitted => none
  | .inProgress => some { s with pc := .polling (cnt + 1) }
  | .done (.failed errno) => some { s with pc := .returned (-errno) }
  | .done (.transferred n) =>
    if 1 < cnt then some { s with pc := .returned (-0) }
    else some { s with pc := .returned (int32 n) }

def step (c : Call) (act : Act) (s : State) : Option State :=
  match act with
  | .complete o =>
    if s.request = .inProgress ∧ o.Possible c.aiocb.aioNbytes then
      some { s with request := .done o }
    else none
  | .generate =>
    match s.request with
    | .done _ =>
      if c.aiocb.sigevNotify = .signal ∧ s.notified = false then
        if catchable c.aiocb.sigevSigno then some { s with notified := true, pending := true }
        else if deadly c.aiocb.sigevSigno then some { s with notified := true, pc := .gone }
        else none
      else none
    | _ => none
  | .deliver =>
    if s.pending = true ∧ c.aiocb.sigevSigno ∉ s.mask then
      some { s with pending := false, receivedSignal := s.receivedSignal + 1 }
    else none
  | .callback =>
    match s.request with
    | .done _ =>
      if c.aiocb.sigevNotify = .thread ∧ s.notified = false then
        some { s with notified := true, receivedCallback := s.receivedCallback + 1 }
      else none
    | _ => none
  | .crash =>
    -- the attributes of the thread are the size where they should be a pointer
    match s.request with
    | .done _ =>
      if c.aiocb.sigevNotify = .thread ∧ s.notified = false ∧ c.aiocb.sigevNotifyAttributes ≠ 0 then
        some { s with notified := true, pc := .gone }
      else none
    | _ => none
  | .hold =>
    match s.pc with
    | .ready => some { s with mask := if c.sig ≠ 0 then sighold c.sig s.mask else s.mask, pc := .held }
    | _ => none
  | .submit answer =>
    match s.pc, answer with
    | .held, none => some (submitted c s)
    | .held, some errno => some (callFails c errno s)
    | _, _ => none
  | .listed answer =>
    match s.pc with
    | .listing => listed c answer s
    | _ => none
  | .resumed answer =>
    match s.pc with
    | .suspended => resumed c answer s
    | _ => none
  | .pauseEnds =>
    match s.pc with
    | .paused => some { s with pc := .check }
    | _ => none
  | .spin =>
    match s.pc with
    | .spinning =>
      if s.receivedSignal = s.recSignal then
        some { s with mask := sigrelse c.aiocb.sigevSigno s.mask }
      else some { s with pc := .check }
    | _ => none
  | .release =>
    match s.pc with
    | .check =>
      some { s with
        mask :=
          if c.aiocb.sigevNotify = .signal then sigrelse c.aiocb.sigevSigno s.mask else s.mask
        pc := .polling 1 }
    | _ => none
  | .aioError =>
    match s.pc with
    | .active =>
      if s.request = .inProgress then some s else some { s with pc := .check }
    | .polling cnt => lioCheckAsyncio cnt s
    | _ => none

end VteLio
