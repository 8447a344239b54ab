import Vte.Base.CInt
import Vte.Disktest.Args

/-!
testcases/kernel/io/disktest/childmain.c: how a thread gets its next action, and what the end of the
action does to the environment. Each of these runs under `MutexACTION`. The test state is kept with
the environment, as the threads change both.
-/
namespace VteDisktest
open CInt

structure TestState where
  sts : Bool
  wFst : Bool
  rFst : Bool
  /-- `TST_DIRCTN` -/
  inc : Bool
  operR : Bool

def TestState.oper (state : TestState) : Op := if state.operR then .reader else .writer

/-- `test_env_t` and the shared memory. -/
structure TestEnv where
  rlba : Int
  wlba : Int
  /-- one bit for each block from the first on -/
  wbitmap : Int → Bool
  rcount : Int
  wcount : Int
  lastAction : Action
  /-- the first `action_list_entry` entries -/
  actionList : List Action
  testState : TestState

/-- What the calls of `rand` and `Rand64` return. -/
structure Draws where
  sizes : List Nat
  lbas : List Nat

structure Proposal where
  env : TestEnv
  target : Action
  direct : Int

def Action.setOper (target : Action) (oper : Op) : Action := { target with oper }

def lastLba (lba : Int) (trsiz : Nat) : Nat := u64 (lba + (trsiz - 1))

section inUse

def hits (target entry : Action) : Bool :=
  target.lba == entry.lba || target.lba < entry.lba && u64 entry.lba ≤ lastLba target.lba target.trsiz

def actionInUse (target : Action) : List Action → Bool
  | [] => false
  | entry :: entries =>
    if hits target entry then
      match target.oper with
      | .writer => true
      | .reader => entry.oper == .writer
      | _ => true
    else actionInUse target entries

def addAction (args : ChildArgs) (target : Action) (env : TestEnv) : Option TestEnv :=
  if env.actionList.length = args.tKids then none
  else some { env with actionList := env.actionList ++ [target] }

/-- The first entry with the target's start; `abort` when there is none. -/
def removeAction (target : Action) (env : TestEnv) : Option TestEnv :=
  if env.actionList.any (·.lba == target.lba) then
    some { env with actionList := env.actionList.eraseP (·.lba == target.lba) }
  else none

end inUse

section pick
variable (args : ChildArgs)

def pickOper (env : TestEnv) : Op :=
  let flags := args.flags
  if flags.linear && !flags.ntrlvd then env.testState.oper
  else if flags.random && !flags.ntrlvd then
    if args.wperc ≤ (env.wcount * 100).tdiv (env.rcount + 1 + env.wcount) then .reader else .writer
  else if flags.ntrlvd && !env.testState.wFst then
    if flags.r && flags.w then if env.lastAction.oper = .writer then .reader else .writer
    else env.lastAction.oper
  else if env.lastAction.oper = .none then if flags.w then .writer else .reader
  else env.lastAction.oper

def usedUp (env : TestEnv) : Bool := args.flags.sks && decide (args.seeks ≤ env.wcount + env.rcount)

def drawSize (env : TestEnv) : List Nat → Option Nat
  | [] => none
  | rand :: rands =>
    let trsiz := (rand &&& 0xfff) + args.ltrsiz
    if usedUp args env || trsiz ≤ args.htrsiz then some trsiz else drawSize env rands

def pickSize (oper : Op) (sizes : List Nat) (env : TestEnv) : Option Nat :=
  let flags := args.flags
  if !flags.rtrsiz then some args.ltrsiz
  else if flags.ntrlvd && flags.w && flags.r && env.lastAction.trsiz != 0 && oper = .reader then
    some env.lastAction.trsiz
  else drawSize args env sizes

def firstLba : Int := args.startLba + args.offset

def TestEnv.position (env : TestEnv) (oper : Op) : Int :=
  if oper = .writer then env.wlba else env.rlba

def TestEnv.moveTo (env : TestEnv) (oper : Op) (lba : Int) : TestEnv :=
  if oper = .writer then { env with wlba := lba } else { env with rlba := lba }

def TestState.direct (state : TestState) : Int := if state.inc then 1 else -1

def TestState.turn (state : TestState) : TestState := { state with inc := !state.inc }

def firstTime (oper : Op) (state : TestState) : Bool :=
  oper = .writer && state.wFst || oper = .reader && state.rFst

def goesOn (oper : Op) (trsiz : Nat) (env : TestEnv) : Bool :=
  if env.testState.inc then lastLba (env.position oper) trsiz ≤ u64 args.stopLba
  else firstLba args ≤ env.position oper

def placedAt (oper : Op) (trsiz : Nat) (env : TestEnv) : Proposal where
  env := env
  target := { oper, trsiz, lba := env.position oper }
  direct := env.testState.direct

/-- The end of the range with `CLD_FLG_LUNU`: from the start again. -/
def wrapAround (oper : Op) (trsiz : Nat) (env : TestEnv) : Proposal :=
  let p := placedAt oper trsiz (env.moveTo oper (firstLba args))
  if args.flags.cyc && oper = .writer then { p with target := p.target.setOper .none } else p

/-- The end of the range with `CLD_FLG_LUND`: back again. -/
def turnAround (oper : Op) (trsiz : Nat) (env : TestEnv) : Proposal :=
  let state := env.testState.turn
  let p := placedAt oper trsiz
    ({ env with testState := state }.moveTo oper (env.position oper + state.direct * trsiz))
  if args.flags.cyc && state.inc then { p with target := p.target.setOper .none } else p

def linearLba (oper : Op) (trsiz : Nat) (env : TestEnv) : Proposal :=
  if firstTime oper env.testState then placedAt oper trsiz (env.moveTo oper (firstLba args))
  else if goesOn args oper trsiz env then placedAt oper trsiz env
  else if args.flags.lunu then wrapAround args oper trsiz env
  else if args.flags.lund then turnAround args oper trsiz env
  else placedAt oper trsiz env

def drawLba (mask : Nat) : List Nat → Option Int
  | [] => none
  | rand :: rands =>
    let lba := ((rand &&& mask : Nat) : Int) + args.startLba
    if lba ≤ args.stopLba then some lba else drawLba mask rands

def align (x : Int) (y : Nat) : Nat := u64 x / y * y

def roundLba (lba guess : Int) (trsiz : Nat) : Int :=
  if lba = guess then lba
  else if u64 (lba - guess) ≤ u64 (guess + trsiz - lba) then guess
  else if u64 args.stopLba < u64 (guess + trsiz) then guess
  else guess + trsiz

def nearLba (lba : Int) (trsiz : Nat) : Int :=
  let guess := s64 (align lba trsiz + args.offset)
  let near := if args.stopLba < guess then args.stopLba else roundLba args lba guess trsiz
  if u64 args.stopLba < lastLba near trsiz then near - trsiz else near

def randomLba (mask : Nat) (oper : Op) (trsiz : Nat) (lbas : List Nat) (env : TestEnv) : Option Int :=
  let flags := args.flags
  if flags.ntrlvd && flags.w && flags.r && oper = .reader then some env.lastAction.lba
  else (drawLba args mask lbas).map fun lba => nearLba args lba trsiz

def pickLba (mask : Nat) (oper : Op) (trsiz : Nat) (lbas : List Nat) (env : TestEnv) :
    Option Proposal :=
  if args.startBlk = args.stopBlk then
    some { env, target := { oper, trsiz, lba := firstLba args }, direct := 0 }
  else if args.flags.linear then some (linearLba args oper trsiz env)
  else if args.flags.random then
    (randomLba args mask oper trsiz lbas env).map fun lba =>
      { env, target := { oper, trsiz, lba }, direct := 0 }
  else some { env, target := { oper, trsiz, lba := 0 }, direct := 0 }

def propose (mask : Nat) (draws : Draws) (env : TestEnv) : Option Proposal :=
  (pickSize args (pickOper args env) draws.sizes env).bind fun trsiz =>
    pickLba args mask (pickOper args env) trsiz draws.lbas env

end pick

section check
variable (args : ChildArgs)

def halfDone (oper : Op) (env : TestEnv) : Bool :=
  let flags := args.flags
  !flags.ntrlvd && !flags.random && flags.w && flags.r &&
    decide (args.seeks.tdiv 2 ≤ if oper = .writer then env.wcount else env.rcount)

def checkedOper (env : TestEnv) (target : Action) : Op :=
  let oper := if args.flags.lbaSync && actionInUse target env.actionList then .retry else target.oper
  if halfDone args oper env || usedUp args env then .none else oper

/-- The place of the target's block `i` in the bitmap. -/
def bitIndex (target : Action) (i : Nat) : Int := target.lba - args.offset - args.startLba + i

def blkWritten (env : TestEnv) (target : Action) : Bool :=
  !(args.flags.cmpr || args.flags.writeOnce) ||
    (List.range target.trsiz).all fun i => env.wbitmap (u64 (bitIndex args target i))

inductive Settle where
  | keep
  | restart
  | wait
  | write
  | read
  deriving DecidableEq

def Flags.settle (flags : Flags) (oper : Op) (written : Bool) : Settle :=
  if oper = .none || oper = .retry then .keep
  else if !flags.w then .keep
  else if oper = .writer && flags.writeOnce && !written then .keep
  else if oper = .writer && !flags.writeOnce then .keep
  else if oper = .reader && written then .keep
  else if flags.linear || flags.ntrlvd && flags.random then
    if written then .keep
    else if flags.linear && !flags.ntrlvd && flags.rtrsiz && oper = .reader then .restart
    else .wait
  else if oper = .reader && flags.cmpr && !written then .write
  else .read

def Proposal.setOper (p : Proposal) (oper : Op) : Proposal :=
  { p with target := p.target.setOper oper }

def Proposal.switch (p : Proposal) (oper : Op) : Proposal where
  env := { p.env with testState := { p.env.testState with operR := oper = .reader } }
  target := p.target.setOper oper
  direct := p.direct

def Proposal.restart (p : Proposal) : Proposal where
  env := { p.env with rlba := firstLba args }
  target := { p.target with lba := firstLba args }
  direct := p.direct

def Proposal.toWriter (p : Proposal) : Proposal :=
  let p := p.switch .writer
  if args.flags.lbaSync && actionInUse p.target p.env.actionList then p.setOper .retry else p

def settled (p : Proposal) : Proposal :=
  match args.flags.settle p.target.oper (blkWritten args p.env p.target) with
  | .keep => p
  | .restart => p.restart args
  | .wait => p.setOper .retry
  | .write => p.toWriter args
  | .read => p.switch .reader

def listed (target : Action) (env : TestEnv) : Option TestEnv :=
  if args.flags.lbaSync then addAction args target env else some env

def startWrite (p : Proposal) : TestEnv :=
  { p.env with
    wcount := p.env.wcount + 1
    rlba := if args.flags.lund then p.env.wlba else p.env.rlba
    wlba := p.env.wlba + p.direct * p.target.trsiz
    testState := { p.env.testState with wFst := false }
    lastAction := p.target }

def startRead (p : Proposal) : TestEnv :=
  { p.env with
    rcount := p.env.rcount + 1
    rlba := p.env.rlba + p.direct * p.target.trsiz
    testState := { p.env.testState with rFst := false }
    lastAction := p.target }

def record (p : Proposal) : Option TestEnv :=
  match p.target.oper with
  | .writer => listed args p.target (startWrite args p)
  | .reader => listed args p.target (startRead p)
  | _ => some p.env

def Proposal.checked (p : Proposal) : Proposal :=
  settled args (p.setOper (checkedOper args p.env p.target))

def getNextAction (mask : Nat) (draws : Draws) (env : TestEnv) : Option (TestEnv × Action) :=
  (propose args mask draws env).bind fun p =>
    (record args (p.checked args)).map fun env => (env, (p.checked args).target)

end check

section complete
variable (args : ChildArgs)

def unlisted (target : Action) (env : TestEnv) : Option TestEnv :=
  if args.flags.lbaSync then removeAction target env else some env

def markWritten (target : Action) (env : TestEnv) : TestEnv :=
  { env with
    wbitmap := fun bit => env.wbitmap bit || (bitIndex args target 0 ≤ bit && bit < bitIndex args target target.trsiz) }

def completeIo (target : Action) (env : TestEnv) : Option TestEnv :=
  unlisted args target (if target.oper = .writer then markWritten args target env else env)

def decrementIoCount (target : Action) (env : TestEnv) : Option TestEnv :=
  (unlisted args target env).map fun env =>
    if target.oper = .writer then { env with wcount := env.wcount - 1 }
    else { env with rcount := env.rcount - 1 }

end complete

section start
variable (args : ChildArgs)

/-- The environment that `init_data` leaves. -/
def initEnv : TestEnv where
  rlba := args.startLba
  wlba := args.startLba
  wbitmap := fun _ => false
  rcount := 0
  wcount := 0
  lastAction := { oper := if args.flags.w then .writer else .reader, trsiz := 0, lba := 0 }
  actionList := []
  testState := { sts := true, wFst := true, rFst := true, inc := true, operR := !args.flags.w }

def clearBitmap (env : TestEnv) : TestEnv := { env with wbitmap := fun _ => false }

def noneStarted (env : TestEnv) : TestEnv := { env with actionList := [], rcount := 0, wcount := 0 }

/-- The start of a pass in `threadedMain`, other than a linear one that is not interleaved. -/
def startMixed (env : TestEnv) : TestEnv :=
  let oper : Op := if args.flags.w then .writer else .reader
  noneStarted { clearBitmap env with
    wlba := args.startLba
    lastAction := env.lastAction.setOper oper
    testState := { env.testState with
      inc := true, wFst := true, rFst := true, operR := !args.flags.w } }

/-- The start of a write pass in `linear_read_write_test`. -/
def startWrites (env : TestEnv) : TestEnv :=
  noneStarted { env with
    wlba := args.startLba
    lastAction := env.lastAction.setOper .writer
    testState := { env.testState with inc := true, operR := false, wFst := true } }

def startReads (env : TestEnv) : TestEnv :=
  noneStarted { env with
    rlba := args.startLba
    lastAction := env.lastAction.setOper .reader
    testState := { env.testState with inc := true, operR := true, rFst := true } }

end start
end VteDisktest
