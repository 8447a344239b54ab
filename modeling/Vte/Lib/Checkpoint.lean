import Vte.Base.Machine

/-!
lib/tst_checkpoint.c: a parent and its child meet at checkpoints over one FIFO. Each process
makes the calls of its checkpoints in order, one system call a step; the two are interleaved in
any order. No timeout expires.
-/
namespace VteCheckpoint
open Machine

inductive Party where
  | parent
  | child
  deriving DecidableEq

inductive Checkpoint where
  | parentWaits
  | childWaits
  deriving DecidableEq

def Party.other : Party → Party
  | .parent => .child
  | .child => .parent

def Checkpoint.waiter : Checkpoint → Party
  | .parentWaits => .parent
  | .childWaits => .child

def Party.byte : Party → Char
  | .parent => 'c'
  | .child => 'p'

inductive Access where
  | rdOnly
  | wrOnly
  deriving DecidableEq

def Access.opposite : Access → Access
  | .rdOnly => .wrOnly
  | .wrOnly => .rdOnly

inductive Failure where
  /-- `Wrong data read from the pipe` -/
  | wrongData
  /-- `The other end of the pipe was closed unexpectedly` -/
  | closedUnexpectedly
  /-- `read` failed with EAGAIN. -/
  | readFailed
  /-- `read` returned 0 and `ch` was compared uninitialised. -/
  | uninitialised
  /-- `write` raised SIGPIPE. -/
  | brokenPipe
  deriving DecidableEq

inductive Pc where
  | opening
  /-- `open` waits for the other end. -/
  | blocked
  | opened
  /-- `poll` has returned. -/
  | polled
  | closing
  | failed (why : Failure)
  deriving DecidableEq

structure Process where
  index : Nat
  pc : Pc
  fd : Option Access
  deriving DecidableEq

structure Byte where
  ch : Char
  sent : Nat
  deriving DecidableEq

/-- `issued` and `received` are ghost fields: the checkpoints of the bytes written, and for each
    byte read the checkpoint of the wait that read it and that of the signal. -/
structure State where
  parent : Process
  child : Process
  buffer : List Byte
  /-- A writer has been open since the parent opened its end for reading. -/
  writerSeen : Bool
  issued : List Nat
  received : List (Nat × Nat)
  deriving DecidableEq

inductive Discard where
  | lastReader
  | lastDescriptor
  deriving DecidableEq

def State.process (s : State) : Party → Process
  | .parent => s.parent
  | .child => s.child

def State.update (s : State) (p : Party) (process : Process) : State :=
  match p with
  | .parent => { s with parent := process }
  | .child => { s with child := process }

def init : State := ⟨⟨0, .opening, none⟩, ⟨0, .opening, none⟩, [], false, [], []⟩

def access (c : Checkpoint) (p : Party) : Access := if c.waiter = p then .rdOnly else .wrOnly

/-- The process waits in `open` for the given access. -/
def isBlocked (cs : List Checkpoint) (s : State) (p : Party) (wanted : Access) : Bool :=
  (s.process p).pc = .blocked ∧ (cs[(s.process p).index]?).map (access · p) = some wanted

def State.setPc (s : State) (p : Party) (pc : Pc) : State :=
  s.update p { s.process p with pc := pc }

def opened (s : State) (p : Party) (mode : Access) : State :=
  let s := s.update p { s.process p with pc := .opened, fd := some mode }
  { s with writerSeen :=
      match p, mode with
      | .parent, .rdOnly => s.child.fd = some .wrOnly
      | _, .rdOnly => s.writerSeen
      | _, .wrOnly => true }

/-- `open` returns when the other end is open or is being opened, for both; with `O_NONBLOCK` a
    reader does not wait. -/
def openFifo (cs : List Checkpoint) (p : Party) (mode : Access) (nonblock : Bool) (s : State) :
    State :=
  if isBlocked cs s p.other mode.opposite then
    opened (opened s p mode) p.other mode.opposite
  else if nonblock ∨ (s.process p.other).fd = some mode.opposite then opened s p mode
  else s.setPc p .blocked

def isHeld (policy : Discard) (s : State) : Bool :=
  match policy with
  | .lastReader => s.parent.fd = some .rdOnly ∨ s.child.fd = some .rdOnly
  | .lastDescriptor => s.parent.fd ≠ none ∨ s.child.fd ≠ none

/-- `close`; a process that gives up closes its end too. -/
def closeFd (policy : Discard) (p : Party) (s : State) : State :=
  let s := s.update p { s.process p with fd := none }
  if isHeld policy s then s else { s with buffer := [] }

def fail (policy : Discard) (p : Party) (why : Failure) (s : State) : State :=
  (closeFd policy p s).setPc p (.failed why)

def finish (policy : Discard) (p : Party) (s : State) : State :=
  let s := closeFd policy p s
  s.update p ⟨(s.process p).index + 1, .opening, none⟩

def readByte (policy : Discard) (p : Party) (b : Byte) (rest : List Byte) (s : State) : State :=
  let s := { s with
    buffer := rest
    received := s.received ++ [((s.process p).index, b.sent)] }
  if b.ch = p.byte then s.setPc p .closing else fail policy p .wrongData s

def parentWait (policy : Discard) (cs : List Checkpoint) (s : State) : Option State :=
  match s.parent.pc with
  | .opening => some (openFifo cs .parent .rdOnly true s)
  | .opened =>
    if s.buffer ≠ [] ∨ s.writerSeen ∧ s.child.fd ≠ some .wrOnly then
      some (s.setPc .parent .polled)
    else none
  | .polled =>
    match s.buffer with
    | b :: rest => some (readByte policy .parent b rest s)
    | [] =>
      if s.child.fd = some .wrOnly then some (fail policy .parent .readFailed s)
      else some (fail policy .parent .closedUnexpectedly s)
  | .closing => some (finish policy .parent s)
  | .blocked | .failed _ => none

/-- `tst_checkpoint_child_wait`: no test for a `read` that returns 0. -/
def childWait (policy : Discard) (cs : List Checkpoint) (s : State) : Option State :=
  match s.child.pc with
  | .opening => some (openFifo cs .child .rdOnly false s)
  | .opened =>
    match s.buffer with
    | b :: rest => some (readByte policy .child b rest s)
    | [] =>
      if s.parent.fd = some .wrOnly then none
      else some (fail policy .child .uninitialised s)
  | .closing => some (finish policy .child s)
  | .blocked | .polled | .failed _ => none

/-- `tst_checkpoint_signal_parent`, called by the child, and `tst_checkpoint_signal_child`, called
    by the parent. -/
def signal (policy : Discard) (cs : List Checkpoint) (p : Party) (s : State) : Option State :=
  match (s.process p).pc with
  | .opening => some (openFifo cs p .wrOnly false s)
  | .opened =>
    if (s.process p.other).fd = some .rdOnly then
      some (State.setPc { s with
        buffer := s.buffer ++ [⟨p.other.byte, (s.process p).index⟩]
        issued := s.issued ++ [(s.process p).index] } p .closing)
    else some (fail policy p .brokenPipe s)
  | .closing => some (finish policy p s)
  | .blocked | .polled | .failed _ => none

def step (policy : Discard) (cs : List Checkpoint) (p : Party) (s : State) : Option State :=
  match cs[(s.process p).index]?, p with
  | none, _ => none
  | some .parentWaits, .parent => parentWait policy cs s
  | some .childWaits, .child => childWait policy cs s
  | some .parentWaits, .child | some .childWaits, .parent => signal policy cs p s

end VteCheckpoint
