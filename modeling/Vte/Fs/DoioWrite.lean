import Vte.Lib.WriteLogHistory

/-!
testcases/kernel/fs/doio/doio.c on Linux: the requests that write, and the two phases of the entry
that each makes in the write log. A request is the list of the steps it takes; a crash cuts it off.
-/
namespace VteDoio
open Bytes VteWriteLog

def eCompare : Nat := 4
def eInternal : Nat := 8

def write : Nat := 2
def writea : Nat := 4
def readv : Nat := 102
def writev : Nat := 103
def mmapr : Nat := 120
def mmapw : Nat := 121

def maxAio : Int := 256

/-- `struct io_req`, of the members of its union those that a write reads. -/
structure IoReq where
  rType : Nat
  rFile : List Byte
  rOflags : CInt
  rOffset : CInt
  rNbytes : CInt
  rPattern : Byte
  rNstrides : CInt
  rNent : CInt

/-- Options -k, -v and -w, and what `doio` sets up once. -/
structure Setup where
  kOpt : Bool
  vOpt : Bool
  wOpt : Bool
  pid : CInt
  host : List Byte
  pattern : List Byte

/-- What `wlog_record_write` comes to for a new record; a record cut short is not noticed. -/
inductive Append where
  | failed
  | torn
  | whole
  deriving DecidableEq

/-- What `check_file` meets when it reads the file back. -/
structure ReadBack where
  opened : Bool
  placed : Bool
  nread : CInt
  same : Bool

structure Outcomes where
  opened : Bool
  /-- what `alloc_mem` returns -/
  memory : CInt
  locked : Bool
  appended : Append
  placed : Bool
  /-- what the write returns, as an `int` -/
  returned : CInt
  readBack : ReadBack
  marked : Bool
  unlocked : Bool
  /-- what the stack holds before the record and the two buffers are filled in -/
  stale : WlogRec
  wbuf : WriteBuf
  wbuf' : WriteBuf

inductive Step where
  | append (wrec : WlogRec) (wbuf : WriteBuf)
  | overlay (wrec : WlogRec) (wbuf : WriteBuf)
  /-- a part of an entry, or an entry where none begins -/
  | stray
  | failed
  | wrote (returned : CInt)
  | verified (length : CInt)

inductive Exit where
  | returns (rval : CInt)
  | exits (code : Nat)

def copyInto {n : Nat} (old : Vector Byte n) (text : List Byte) : Option (Vector Byte n) :=
  if fits : text.length ≤ n then
    some ⟨(text ++ old.toList.drop text.length).toArray, by simp; omega⟩
  else none

/-- The fields of `wrec`, `w_done` being 0; undefined when a string is too long for its array. -/
def fillRec (e : Setup) (req : IoReq) (async : CInt) (stale : WlogRec) : Option WlogRec := do
  let wPath ← copyInto stale.wPath req.rFile
  let wHost ← copyInto stale.wHost e.host
  let wPattern ← copyInto stale.wPattern (e.pattern.set 0 req.rPattern)
  return {
    wAsync := async
    wOflags := req.rOflags
    wPid := e.pid
    wOffset := req.rOffset
    wNbytes := req.rNbytes
    wPathlen := BitVec.ofNat 32 req.rFile.length
    wPath := wPath
    wHostlen := BitVec.ofNat 32 e.host.length
    wHost := wHost
    wPatternlen := BitVec.ofNat 32 e.pattern.length
    wPattern := wPattern
    wDone := 0 }

/-- The preliminary entry; with the record when `logged_write` is set. -/
def preliminary (e : Setup) (req : IoReq) (async : CInt) (x : Outcomes) :
    Option (List Step × Option WlogRec) :=
  if e.wOpt then do
    let wrec ← fillRec e req async x.stale
    match x.appended with
    | .failed => return ([], none)
    | .torn => return ([.stray], some wrec)
    | .whole => return ([.append wrec x.wbuf], some wrec)
  else some ([], none)

/-- The second phase, where `woffset` is what the first one returned. -/
def completion (x : Outcomes) (logged : Option WlogRec) : List Step :=
  match logged with
  | none => []
  | some wrec =>
    if x.marked then
      if x.appended = .whole then [.overlay { wrec with wDone := 1 } x.wbuf'] else [.stray]
    else []

def checkFile (length : CInt) (r : ReadBack) : Bool :=
  r.opened && r.placed && r.nread != -1 && r.nread == length && r.same

def transfer (returned : CInt) : Step :=
  if returned = -1 then .failed else .wrote returned

/-- `rval` after the write, by what was asked for. -/
def checkReturn (returned expected : CInt) : CInt :=
  if returned = -1 then -1 else if returned ≠ expected then -1 else 0

/-- The `switch` of `do_write`, with `rval` behind it; none where the seek fails. WRITEA has no case. -/
def switchWrite (req : IoReq) (x : Outcomes) : Option (List Step × CInt) :=
  if req.rType = write then
    if x.placed then some ([transfer x.returned], checkReturn x.returned req.rNbytes) else none
  else some ([], -1)

def finish (e : Setup) (locks verifies : Bool) (length rval : CInt) (x : Outcomes)
    (steps : List Step) (logged : Option WlogRec) : List Step × Exit :=
  if verifies ∧ ¬ checkFile length x.readBack then (steps, .exits eCompare)
  else
    let checked := if verifies then [.verified length] else []
    let steps := steps ++ checked ++ completion x logged
    if e.kOpt ∧ locks ∧ ¬ x.unlocked then (steps, .exits eInternal)
    else (steps, .returns (if rval = -1 then -1 else 0))

def doWrite (e : Setup) (req : IoReq) (x : Outcomes) : Option (List Step × Exit) :=
  if ¬ x.opened then some ([], .returns (-1))
  else if x.memory.toInt < 0 then some ([], .returns x.memory)
  else if e.kOpt ∧ ¬ x.locked then some ([], .exits eInternal)
  else do
    let (entry, logged) ← preliminary e req (if req.rType = writea then 1 else 0) x
    match switchWrite req x with
    | none => return (entry, .returns (-1))
    | some (wrote, rval) => return finish e true e.vOpt req.rNbytes rval x (entry ++ wrote) logged

/-- `struct syscall_info`; no entry of the table has `sy_buffer`, SY_ASYNC or SY_IOSW. -/
structure SyscallInfo where
  syType : Nat
  syWrite : Bool

def syscalls : List SyscallInfo :=
  [⟨readv, false⟩, ⟨writev, true⟩, ⟨mmapr, false⟩, ⟨mmapw, true⟩]

def verifyLength (req : IoReq) : CInt := req.rNbytes * req.rNstrides * req.rNent

def doRw (e : Setup) (req : IoReq) (x : Outcomes) : Option (List Step × Exit) :=
  if maxAio ≤ req.rNent.toInt then some ([], .returns (-1))
  else match syscalls.find? (·.syType = req.rType) with
    | none => some ([], .returns (-1))
    | some sy =>
      if ¬ x.opened then some ([], .returns (-1))
      else if x.memory.toInt < 0 then some ([], .returns x.memory)
      else if sy.syWrite ∧ e.kOpt ∧ ¬ x.locked then some ([], .exits eInternal)
      else do
        let (entry, logged) ← if sy.syWrite then preliminary e req 0 x else some ([], none)
        let rval := checkReturn x.returned req.rNbytes
        let wrote := if sy.syWrite then [transfer x.returned] else []
        return finish e sy.syWrite (rval == 0 && sy.syWrite && e.vOpt) (verifyLength req) rval x
          (entry ++ wrote) logged

/-- The cases of `doio` that lead to `do_rw`. -/
def rwTypes : List Nat :=
  [readv, 104, 100, 10, 11, 14, 15, writev, 105, 101, mmapr, mmapw, 12, 13, 16, 17, 18, 19, 20, 21]

def handle (e : Setup) (req : IoReq) (x : Outcomes) : Option (List Step × Exit) :=
  if req.rType = write ∨ req.rType = writea then doWrite e req x
  else if req.rType ∈ rwTypes then doRw e req x
  else none

/-- The calls on the log of a request that finds `n` records there. -/
def callsOf (n : Nat) : List Step → List Call
  | [] => []
  | .append wrec wbuf :: steps => .append (-1) wrec wbuf :: callsOf n steps
  | .overlay wrec wbuf :: steps => .overlay n wrec wbuf :: callsOf n steps
  | _ :: steps => callsOf n steps

def Step.isAppend : Step → Bool
  | .append _ _ => true
  | _ => false

def logged (steps : List Step) : Bool := steps.any Step.isAppend

def logCalls : Nat → List (List Step) → List Call
  | _, [] => []
  | n, steps :: handled =>
    callsOf n steps ++ logCalls (if logged steps then n + 1 else n) handled

structure Served where
  req : IoReq
  outcomes : Outcomes

def stepsOf (e : Setup) : List (Served × Nat) → Option (List (List Step))
  | [] => some []
  | (r, cut) :: served => do
    let (steps, _) ← handle e r.req r.outcomes
    let rest ← stepsOf e served
    return steps.take cut :: rest

end VteDoio
