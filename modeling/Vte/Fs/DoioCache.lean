import Mathlib.Data.List.Perm.Basic
import Mathlib.Data.List.Nodup
import Vte.Base.CInt
import Vte.Base.Text

/-!
doio.c: the descriptor cache of `alloc_fdcache` and the mappings that `sy_mmrw` keeps in it. The
kernel is a ghost: the descriptors that are open and the mappings that exist. An address 0 is NULL.
-/
namespace VteDoioCache
open CInt Text

def fdAllocIncr : Nat := 32

structure FdCache where
  cFile : Str
  cOflags : Int
  cFd : Int
  cRtc : Int
  cMemaddr : Nat
  cMemlen : Int
  deriving DecidableEq

structure Desc where
  fd : Int
  file : Str
  oflags : Int
  deriving DecidableEq

structure Mapping where
  addr : Nat
  len : Int
  deriving DecidableEq

/-- `cache` of `alloc_fdcache`, empty for NULL, with what the kernel holds for it. -/
structure State where
  cache : List FdCache
  opened : List Desc
  mapped : List Mapping
  deriving DecidableEq

def init : State := ⟨[], [], []⟩

inductive OpenResult where
  | fd (n : Nat)
  | emfile
  | fails
  deriving DecidableEq

inductive Sys where
  | opens (file : Option Str) (oflags : Int) (result : OpenResult)
  | closes (fd : Int)
  | mmaps (addr : Nat) (len : Int)
  | munmaps (addr : Nat) (len : Int)
  deriving DecidableEq

/-- What `open` answers, now and after a close, what `realloc` leaves in new slots, and `Reqno`. -/
structure Outcomes where
  first : OpenResult
  second : OpenResult
  memory : Nat → FdCache
  reqno : Int

structure MapOutcomes where
  size : Option Int
  addr : Option Nat

inductive Ret where
  | slot (i : Nat)
  | released
  /-- `exit(E_SETUP)` -/
  | exits
  /-- A use of a slot through a NULL pointer. -/
  | crashes
  deriving DecidableEq

structure Result where
  ret : Ret
  calls : List Sys
  state : State
  deriving DecidableEq

inductive Lookup where
  | hit (i : Nat)
  | miss (free oldest : Option Nat)
  deriving DecidableEq

def FdCache.Occupied (cp : FdCache) : Prop := cp.cFd ≠ -1

instance (cp : FdCache) : Decidable cp.Occupied := inferInstanceAs (Decidable (_ ≠ _))

def FdCache.key (cp : FdCache) : Str × Int := (cp.cFile, cp.cOflags)

/-- The slot at position `i` as a candidate for the oldest. -/
def older (cp : FdCache) (i : Nat) (oldest : Option (Nat × Int)) : Option (Nat × Int) :=
  match oldest with
  | none => some (i, cp.cRtc)
  | some (j, rtc) => if cp.cRtc < rtc then some (i, cp.cRtc) else some (j, rtc)

/-- The one pass over the cache, from position `i` on. -/
def look (file : Str) (oflags : Int) : Nat → Option Nat → Option (Nat × Int) → List FdCache → Lookup
  | _, free, oldest, [] => .miss free (oldest.map Prod.fst)
  | i, free, oldest, cp :: rest =>
    if cp.cFd ≠ -1 ∧ cp.cOflags = oflags ∧ cp.cFile = file then .hit i
    else if cp.cFd = -1 then look file oflags (i + 1) (free.or (some i)) oldest rest
    else look file oflags (i + 1) free (older cp i oldest) rest

def State.closed (s : State) (fd : Int) : State :=
  { s with opened := s.opened.filter fun d => d.fd ≠ fd }

def State.unmapped (s : State) (addr : Nat) : State :=
  { s with mapped := s.mapped.filter fun m => m.addr ≠ addr }

def State.apply (s : State) : Sys → State
  | .opens (some file) oflags (.fd n) => { s with opened := s.opened ++ [⟨n, file, oflags⟩] }
  | .opens _ _ _ => s
  | .closes fd => s.closed fd
  | .mmaps addr len => { s with mapped := s.mapped ++ [⟨addr, len⟩] }
  | .munmaps addr _ => s.unmapped addr

def State.applyAll (s : State) (calls : List Sys) : State := calls.foldl State.apply s

/-- The release of one slot; a slot that was never filled has what `realloc` left in it. -/
def releaseSlot (cp : FdCache) : List Sys :=
  (if cp.cFd ≠ -1 then [.closes cp.cFd] else []) ++ (if cp.cMemaddr ≠ 0 then [.munmaps cp.cMemaddr cp.cMemlen] else [])

def release (s : State) : Result :=
  let calls := s.cache.flatMap releaseSlot
  ⟨.released, calls, { s.applyAll calls with cache := [] }⟩

def newSlot (file : Str) (oflags : Int) (fd : Nat) (reqno : Int) : FdCache :=
  ⟨file, oflags, fd, reqno, 0, 0⟩

/-- The slots of a cache that has grown: only `c_fd` is set in the new ones. -/
def grown (memory : Nat → FdCache) (cache : List FdCache) : List FdCache :=
  cache ++ (List.range fdAllocIncr).map fun i => { memory i with cFd := -1 }

def fill (free : Option Nat) (slot : FdCache) (memory : Nat → FdCache) (s : State) : Nat × State :=
  match free with
  | some i => (i, { s with cache := s.cache.set i slot })
  | none => (s.cache.length, { s with cache := (grown memory s.cache).set s.cache.length slot })

def opened (file : Str) (oflags : Int) (o : Outcomes) (free : Option Nat) (fd : Nat)
    (calls : List Sys) (s : State) : Result :=
  let calls := calls ++ [.opens (some file) oflags (.fd fd)]
  let s := s.apply (.opens (some file) oflags (.fd fd))
  let (i, s) := fill free (newSlot file oflags fd o.reqno) o.memory s
  ⟨.slot i, calls, s⟩

/-- `open` failed with EMFILE: close the oldest descriptor and try again. -/
def evict (file : Str) (oflags : Int) (o : Outcomes) (oldest : Option Nat) (s : State) : Result :=
  let calls := [.opens (some file) oflags .emfile]
  match oldest with
  | none => ⟨.crashes, calls, s⟩
  | some e =>
    match s.cache[e]? with
    | none => ⟨.crashes, calls, s⟩
    | some cp =>
      let calls := calls ++ [.closes cp.cFd]
      let s := { s.closed cp.cFd with cache := s.cache.set e { cp with cFd := -1 } }
      match o.second with
      | .fd n => opened file oflags o (some e) n calls s
      | second => ⟨.exits, calls ++ [.opens (some file) oflags second], s⟩

/-- `alloc_fdcache`, with none for a NULL file. `open(NULL, ..)` fails with EFAULT. -/
def allocFdcache (file : Option Str) (oflags : Int) (o : Outcomes) (s : State) : Result :=
  match file with
  | none =>
    if s.cache ≠ [] then release s else ⟨.exits, [.opens none oflags .fails], s⟩
  | some file =>
    match look file oflags 0 none none s.cache with
    | .hit i =>
      let cache := match s.cache[i]? with
        | some cp => s.cache.set i { cp with cRtc := o.reqno }
        | none => s.cache
      ⟨.slot i, [], { s with cache := cache }⟩
    | .miss free oldest =>
      match o.first with
      | .fd n => opened file oflags o free n [] s
      | .emfile => evict file oflags o oldest s
      | .fails => ⟨.exits, [.opens (some file) oflags .fails], s⟩

/-- The mapping of `sy_mmrw` in the slot at position `i`, under -v for this request only. -/
def mapSlot (vOpt : Bool) (m : MapOutcomes) (i : Nat) (fdc : FdCache) (s : State) : List Sys × State :=
  match m.size with
  | none => ([], s)
  | some size =>
    let fdc := { fdc with cMemlen := int32 size }
    match m.addr with
    | none => ([], { s with cache := s.cache.set i fdc })
    | some addr =>
      let calls := .mmaps addr (int32 size) ::
        if vOpt then [.munmaps addr (int32 size)] else []
      (calls, { s.applyAll calls with cache := s.cache.set i { fdc with cMemaddr := addr } })

def syMmrw (vOpt : Bool) (file : Str) (oflags : Int) (o : Outcomes) (m : MapOutcomes) (s : State) :
    Result :=
  let r := allocFdcache (some file) oflags o s
  match r.ret with
  | .slot i =>
    match r.state.cache[i]? with
    | none => r
    | some fdc =>
      if vOpt = true ∨ fdc.cMemaddr = 0 then
        let (calls, s) := mapSlot vOpt m i fdc r.state
        ⟨r.ret, r.calls ++ calls, s⟩
      else r
  | _ => r

inductive Request where
  | alloc (file : Str) (oflags : Int) (o : Outcomes)
  | mmrw (file : Str) (oflags : Int) (o : Outcomes) (m : MapOutcomes)
  /-- `alloc_fd(NULL, 0)` -/
  | free (o : Outcomes)

def perform (vOpt : Bool) : Request → State → Result
  | .alloc file oflags o => allocFdcache (some file) oflags o
  | .mmrw file oflags o m => syMmrw vOpt file oflags o m
  | .free o => allocFdcache none 0 o

end VteDoioCache
