import Mathlib.Data.List.Basic
import Vte.Base.Bytes

/-!
testcases/kernel/io/disktest/defs.h and main.h: actions, flags and the arguments of a child. An
`OFF_T` is an `Int`; where its bytes or its unsigned value matter they are those of 64 bits.
-/
namespace VteDisktest
open Bytes

inductive Op where
  | writer
  | reader
  | none
  | retry
  deriving DecidableEq, Inhabited

structure Action where
  oper : Op
  trsiz : Nat
  lba : Int
  deriving DecidableEq, Inhabited

def Action.covers (target : Action) (lba : Int) : Prop :=
  target.lba ≤ lba ∧ lba < target.lba + target.trsiz

instance (target : Action) (lba : Int) : Decidable (target.covers lba) :=
  inferInstanceAs (Decidable (_ ∧ _))

def blkSize : Nat := 512
def devNameLen : Nat := 80
def hostnameSize : Nat := 16

structure Flags where
  cmpr : Bool := false
  mblk : Bool := false
  offset : Bool := false
  rtrsiz : Bool := false
  random : Bool := false
  linear : Bool := false
  ntrlvd : Bool := false
  vsiz : Bool := false
  rptype : Bool := false
  fptype : Bool := false
  cptype : Bool := false
  lptype : Bool := false
  tmd : Bool := false
  sks : Bool := false
  cyc : Bool := false
  duty : Bool := false
  lbaRng : Bool := false
  blkRng : Bool := false
  lunu : Bool := false
  lund : Bool := false
  w : Bool := false
  r : Bool := false
  writeOnce : Bool := false
  lbaSync : Bool := false
  mrkLba : Bool := false
  mrkPass : Bool := false
  mrkTime : Bool := false
  mrkSeed : Bool := false
  mrkHost : Bool := false
  mrkTarget : Bool := false
  altMark : Bool := false
  alldie : Bool := false
  errMark : Bool := false
  /-- `CLD_FLG_PRFTYPS` -/
  prftyps : Bool := false
  deriving DecidableEq

structure Device where
  name : List Byte
  short : name.length < devNameLen
  deriving DecidableEq

theorem one_letter_short : [(0x64 : Byte)].length < devNameLen := by decide

/-- `child_args_t` without the test state, which the threads change. The values are those before the
options are parsed. -/
structure ChildArgs where
  device : Device
  vsiz : Int := 0
  ltrsiz : Nat := 0
  htrsiz : Nat := 0
  offset : Int := 0
  pattern : Int := 0
  runTime : Int := 0
  seeks : Int := 0
  startBlk : Int := 0
  stopBlk : Int := -1
  startLba : Int := 0
  stopLba : Int := -1
  hbeat : Int := 0
  flags : Flags
  rperc : Int := 0
  wperc : Int := 0
  tKids : Nat := 0
  cmpLng : Nat := 0
  seed : BitVec 32 := 0
  altMark : Int := 0
  deriving DecidableEq

end VteDisktest
