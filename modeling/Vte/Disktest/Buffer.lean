import Vte.Base.Machine
import Vte.Base.Tiles
import Vte.Disktest.Args

/-!
testcases/kernel/io/disktest/sfunc.c, main.c and childmain.c: the data of a transfer. A pass fills a
buffer that all threads copy from; a block may then be marked.
-/
namespace VteDisktest
open Bytes Patterned Tiles

def wordBytes (word : BitVec 64) : List Byte :=
  (List.range 8).map fun i => word.extractLsb' (8 * i) 8

/-- The first `n` bytes of a number, the lowest one on top. -/
def orderBytes (n : Nat) (data : BitVec 64) : BitVec 64 :=
  (List.range n).foldl
    (fun pat i => pat ||| (data.extractLsb' (8 * i) 8).setWidth 64 <<< (8 * (7 - i))) 0

def getByteOrderedData (data : BitVec 64) : BitVec 64 := orderBytes 8 data

def fixedWord (pattern : BitVec 64) (patternLen : Nat) : BitVec 64 :=
  (List.range (8 / patternLen)).foldl (fun pat j =>
    (List.range patternLen).foldl (fun pat i =>
      pat ||| (pattern.extractLsb' (8 * i) 8).setWidth 64 <<< (8 * (7 - (j * patternLen + i)))) pat) 0

def wordBlock (word : BitVec 64) : List Byte := (List.replicate 64 (wordBytes word)).flatten

def lbaBlock (patternLen : Nat) (lba : Int) : List Byte :=
  wordBlock (orderBytes patternLen (BitVec.ofInt 64 lba))

def countByte (i : Nat) : Byte := BitVec.ofNat 8 (i &&& 0xff)

def randomBlock (rand : Nat → BitVec 64) : List Byte := (List.range 64).flatMap (wordBytes ∘ rand)

/-- Copies the first block to the `n` places from `i` on. -/
def copyFirst : Nat → Nat → List Byte → Option (List Byte)
  | 0, _, buf => some buf
  | n + 1, i, buf => (memcpy buf i buf blkSize).bind (copyFirst n (i + blkSize))

inductive PatternType where
  | rptype
  | fptype
  | cptype
  | lptype

/-- `flags & CLD_FLG_PTYPS`, when it is one of the four. -/
def Flags.ptyps (flags : Flags) : Option PatternType :=
  match flags.rptype, flags.fptype, flags.cptype, flags.lptype with
  | true, false, false, false => some .rptype
  | false, true, false, false => some .fptype
  | false, false, true, false => some .cptype
  | false, false, false, true => some .lptype
  | _, _, _, _ => none

/-- Here `len` counts bytes, but blocks for the lba pattern. -/
def fillBuffer (buf : List Byte) (len : Nat) (pattern : Int) (patternLen : Nat)
    (rand : Nat → BitVec 64) : PatternType → Option (List Byte)
  | .cptype => memcpy buf 0 (generate countByte len 0) len
  | .fptype =>
    let words := (List.replicate (len / 8)
      (wordBytes (fixedWord (BitVec.ofInt 64 pattern) patternLen))).flatten
    memcpy buf 0 words words.length
  | .lptype =>
    let blocks := lay (lbaBlock patternLen) len pattern
    memcpy buf 0 blocks blocks.length
  | .rptype => (memcpy buf 0 (randomBlock rand) blkSize).bind (copyFirst ((len - 1) / blkSize) blkSize)

def patternLength (pattern : Int) : Nat :=
  let bytes := (List.range 8).reverse.map fun i => (BitVec.ofInt 64 pattern).extractLsb' (8 * i) 8
  let zeros := (bytes.takeWhile (· = 0)).length
  8 - if zeros = 8 then 0 else zeros

def dataBufferSize (args : ChildArgs) : Nat := args.htrsiz * blkSize * 2

/-- The data buffer that `init_data` leaves. -/
def initData (args : ChildArgs) (rand : Nat → BitVec 64) : Option (List Byte) :=
  let buf := List.replicate (dataBufferSize args) 0
  match args.flags.ptyps with
  | some .fptype =>
    fillBuffer buf (dataBufferSize args) args.pattern (patternLength args.pattern) rand .fptype
  | some .rptype => fillBuffer buf (dataBufferSize args) 0 0 rand .rptype
  | some .cptype => fillBuffer buf (dataBufferSize args) 0 0 rand .cptype
  | some .lptype => some buf
  | none => none

/-- What of `test_env_t` the data depend on. -/
structure PassEnv where
  dataBuffer : List Byte
  passCount : Int
  startTime : Int

structure Pass where
  time : Int
  rand : Nat → BitVec 64

def refill (args : ChildArgs) (rand : Nat → BitVec 64) (buf : List Byte) : Option (List Byte) :=
  if args.flags.rptype then fillBuffer buf (dataBufferSize args) 0 0 rand .rptype else some buf

/-- The start of a pass in `threadedMain`. -/
def startPass (args : ChildArgs) (pass : Pass) (env : PassEnv) : Option PassEnv :=
  (refill args pass.rand env.dataBuffer).map fun buf =>
    { dataBuffer := buf, passCount := env.passCount + 1, startTime := pass.time }

/-- The environment after `init_data` and the starts of the passes. -/
def passEnv (args : ChildArgs) (init : Pass) (passes : List Pass) : Option PassEnv :=
  (initData args init.rand).bind fun buf =>
    Machine.run (startPass args) passes { dataBuffer := buf, passCount := 0, startTime := init.time }

def store (on : Bool) (buf : List Byte) (pos : Nat) (bytes : List Byte) : Option (List Byte) :=
  if on then memcpy buf pos bytes bytes.length else some buf

section data
variable (args : ChildArgs) (env : PassEnv) (hostname : Vector Byte hostnameSize)

def timeMark : Int := if args.flags.altMark then args.altMark else env.startTime

def offWord (x : Int) : List Byte := wordBytes (getByteOrderedData (BitVec.ofInt 64 x))

/-- The marks of the block at byte `i`. -/
def markBlock (buf : List Byte) (i : Nat) (lba : Int) : Option (List Byte) := do
  let buf ← store args.flags.mrkLba buf (8 * (i / 8)) (offWord lba)
  let buf ← store args.flags.mrkPass buf (8 * (i / 8 + 1)) (offWord env.passCount)
  let buf ← store args.flags.mrkTime buf (8 * (i / 8 + 2)) (offWord (timeMark args env))
  let buf ← store args.flags.mrkSeed buf (8 * (i / 8 + 3)) (offWord args.seed.toNat)
  let buf ← store args.flags.mrkHost buf (32 + i) hostname.toList
  store args.flags.mrkTarget buf (32 + hostnameSize + i) args.device.name

def markFrom : Nat → Nat → Int → List Byte → Option (List Byte)
  | 0, _, _, buf => some buf
  | n + 1, i, lba, buf =>
    (markBlock args env hostname buf i lba).bind (markFrom n (i + blkSize) (lba + 1))

def markBuffer (buf : List Byte) (bufLen : Nat) (lba : Int) : Option (List Byte) :=
  markFrom args env hostname ((bufLen + (blkSize - 1)) / blkSize) 0 lba buf

/-- `buf2` before its pattern is marked. -/
def patternBuffer (buf2 : List Byte) (target : Action) : Option (List Byte) :=
  if args.flags.lptype then fillBuffer buf2 target.trsiz target.lba 8 (fun _ => 0) .lptype
  else memcpy buf2 0 env.dataBuffer (target.trsiz * blkSize)

/-- `buf2` when it is written, and when what was read is compared with it. -/
def transferBuffer (buf2 : List Byte) (target : Action) : Option (List Byte) :=
  (patternBuffer args env buf2 target).bind fun buf =>
    if args.flags.mblk then markBuffer args env hostname buf (target.trsiz * blkSize) target.lba
    else some buf

abbrev Disk := Int → List Byte

def Disk.write (disk : Disk) (target : Action) (buf : List Byte) : Disk := fun lba =>
  if target.covers lba then tile blkSize buf (lba - target.lba).toNat else disk lba

def Disk.read (disk : Disk) (target : Action) : List Byte := lay disk target.trsiz target.lba

structure Transfer where
  target : Action
  buf2 : List Byte

def writeStep (call : Transfer) (disk : Disk) : Option Disk :=
  (transferBuffer args env hostname call.buf2 call.target).map (disk.write call.target)

def compareLength (target : Action) : Nat :=
  if args.cmpLng = 0 ∨ args.cmpLng > target.trsiz * blkSize then target.trsiz * blkSize
  else args.cmpLng

/-- `memcmp` of the expected data with what was read. -/
def miscompares (target : Action) (expected got : List Byte) : Bool :=
  expected.take (compareLength args target) != got.take (compareLength args target)

end data
end VteDisktest
