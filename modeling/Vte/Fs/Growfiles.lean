import Vte.Base.Machine
import Vte.Lib.DataPattern
import Vte.Lib.RandomRange

/-!
testcases/kernel/fs/doio/growfiles.c: one process that grows, shrinks and checks one file. A step is
none where the system call fails or an array is left; the file offset after an asynchronous I/O is
not specified, so each of these brings one along.
-/
namespace VteGrowfiles
open Bytes Patterned VteDataPattern VteRandomRange

inductive Pattern where
  | ascii
  | pid
  | offset
  | alt
  | chker
  | cnting
  | ones
  | zeros
  | random
  deriving DecidableEq

def Pattern.byte : Pattern → Option (Nat → Byte)
  | .ascii => some asciiByte
  | .alt => some (Mode.byte .alternating)
  | .chker => some (Mode.byte .checkerboard)
  | .cnting => some (Mode.byte .counting)
  | .ones => some (Mode.byte .ones)
  | .zeros => some (Mode.byte .zeros)
  | .pid => none
  | .offset => none
  | .random => none

/-- The generator's first `n` bytes of the buffer for the place `woffset`. -/
def Pattern.gen (rand : Nat → Nat) (buffer : List Byte) (n woffset : Nat) : Pattern → List Byte
  | .ascii => dataasciigen n woffset
  | .alt => databingen .alternating n woffset
  | .chker => databingen .checkerboard n woffset
  | .cnting => databingen .counting n woffset
  | .ones => databingen .ones n woffset
  | .zeros => databingen .zeros n woffset
  | .random => databingenRandom rand n
  | .pid => buffer.take n
  | .offset => buffer.take n

/-- `ret` after the check, if it is not -1. A random pattern has no check, and `ret` is still the
number of bytes read. -/
def Pattern.chk (buffer : List Byte) (woffset : Nat) : Pattern → Option Nat
  | .ascii => dataasciichk buffer woffset
  | .alt => databinchk .alternating buffer woffset
  | .chker => databinchk .checkerboard buffer woffset
  | .cnting => databinchk .counting buffer woffset
  | .ones => databinchk .ones buffer woffset
  | .zeros => databinchk .zeros buffer woffset
  | .random => some buffer.length
  | .pid => datapidchk buffer woffset
  | .offset => datapidchk buffer woffset

/-- The I/O types of the option -I: `s`; `v`; `P`; the asynchronous ones; `r`; `R`. -/
inductive IoType where
  | sync
  | syncv
  | syncp
  | async
  | random
  | randomAll

/-- One transfer: at the file offset, which it advances (read, readv); at that place, which stays
(pread); or asynchronous, which leaves the file offset anywhere. -/
inductive Io where
  | stream
  | positioned
  | aio (left : Nat)

structure IoDraw where
  stream : Bool
  left : Nat

/-- `lio_random_methods`, for the types that choose one. -/
def IoType.method (draw : IoDraw) : IoType → Io
  | .sync => .stream
  | .syncv => .stream
  | .syncp => .positioned
  | .async => .aio draw.left
  | .random => if draw.stream then .stream else .positioned
  | .randomAll => if draw.stream then .stream else .aio draw.left

/-- `LIO_IO_ASYNC_TYPES` or `LIO_RANDOM`: the offset after a write is not looked at. -/
def IoType.fudged : IoType → Bool
  | .async => true
  | .random => true
  | .randomAll => true
  | _ => false

/-- The file offset after a transfer of `n` bytes at `place`. -/
def Io.after (pos place n : Nat) : Io → Nat
  | .stream => if n = 0 then pos else place + n
  | .positioned => pos
  | .aio left => left

structure OpenFlags where
  append : Bool
  trunc : Bool
  deriving DecidableEq

structure Opts where
  pattern : Pattern
  growIncr : Int
  truncIncr : Int
  truncInter : Int
  writeCheckInter : Int
  fileCheckInter : Int
  randSize : Bool
  minSize : Int
  maxSize : Int
  multSize : Int
  randLseek : Bool
  minLseek : Int
  maxLseek : Int
  growByLseek : Bool
  ioType : IoType
  /-- none for `-o random` -/
  openFlags : Option OpenFlags

def lskEof : Int := -1
def lskEofPlusGrow : Int := -2
def lskEofMinusGrow : Int := -3

def Opts.noFileCheck (o : Opts) : Bool :=
  o.pattern = .random || o.maxLseek = lskEofPlusGrow || o.growByLseek

def Opts.grow (o : Opts) : Int := if o.randSize then o.maxSize else o.growIncr

def Opts.opens (o : Opts) (flags : OpenFlags) : Bool :=
  match o.openFlags with
  | some fixed => flags = fixed
  | none => !flags.trunc

structure State where
  file : List Byte
  /-- the file offset -/
  pos : Nat
  append : Bool
  woffset : Nat
  growIncr : Int
  buffer : List Byte
  shrinkCnt : Nat
  writeCnt : Nat
  fileCnt : Nat
  bytesConsumed : Int
  /-- checks with a result other than 0 -/
  alarms : Nat

def initial (flags : OpenFlags) (buffer : List Byte) : State where
  file := []
  pos := 0
  append := flags.append
  woffset := 0
  growIncr := 4096
  buffer
  shrinkCnt := 0
  writeCnt := 0
  fileCnt := 0
  bytesConsumed := 0
  alarms := 0

def offMax : Nat := 2147483647

def growSize (o : Opts) (draw : Nat) : Option Int :=
  if o.randSize then randomRange o.minSize o.maxSize o.multSize draw else some o.grow

/-- `random_range` with a multiple of 1, which has no error. -/
def between (min max : Int) (draw : Nat) : Int := (randomRange min max 1 draw).getD (-1)

/-- The offset of a random seek before a write of `size` bytes. -/
def seekOffset (o : Opts) (fsize : Nat) (size : Int) (draw : Nat) : Int :=
  if o.maxLseek = lskEof then between o.minLseek fsize draw
  else if o.maxLseek = lskEofPlusGrow then between o.minLseek (fsize + size) draw
  else if o.maxLseek = lskEofMinusGrow then
    if fsize ≤ o.minLseek + size then o.minLseek else between o.minLseek (fsize - size) draw
  else between o.minLseek o.maxLseek draw

/-- Where a write of `size` bytes goes. -/
def writeOffset (o : Opts) (size : Int) (draw : Nat) (s : State) : Int :=
  if s.append then s.file.length
  else if o.randLseek then seekOffset o s.file.length size draw
  else s.file.length

/-- `growfile`, up to its growth by `size` bytes with a write. -/
def growByWrite (o : Opts) (size : Nat) (woffset : Nat) (rand : Nat → Nat) (io : Io) (s : State) :
    Option State :=
  if size ≤ s.buffer.length ∧ woffset + size ≤ offMax then
    let data := o.pattern.gen rand s.buffer size woffset
    let pos := if s.append then s.pos else woffset
    let after := io.after pos woffset size
    let offTmp := if o.ioType.fudged then woffset + size else after
    let end' := if offTmp ≠ woffset + size then offTmp - size else woffset
    some { s with
      file := if size = 0 then s.file else writeAt 0 s.file woffset data
      pos := after
      woffset := end'
      growIncr := size
      buffer := data ++ s.buffer.drop size
      bytesConsumed := s.bytesConsumed + (end' + size - s.file.length) }
  else none

/-- `growfile`, for `MODE_GROW_BY_LSEEK`: one byte is written. -/
def growByLseek (size : Int) (io : Io) (s : State) : Option State :=
  let noffset := s.file.length + size - 1
  if 0 ≤ noffset ∧ noffset < offMax then
    let place := if s.append then s.file.length else noffset.toNat
    some { s with
      file := writeAt 0 s.file place [BitVec.ofNat 8 'w'.toNat]
      pos := io.after noffset.toNat place 1
      woffset := s.file.length
      growIncr := size
      bytesConsumed := s.bytesConsumed + size }
  else none

/-- `growfile`, which makes no attempt without a size. -/
def growfile (o : Opts) (sizeDraw seekDraw : Nat) (rand : Nat → Nat) (io : Io) (s : State) :
    Option State :=
  if o.grow ≤ 0 then some { s with growIncr := o.grow }
  else
    match growSize o sizeDraw with
    | none => some s
    | some size =>
      if o.growByLseek then growByLseek size io s
      else if 0 ≤ size ∧ 0 ≤ writeOffset o size seekDraw s then
        growByWrite o size.toNat (writeOffset o size seekDraw s).toNat rand io s
      else none

/-- It is the turn of an action that is due every `inter` times. -/
def due (inter : Int) (cnt : Nat) : Bool := inter ≠ 0 && (cnt : Int).tmod inter == 0

/-- The length that `shrinkfile` truncates to. -/
def shrinkOffset (o : Opts) (draw : Nat) (s : State) : Int :=
  if o.randLseek then
    if o.maxLseek ≤ -1 then
      if s.file.length < o.minLseek then o.minLseek else between o.minLseek s.file.length draw
    else between o.minLseek o.maxLseek draw
  else max 0 (s.pos - o.truncIncr)

def shrinkfile (o : Opts) (draw : Nat) (s : State) : Option State :=
  let s := { s with shrinkCnt := s.shrinkCnt + 1 }
  if due o.truncInter s.shrinkCnt then
    if 0 ≤ shrinkOffset o draw s then
      some { s with
        file := resize 0 s.file (shrinkOffset o draw s).toNat
        bytesConsumed := s.bytesConsumed - (s.pos - shrinkOffset o draw s) }
    else none
  else some s

/-- The check of a growth by lseek: zeros, and a `w` at the end. -/
def lseekMismatch (buffer : List Byte) : Bool :=
  buffer.dropLast.any (· != 0) || buffer.getLast? != some (BitVec.ofNat 8 'w'.toNat)

/-- The end of `check_write`: what is left of the last write is read and compared. -/
def checkLast (o : Opts) (n : Nat) (io : Io) (s : State) : Option State :=
  if n ≤ s.buffer.length then
    let data := (s.file.drop s.woffset).take n
    let mismatch :=
      if o.growByLseek then lseekMismatch data else (o.pattern.chk data s.woffset).isSome
    some { s with
      pos := io.after s.woffset s.woffset n
      growIncr := n
      buffer := data ++ s.buffer.drop n
      alarms := if mismatch then s.alarms + 1 else s.alarms }
  else none

def checkWrite (o : Opts) (io : Io) (s : State) : Option State :=
  let s := { s with writeCnt := s.writeCnt + 1 }
  if due o.writeCheckInter s.writeCnt ∧ 0 < s.growIncr ∧ s.woffset < s.file.length then
    -- the file may have been truncated since the write
    checkLast o (min s.growIncr.toNat (s.file.length - s.woffset)) io s
  else some s

def maxFcRead : Nat := 196608

/-- The loop of `check_file`, from the chunk `k` at `rdCnt` on: its result and the file offset. -/
def checkChunks (o : Opts) (file : List Byte) (ios : Nat → Io) (k rdCnt pos : Nat) : Int × Nat :=
  if rdCnt < file.length then
    let rdSize := min maxFcRead (file.length - rdCnt)
    let data := (file.drop pos).take rdSize
    let after := (ios k).after pos pos data.length
    if data.length ≠ rdSize then (-1, after)
    else if (o.pattern.chk data rdCnt).isSome then (1, after)
    else checkChunks o file ios (k + 1) (rdCnt + rdSize) after
  else (0, pos)
termination_by file.length - rdCnt
decreasing_by
  have chunk : 0 < maxFcRead := by decide
  omega

/-- `check_file`; a file of one chunk is read at once. -/
def checkFile (o : Opts) (ios : Nat → Io) (s : State) : State :=
  let s := { s with fileCnt := s.fileCnt + 1 }
  if due o.fileCheckInter s.fileCnt ∧ o.noFileCheck = false ∧ s.file ≠ [] then
    let r := checkChunks o s.file ios 0 0 0
    { s with pos := r.2, alarms := if r.1 ≠ 0 then s.alarms + 1 else s.alarms }
  else s

inductive Act where
  | openFile (flags : OpenFlags)
  | growfile (sizeDraw seekDraw : Nat) (rand : Nat → Nat) (draw : IoDraw)
  | shrinkfile (draw : Nat)
  | checkWrite (draw : IoDraw)
  | checkFile (draws : Nat → IoDraw)

def step (o : Opts) : Act → State → Option State
  | .openFile flags, s =>
    if o.opens flags then
      some { s with file := if flags.trunc then [] else s.file, pos := 0, append := flags.append }
    else none
  | .growfile sizeDraw seekDraw rand draw, s =>
    growfile o sizeDraw seekDraw rand (o.ioType.method draw) s
  | .shrinkfile draw, s => shrinkfile o draw s
  | .checkWrite draw, s => checkWrite o (o.ioType.method draw) s
  | .checkFile draws, s => some (checkFile o (fun k => o.ioType.method (draws k)) s)

end VteGrowfiles
