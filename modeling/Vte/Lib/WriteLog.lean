import Mathlib.Algebra.Order.Ring.Nat
import Vte.Base.Bytes

/-!
lib/write_log.c: the write history file. A log is a byte list; each record is a packed
`struct wlog_rec_disk`, its path, host and pattern, and a two byte length trailer.
The bit-fields are laid out as on little-endian GNU targets: `w_hostlen` does not fit the
30 bits used before it and opens a new unit, so the fixed part has seven units.
-/
namespace VteWriteLog
open Bytes

abbrev CInt := BitVec 32

def wlogMaxPath : Nat := 128
def wlogMaxPattern : Nat := 64
def wlogMaxHost : Nat := 8
def sizeofWlogRec : Nat := 248
def wlogRecMaxSize : Nat := sizeofWlogRec + wlogMaxPath + wlogMaxPattern + wlogMaxHost + 2
def sizeofWlogRecDisk : Nat := 28
/-- `BSIZE * 32`, the window of the backward scan. -/
def scanBufSize : Nat := 512 * 32
def wlogStopScan : Int := 0

structure WlogRec where
  wPid : CInt
  wOffset : CInt
  wNbytes : CInt
  wOflags : CInt
  wDone : CInt
  wAsync : CInt
  wHost : Vector Byte (wlogMaxHost + 1)
  wHostlen : CInt
  wPath : Vector Byte (wlogMaxPath + 1)
  wPathlen : CInt
  wPattern : Vector Byte (wlogMaxPattern + 1)
  wPatternlen : CInt
  deriving DecidableEq

structure WlogRecDisk where
  offset : Unit32
  extra0 : Unit32
  nbytes : Unit32
  oflags : Unit32
  ident : Unit32
  state : Unit32
  extra2 : Unit32
  deriving DecidableEq

def pidField : Field 17 := ⟨0, by decide⟩
def pathlenField : Field 7 := ⟨17, by decide⟩
def patternlenField : Field 6 := ⟨24, by decide⟩
def hostlenField : Field 4 := ⟨0, by decide⟩
def doneField : Field 1 := ⟨4, by decide⟩
def asyncField : Field 1 := ⟨5, by decide⟩

namespace WlogRecDisk

def wPid (d : WlogRecDisk) : BitVec 17 := pidField.get d.ident
def wPathlen (d : WlogRecDisk) : BitVec 7 := pathlenField.get d.ident
def wPatternlen (d : WlogRecDisk) : BitVec 6 := patternlenField.get d.ident
def wHostlen (d : WlogRecDisk) : BitVec 4 := hostlenField.get d.state
def wDone (d : WlogRecDisk) : BitVec 1 := doneField.get d.state
def wAsync (d : WlogRecDisk) : BitVec 1 := asyncField.get d.state

def toBytes (d : WlogRecDisk) : List Byte :=
  unitBytes d.offset ++ unitBytes d.extra0 ++ unitBytes d.nbytes ++ unitBytes d.oflags ++
    unitBytes d.ident ++ unitBytes d.state ++ unitBytes d.extra2

def ofBytes (bs : List Byte) : WlogRecDisk :=
  ⟨unitAt bs 0, unitAt bs 4, unitAt bs 8, unitAt bs 12, unitAt bs 16, unitAt bs 20, unitAt bs 24⟩

end WlogRecDisk

/-- `(len > 0) ? len : 0`, a signed comparison. -/
def positiveOrZero (len : CInt) : CInt := if 0 < len.toInt then len else 0

/-- The stores of `wlog_rec_pack` into the fixed part; each store keeps the low bits that
    its field holds and leaves the other bits of the unit as they were. -/
def packFixed (wrec : WlogRec) (d : WlogRecDisk) : WlogRecDisk :=
  { d with
    offset := wrec.wOffset
    nbytes := wrec.wNbytes
    oflags := wrec.wOflags
    ident := patternlenField.set (pathlenField.set (pidField.set d.ident
      (wrec.wPid.setWidth 17)) ((positiveOrZero wrec.wPathlen).setWidth 7))
      ((positiveOrZero wrec.wPatternlen).setWidth 6)
    state := hostlenField.set (asyncField.set (doneField.set d.state
      (wrec.wDone.setWidth 1)) (wrec.wAsync.setWidth 1))
      ((positiveOrZero wrec.wHostlen).setWidth 4) }

def wlogRecPack (wrec : WlogRec) (buf : List Byte) (flag : Bool) : Option (List Byte × Nat) := do
  let wrecd := packFixed wrec (WlogRecDisk.ofBytes buf)
  let buf ← memcpy buf 0 wrecd.toBytes sizeofWlogRecDisk
  if flag then
    let file := sizeofWlogRecDisk
    let host := file + wrecd.wPathlen.toNat
    let pattern := host + wrecd.wHostlen.toNat
    let buf ← memcpy buf file wrec.wPath.toList wrecd.wPathlen.toNat
    let buf ← memcpy buf host wrec.wHost.toList wrecd.wHostlen.toNat
    let buf ← memcpy buf pattern wrec.wPattern.toList wrecd.wPatternlen.toNat
    return (buf, sizeofWlogRecDisk + wrecd.wPathlen.toNat + wrecd.wHostlen.toNat + wrecd.wPatternlen.toNat)
  else
    return (buf, sizeofWlogRecDisk)

/-- The record `wlog_rec_unpack` fills in from the fixed part and the copied arrays. -/
def unpackFixed (d : WlogRecDisk) (wHost : Vector Byte (wlogMaxHost + 1))
    (wPath : Vector Byte (wlogMaxPath + 1)) (wPattern : Vector Byte (wlogMaxPattern + 1)) :
    WlogRec where
  wPid := d.wPid.setWidth 32
  wOffset := d.offset
  wNbytes := d.nbytes
  wOflags := d.oflags
  wDone := d.wDone.setWidth 32
  wAsync := d.wAsync.setWidth 32
  wHost := wHost
  wHostlen := d.wHostlen.setWidth 32
  wPath := wPath
  wPathlen := d.wPathlen.setWidth 32
  wPattern := wPattern
  wPatternlen := d.wPatternlen.setWidth 32

def wlogRecUnpack (buf : List Byte) : Option WlogRec := do
  let wrecd := WlogRecDisk.ofBytes buf
  let file := sizeofWlogRecDisk
  let host := file + wrecd.wPathlen.toNat
  let pattern := host + wrecd.wHostlen.toNat
  let wPath ← zeroedCopy (wlogMaxPath + 1) (buf.drop file) wrecd.wPathlen.toNat
  let wHost ← zeroedCopy (wlogMaxHost + 1) (buf.drop host) wrecd.wHostlen.toNat
  let wPattern ← zeroedCopy (wlogMaxPattern + 1) (buf.drop pattern) wrecd.wPatternlen.toNat
  return unpackFixed wrecd wHost wPath wPattern

/-- The buffer `wlog_record_write` packs into; its old contents are arbitrary. -/
abbrev WriteBuf := Vector Byte (wlogRecMaxSize + 2)

/-- Conversion of a file position to `int`. -/
def toCInt (x : Int) : Int := x.bmod (2 ^ 32)

/-- The new contents of the log and the returned offset. An append goes to the end of the
    file, with the record length in two bytes behind it; an overlay rewrites the fixed part. -/
def wlogRecordWrite (log : List Byte) (wbuf : WriteBuf) (wrec : WlogRec) (offset : Int) :
    Option (List Byte × Int) := do
  let (wbuf, reclen) ← wlogRecPack wrec wbuf.toList (decide (offset < 0))
  if offset < 0 then
    let trailer : List Byte := [BitVec.ofNat 8 (reclen / 256), BitVec.ofNat 8 (reclen % 256)]
    let log := log ++ (wbuf.take reclen ++ trailer)
    return (log, toCInt (log.length - (reclen + 2 : Nat)))
  else
    return (writeAt 0 log offset.toNat (wbuf.take reclen), toCInt offset)

/-- The value of a plain `char`, which is signed on some targets. -/
def charVal (signedChar : Bool) (b : Byte) : Int := if signedChar then b.toInt else b.toNat

section scan
variable {σ : Type} (signedChar : Bool) (nrecs : Int) (func : σ → WlogRec → σ × Int)

/-- The inner loop of `wlog_scan_backward` over one window, the bytes from `bufstart` to
    `bufend`; `cp` counts from `bufstart`. Ends with the callback state, `recnum`, the bytes
    left over for the next window and `albuf`. -/
def scanWindow (window : List Byte) :
    Nat → Nat → List Byte → Int → σ → Option (σ × Int × List Byte × List Byte)
  | 0, _, _, _, _ => none
  | fuel + 1, cp, albuf, recnum, s =>
    if cp < 2 then some (s, recnum, window.take cp, albuf)
    else
      let reclen := charVal signedChar (byteAt window (cp - 2)) * 256 + charVal signedChar (byteAt window (cp - 1))
      if (cp : Int) < reclen + 2 then some (s, recnum, window.take cp, albuf)
      else if reclen < 0 then none  -- memcpy of a negative size
      else do
        let cp := cp - (reclen.toNat + 2)
        let albuf ← memcpy albuf 0 (window.drop cp) reclen.toNat
        let wrec ← wlogRecUnpack albuf
        let (s, rval) := func s wrec
        if rval = wlogStopScan then some (s, recnum, [], albuf)
        else if nrecs ≠ 0 ∧ nrecs ≤ recnum + 1 then some (s, recnum + 1, [], albuf)
        else scanWindow window fuel cp albuf (recnum + 1) s

/-- The outer loop: refill the window from before `offset`, in front of the leftover bytes. -/
def scanLoop (file : List Byte) :
    Nat → Int → List Byte → List Byte → Int → σ → Option σ
  | 0, _, _, _, _, _ => none
  | fuel + 1, offset, leftover, albuf, recnum, s =>
    if (nrecs = 0 ∨ recnum < nrecs) ∧ 0 < offset then do
      let whole := offset + leftover.length < scanBufSize
      let nbytes := if whole then offset.toNat else scanBufSize - leftover.length
      let offset := if whole then 0 else offset - (scanBufSize - leftover.length : Nat)
      let window := (file.drop offset.toNat).take nbytes ++ leftover
      let (s, recnum, leftover, albuf) ←
        scanWindow signedChar nrecs func window (window.length + 1) window.length albuf recnum s
      scanLoop file fuel offset leftover albuf recnum s
    else some s

/-- Every refill that makes progress reads at least one byte, so the file length bounds their
    number; `none` is undefined behaviour or a scan that does not end. -/
def wlogScanBackward (file : List Byte) (albuf : Vector Byte wlogRecMaxSize) (s : σ) : Option σ :=
  scanLoop signedChar nrecs func file (file.length + 1) (toCInt file.length) [] albuf.toList 0 s

end scan

end VteWriteLog
