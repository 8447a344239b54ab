import Mathlib.Data.List.Basic
import Vte.Base.Patterned

/-!
lib/databin.c, lib/dataascii.c and lib/datapid.c: data patterns that depend on the offset in a file,
generated into a buffer and checked there. The patterns with a pid are for 64-bit words only; here
they generate nothing, and the check refuses every buffer.
-/
namespace VteDataPattern
open Bytes Patterned

/-- `CHARS`, with its terminating byte, which counts in `CHARS_SIZE`. -/
def chars : List Byte :=
  ("ABCDEFGHIJKLMNOPQRSTUVWXYZabcdefghjiklmnopqrstuvwxyz\n".toList.map fun c =>
    BitVec.ofNat 8 c.toNat) ++ [0]

/-- The byte of `dataasciigen` at an offset in the file. -/
def asciiByte (offset : Nat) : Byte := chars.getD (offset % 54) 0

inductive Mode where
  | alternating
  | checkerboard
  | counting
  | ones
  | zeros
  deriving DecidableEq

/-- The byte of `databingen` at an offset in the file, for every mode but the random one. -/
def Mode.byte : Mode → Nat → Byte
  | .alternating, _ => 0x55
  | .checkerboard, _ => 0xf0
  | .counting, offset => BitVec.ofNat 8 (offset % 8 &&& 0o177)
  | .ones, _ => 0xff
  | .zeros, _ => 0

def dataasciigen (bsize offset : Nat) : List Byte := generate asciiByte bsize offset

def databingen (mode : Mode) (bsize offset : Nat) : List Byte := generate mode.byte bsize offset

def databingenRandom (rand : Nat → Nat) (bsize : Nat) : List Byte :=
  (List.range bsize).map fun ind => BitVec.ofNat 8 ((rand ind &&& 0o177) ||| 0o100)

def check (byte : Nat → Byte) : List Byte → Nat → Option Nat
  | [], _ => none
  | b :: buffer, offset => if b = byte offset then check byte buffer (offset + 1) else some offset

def dataasciichk (buffer : List Byte) (offset : Nat) : Option Nat := check asciiByte buffer offset

def databinchk (mode : Mode) (buffer : List Byte) (offset : Nat) : Option Nat :=
  check mode.byte buffer offset

def datapidchk (_ : List Byte) (_ : Nat) : Option Nat := some 0

section laws
variable {byte : Nat → Byte}

theorem check_none_iff (byte : Nat → Byte) (buffer : List Byte) : ∀ offset,
    check byte buffer offset = none ↔ Fits byte offset buffer := by
  induction buffer with
  | nil =>
    intro offset
    simp [check, nil_fits]
  | cons head buffer ih =>
    intro offset
    rw [check, cons_fits, ← ih]
    split
    · rename_i same
      simp [same]
    · rename_i other
      simp [other]

end laws
end VteDataPattern
