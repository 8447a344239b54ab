import Vte.Base.CInt
import Vte.Base.Machine
import Vte.Lib.RandomRange

/-!
testcases/kernel/fs/doio/iogen.c: the requests that form_iorequest makes up, one after the other,
for the files that parse_cmdline accepts.
-/
namespace VteIogen
open CInt VteRandomRange

inductive OffsetMode where
  | sequential
  | reverse
  | random
  deriving DecidableEq

inductive Syscall where
  | read
  | write
  | readv
  | writev
  | mmread
  | mmwrite
  | fsync2
  | fdatasync

def Syscall.writes : Syscall → Bool
  | .read => false
  | .readv => false
  | .mmread => false
  | _ => true

inductive Access where
  | rdonly
  | wronly
  | rdwr

def Syscall.access : Syscall → Access
  | .mmwrite => .rdwr
  | sc => if sc.writes then .wronly else .rdonly

structure Opts where
  offsetMode : OffsetMode
  /-- -o -/
  overlap : Bool
  mintrans : Int
  maxtrans : Int
  syscalls : List Syscall
  /-- for each flag whether it is `sync` -/
  flags : List Bool
  someSyscall : syscalls ≠ []
  someFlag : flags ≠ []

structure FileInfo where
  length : Int
  iou : Int
  lastoffset : Int
  lastlength : Int

structure IoReq where
  type : Syscall
  file : Nat
  access : Access
  sync : Bool
  offset : Int
  nbytes : Int
  pattern : Char
  nstrides : Nat
  nent : Nat

structure Draws where
  syscall : Nat
  pattern : Nat
  file : Nat
  flags : Nat
  length : Nat
  offset : Nat

def roundUp (offset mult : Int) : Int :=
  if offset ≠ 0 ∧ offset.tmod mult ≠ 0 then int32 (offset + (mult - offset.tmod mult)) else offset

def roundDown (offset mult : Int) : Int :=
  if offset ≠ 0 ∧ offset.tmod mult ≠ 0 then int32 (offset - offset.tmod mult) else offset

def FileInfo.lastend (f : FileInfo) : Int := int32 (int32 (f.lastoffset + f.lastlength) - 1)

/-- `random_range` without an error message. -/
def between (min max mult : Int) (draw : Nat) : Int := (randomRange min max mult draw).getD (-1)

/-- Offset and length in the mode `M_SEQUENTIAL`. -/
def sequential (o : Opts) (d : Draws) (f : FileInfo) : Option (Int × Int) :=
  let mult := f.iou
  let minlength := if o.mintrans > mult then o.mintrans else mult
  let start :=
    if o.overlap ∧ f.lastend > f.lastoffset then between f.lastoffset f.lastend 1 d.offset
    else int32 (f.lastend + 1)
  let next := roundUp start mult
  let offset := if minlength > int32 (f.length - next) then 0 else next
  let left := int32 (f.length - offset)
  let maxlength := if left > o.maxtrans then o.maxtrans else left
  (randomRange minlength maxlength mult d.length).map fun length => (offset, length)

/-- The length in the mode `M_REVERSE`, for a transfer that ends where `laststart` was. -/
def reverseFrom (o : Opts) (d : Draws) (mult laststart lastend maxlength : Int) :
    Option (Int × Int) :=
  let minlength := if o.mintrans > mult then o.mintrans else mult
  (randomRange minlength maxlength mult d.length).map fun length =>
    let offset := int32 (laststart - length)
    let offset :=
      if o.overlap ∧ lastend > laststart then
        int32 (offset + between 1 (int32 (lastend - laststart)) 1 d.offset)
      else offset
    (roundDown offset mult, length)

/-- Offset and length in the mode `M_REVERSE`. -/
def reverse (o : Opts) (d : Draws) (f : FileInfo) : Option (Int × Int) :=
  let mult := f.iou
  let minlength := if o.mintrans > mult then o.mintrans else mult
  let maxlength := if f.lastoffset > o.maxtrans then o.maxtrans else f.lastoffset
  if minlength > maxlength then reverseFrom o d mult f.length f.length o.maxtrans
  else reverseFrom o d mult f.lastoffset f.lastend maxlength

/-- Offset and length in the mode `M_RANDOM`. -/
def random (o : Opts) (d : Draws) (f : FileInfo) : Option (Int × Int) :=
  let length := between o.mintrans o.maxtrans f.iou d.length
  let overlaps := o.overlap ∧ f.lastend > f.lastoffset
  let minoffset := if overlaps then int32 (int32 (f.lastoffset - length) + 1) else 0
  let maxoffset :=
    if overlaps ∧ int32 (f.lastend + length) ≤ f.length then f.lastend
    else int32 (f.length - length)
  let minoffset := if minoffset < 0 then 0 else minoffset
  (randomRange minoffset maxoffset f.iou d.offset).map fun offset => (offset, length)

def choose (o : Opts) (d : Draws) (f : FileInfo) : Option (Int × Int) :=
  match o.offsetMode with
  | .sequential => sequential o d f
  | .reverse => reverse o d f
  | .random => random o d f

/-- An element picked by `random_range`. -/
def pick {α : Type} (draw : Nat) (xs : List α) : Option α :=
  xs[(between 0 (xs.length - 1) 1 draw).toNat]?

def patterns : List Char := "ABCDEFGHIJKLMNOPQRSTUVWXYZ".toList

def choosePattern (sc : Syscall) (draw : Nat) : Option Char :=
  if sc.writes then pick draw patterns else some (Char.ofNat 0)

/-- `form_iorequest`: the request, and the files with the last offset and length of its own. -/
def formIorequest (o : Opts) (d : Draws) (files : List FileInfo) :
    Option (IoReq × List FileInfo) := do
  let sc ← pick d.syscall o.syscalls
  let pattern ← choosePattern sc d.pattern
  let file := (between 0 (files.length - 1) 1 d.file).toNat
  let f ← files[file]?
  let sync ← pick d.flags o.flags
  let place ← choose o d f
  some ({ type := sc, file, access := sc.access, sync, offset := place.1, nbytes := place.2, pattern,
          nstrides := 1, nent := 1 },
        files.set file { f with lastoffset := place.1, lastlength := place.2 })

def OffsetMode.start (length : Int) : OffsetMode → Int
  | .sequential => 0
  | .reverse => length
  | .random => length.tdiv 2

def acceptFile (o : Opts) (length : Int) : Option FileInfo :=
  if length < o.mintrans ∨ length < o.maxtrans ∨ length ≤ 0 then none
  else some { length, iou := 1, lastoffset := o.offsetMode.start length, lastlength := 0 }

def parseFiles (o : Opts) (lengths : List Int) : List FileInfo := lengths.filterMap (acceptFile o)

def step (o : Opts) (d : Draws) (files : List FileInfo) : Option (List FileInfo) :=
  (formIorequest o d files).map (·.2)

end VteIogen
