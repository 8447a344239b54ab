import Vte.Base.Machine
import Vte.Base.Multiples
import Vte.Base.SparseFile

/-!
dio_bio_vectors_test.c: the options, and the children that write and read vectors of one shared file in
`runtest`. The file system is one whose calls do all of their work; a direct call needs an aligned position.
-/
namespace DioVectors
open Bytes SparseFile Multiples

inductive Letter where
  | b | o | i | n
deriving DecidableEq

/-- An option of the command line with the `int` that `atoi` gives for its argument. -/
structure Opt where
  letter : Letter
  value : Int
  fits : Fits32 value

structure Options where
  bufsize : Nat
  offset : Nat
  iter : Nat
  numchild : Nat
deriving DecidableEq

def defaults : Options := ⟨4096, 0, 100, 5⟩

def setOption (s : Options) (opt : Opt) : Option Options :=
  if opt.value ≤ 0 then none
  else match opt.letter with
    | .b => if opt.value % 4096 ≠ 0 then none else some { s with bufsize := opt.value.toNat }
    | .o => some { s with offset := opt.value.toNat }
    | .i => some { s with iter := opt.value.toNat }
    | .n => some { s with numchild := opt.value.toNat }

def parse (opts : List Opt) : Option Options := opts.foldlM setOption defaults

inductive Action where
  | readDirect | writeDirect | rdwrDirect
deriving DecidableEq

def Action.reads (a : Action) : Bool := a ≠ .writeDirect
def Action.writes (a : Action) : Bool := a ≠ .readDirect
def Action.syncs (a : Action) : Bool := a = .readDirect

inductive Result where
  | ok
  /-- a comparison failed -/
  | mismatch
  /-- a call failed -/
  | call
  /-- an `int` or an `off64_t` overflowed -/
  | undefined
deriving DecidableEq

inductive Pc where
  | start
  | fill
  | seekWrite (vidx : Nat)
  | write (vidx : Nat)
  | sync (vidx : Nat)
  | seekRead (vidx : Nat)
  | read (vidx : Nat)
  | compare
  | ended (result : Result)
deriving DecidableEq

structure Child where
  pc : Pc
  idx : Nat
  seekoff : Int
  wpos : Nat
  rpos : Nat
  iov1 : List (List Byte)
  iov2 : List (List Byte)
deriving DecidableEq

structure Access where
  child : Nat
  pos : Nat
  len : Nat
deriving DecidableEq

structure State where
  children : Nat → Child
  file : List Byte
  log : List Access

def nvector : Nat := 5

def newChild : Child := ⟨.start, 0, 0, 0, 0, List.replicate nvector [], List.replicate nvector []⟩

def initial (file : List Byte) : State := ⟨fun _ => newChild, file, []⟩

section code
variable (o : Options) (a : Action) (childnum : Nat)

/-- `offset + (off64_t)childnum * (off64_t)iter * (off64_t)nvector * (off64_t)bufsize` -/
def seekoffOf : Option Int := do
  let x ← checked64 (childnum * o.iter)
  let x ← checked64 (x * nvector)
  let x ← checked64 (x * o.bufsize)
  checked64 (o.offset + x)

def positionOf (seekoff : Int) (idx vidx : Nat) : Option Int := do
  let x ← checked32 (idx * vidx)
  let x ← checked32 (x * o.bufsize)
  checked64 (seekoff + x)

def vfillbuf (count : Nat) (value : Int) : List (List Byte) :=
  List.replicate nvector (List.replicate count (BitVec.ofInt 8 value))

def bufcmp (buf1 buf2 : List Byte) (bsize : Nat) : Bool :=
  (List.range bsize).all fun k => byteAt buf1 k = byteAt buf2 k

def vbufcmp (iv1 iv2 : List (List Byte)) : Bool :=
  (List.range nvector).all fun v =>
    bufcmp (iv1.getD v []) (iv2.getD v []) (iv1.getD v []).length

def afterWrite (vidx : Nat) : Pc := if vidx + 1 < nvector then .seekWrite (vidx + 1) else .seekRead 0

def afterRead (vidx : Nat) : Pc := if vidx + 1 < nvector then .seekRead (vidx + 1) else .compare

def computed (s : Child) (value : Option Int) (next : Int → Child) : Child :=
  match value with
  | some x => next x
  | none => { s with pc := .ended .undefined }

def lseek (s : Child) (offset : Int) (next : Nat → Child) : Child :=
  match seek offset with
  | some pos => next pos
  | none => { s with pc := .ended .call }

/-- One step of a child in `runtest`: with the file it leaves and the access it makes. -/
def childStep (s : Child) (file : List Byte) : Option (Child × List Byte × List Access) :=
  match s.pc with
  | .start =>
    some (computed s (seekoffOf o childnum) fun x => { s with pc := .fill, idx := 0, seekoff := x }, file, [])
  | .fill =>
    if s.idx < o.iter then
      some (computed s (checked32 (childnum + s.idx)) fun x =>
        { s with pc := .seekWrite 0, iov1 := vfillbuf o.bufsize x }, file, [])
    else some ({ s with pc := .ended .ok }, file, [])
  | .seekWrite v =>
    some (computed s (positionOf o s.seekoff s.idx v) fun x =>
      lseek s x fun pos => { s with pc := .write v, wpos := pos }, file, [])
  | .write v =>
    let buf := s.iov1.getD v []
    if a.writes ∧ s.wpos % 4096 ≠ 0 then some ({ s with pc := .ended .call }, file, [])
    else some ({ s with pc := if a.syncs then .sync v else afterWrite v, wpos := s.wpos + buf.length },
      writeAt 0 file s.wpos buf, [⟨childnum, s.wpos, buf.length⟩])
  | .sync v => some ({ s with pc := afterWrite v }, file, [])
  | .seekRead v =>
    some (computed s (positionOf o s.seekoff s.idx v) fun x =>
      lseek s x fun pos => { s with pc := .read v, rpos := pos }, file, [])
  | .read v =>
    let buf := readAt file s.rpos o.bufsize
    if (a.reads ∧ s.rpos % 4096 ≠ 0) ∨ buf.length < o.bufsize then
      some ({ s with pc := .ended .call }, file, [])
    else some ({ s with pc := afterRead v, rpos := s.rpos + buf.length, iov2 := s.iov2.set v buf },
      file, [⟨childnum, s.rpos, o.bufsize⟩])
  | .compare =>
    if vbufcmp s.iov1 s.iov2 then some ({ s with pc := .fill, idx := s.idx + 1 }, file, [])
    else some ({ s with pc := .ended .mismatch }, file, [])
  | .ended _ => none

end code

/-- A step of the child `c` of the testblock. -/
def step (o : Options) (a : Action) (c : Nat) (s : State) : Option State :=
  if c < o.numchild then
    (childStep o a c (s.children c) s.file).map fun (child, file, accesses) =>
      ⟨fun k => if k = c then child else s.children k, file, s.log ++ accesses⟩
  else none

/-- Where the region of the child `c` starts. -/
def base (o : Options) (c : Nat) : Nat := o.offset + c * o.iter * 5 * o.bufsize

/-- Every access has been inside the region of its child, so that those of two children are apart, and no
    child has failed. -/
structure Good (o : Options) (s : State) : Prop where
  inside : ∀ x ∈ s.log, base o x.child ≤ x.pos ∧ x.pos + x.len ≤ base o (x.child + 1)
  apart : ∀ x ∈ s.log, ∀ y ∈ s.log, x.child ≠ y.child → x.pos + x.len ≤ y.pos ∨ y.pos + y.len ≤ x.pos
  clean : ∀ c < o.numchild, ∀ result, (s.children c).pc = .ended result → result = .ok

structure Suits (o : Options) : Prop where
  value : o.numchild - 1 + (o.iter - 1) < 2147483648
  product : (o.iter - 1) * 4 * o.bufsize < 2147483648
  position : base o (o.numchild - 1) + (o.iter - 1) * 4 * o.bufsize < 9223372036854775808

section options

structure Accepted (o : Options) : Prop where
  bufsize : 0 < o.bufsize
  page : o.bufsize % 4096 = 0
  iter : 0 < o.iter
  numchild : 0 < o.numchild
  small : o.bufsize < 2147483648 ∧ o.offset < 2147483648 ∧ o.iter < 2147483648 ∧ o.numchild < 2147483648

theorem setOption_accepted {s t : Options} {opt : Opt} (before : Accepted s)
    (set : setOption s opt = some t) : Accepted t := by
  have fits := opt.fits
  obtain ⟨bufsize, page, iter, numchild, small⟩ := before
  rw [Fits32] at fits
  rw [setOption] at set
  split at set
  · cases set
  · rename_i positive
    split at set
    · split at set
      · cases set
      · rename_i whole
        obtain rfl := Option.some.inj set
        exact ⟨by dsimp only; omega, by dsimp only; omega, iter, numchild, by dsimp only; omega, small.2⟩
    · obtain rfl := Option.some.inj set
      exact ⟨bufsize, page, iter, numchild, small.1, by dsimp only; omega, small.2.2⟩
    · obtain rfl := Option.some.inj set
      exact ⟨bufsize, page, by dsimp only; omega, numchild, small.1, small.2.1, by dsimp only; omega, small.2.2.2⟩
    · obtain rfl := Option.some.inj set
      exact ⟨bufsize, page, iter, by dsimp only; omega, small.1, small.2.1, small.2.2.1,
        by dsimp only; omega⟩

theorem parse_accepted {opts : List Opt} {o : Options} (parsed : parse opts = some o) : Accepted o := by
  have keeps : ∀ s, Accepted s → opts.foldlM setOption s = some o → Accepted o := by
    clear parsed
    induction opts with
    | nil =>
      intro s before parsed
      obtain rfl := Option.some.inj parsed
      exact before
    | cons opt opts ih =>
      intro s before parsed
      rw [List.foldlM_cons] at parsed
      obtain ⟨t, set, rest⟩ := Option.bind_eq_some_iff.mp parsed
      exact ih t (setOption_accepted before set) rest
  exact keeps defaults ⟨by decide, by decide, by decide, by decide, by decide⟩ parsed

end options
end DioVectors
