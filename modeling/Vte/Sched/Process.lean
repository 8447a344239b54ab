import Vte.Base.CInt
import Vte.Base.HeapTree
import Vte.Base.Multiples

/-!
kernel/sched/process_stress/process.c: the arguments, the shared segment and the semaphores that are set up
for them, and the processes that `spawn` forks, with what each of them writes to the segment.
-/
namespace Process
open CInt Multiples

structure Args where
  AUSDEBUG : Int
  BVAL : Int
  DVAL : Int
  TVAL : Int
deriving DecidableEq

/-- What `getopt` returns; a number with whether `atoi` set `errno`. -/
inductive Opt where
  | b (value : Int) (errno : Bool)
  | d (value : Int) (errno : Bool)
  | f
  | D
  | t (value : Int) (errno : Bool)
  | unknown
deriving DecidableEq

structure Flags where
  dflag : Bool
  bflag : Bool
  fflag : Bool
  tflag : Bool
  errflag : Bool
deriving DecidableEq

section arguments

def option (opt : Opt) (a : Args) (fl : Flags) : Args × Flags :=
  match opt with
  | .b value errno =>
    if fl.bflag then (a, { fl with errflag := true })
    else ({ a with BVAL := value }, { fl with bflag := true, errflag := fl.errflag || errno })
  | .d value errno =>
    if fl.dflag then (a, { fl with errflag := true })
    else ({ a with DVAL := value }, { fl with dflag := true, errflag := fl.errflag || errno })
  | .f => (a, { fl with fflag := true })
  | .D => ({ a with AUSDEBUG := 1 }, fl)
  | .t value errno =>
    if fl.tflag then (a, { fl with errflag := true })
    else
      ({ a with TVAL := value }, { fl with tflag := true, errflag := fl.errflag || value = 0 || errno })
  | .unknown => (a, { fl with errflag := true })

def MAXDVAL : Int := 11

def checkArgs (a : Args) (fl : Flags) : Option Args :=
  if a.BVAL < 2 then none
  else if a.DVAL < 2 then none
  else if ¬ fl.fflag ∧ a.DVAL > MAXDVAL then none
  else if fl.errflag then none
  else some a

def parse_args (a : Args) (opts : List Opt) : Option Args :=
  let (a, fl) := opts.foldl (fun s opt => option opt s.1 s.2) (a, ⟨false, false, false, false, false⟩)
  checkArgs a fl

end arguments

section setup

/-- The loop of `sumit`: the power is an `int`, the sum an `unsigned long`. -/
def sumitLoop (B : Int) : Nat → Int → Nat → Option Nat
  | 0, _, sum => some sum
  | left + 1, exp, sum => do
    let exp ← checked32 (B * exp)
    sumitLoop B left exp (u64 (sum + exp))

def sumit (B D : Int) : Option Nat := sumitLoop B D.toNat 1 1

/-- `sizeof(Pinfo)`: four `int`s and a pointer. -/
def sizeofPinfo : Nat := 24

def sizeofInt : Nat := 4

structure Setup where
  nodesum : Int
  /-- the bytes of the shared segment -/
  size : Nat
  /-- the semaphores of each of the two sets -/
  semaphores : Int
deriving DecidableEq

def setup_shm (a : Args) (nodesum : Int) : Option Nat := do
  let lists ← checked32 (nodesum * a.BVAL)
  some (u64 (sizeofPinfo * nodesum + lists * sizeofInt))

/-- `semget` refuses a set without semaphores. -/
def setup_semaphores (nodesum : Int) : Option Int :=
  if 0 < nodesum - 1 then some (nodesum - 1) else none

/-- What `main` sets up before the processes start, if it does not exit. -/
def main (argc : Nat) (env : Args) (opts : List Opt) : Option (Args × Setup) := do
  if argc < 2 then none
  else
    let a ← parse_args env opts
    let sum ← sumit a.BVAL a.DVAL
    let nodesum := int32 sum
    let nodesum := if nodesum > 250 then 250 else nodesum
    let size ← setup_shm a nodesum
    let semaphores ← setup_semaphores nodesum
    some (a, ⟨nodesum, size, semaphores⟩)

end setup

section spawn
variable (a : Args)

/-- A process: its slot, that of its parent, and the `level` it was forked at. -/
structure Proc where
  slot : Int
  parent : Int
  level : Int
deriving DecidableEq

/-- The first process, which `doit` forks. -/
def first : Proc := ⟨0, 0, 0⟩

/-- `tval` in the turns of the loop of `spawn(val)`. -/
def tvals (val : Int) : List Int := (List.range a.BVAL.toNat).map fun i => val * a.BVAL + (i + 1 : Nat)

/-- `doit` calls `spawn` in the first process; another one calls it unless it is a leaf. -/
def Spawns (p : Proc) : Prop := p.level = 0 ∨ p.level < a.DVAL

instance (p : Proc) : Decidable (Spawns a p) := inferInstanceAs (Decidable (_ ∨ _))

def spawn (p : Proc) : List Proc :=
  if Spawns a p then (tvals a p.slot).map fun tval => ⟨tval, p.slot, p.level + 1⟩ else []

def generation : Nat → List Proc
  | 0 => [first]
  | n + 1 => (generation n).flatMap (spawn a)

/-- The processes that `spawn` creates, in so many generations. -/
def created (n : Nat) : List Proc := (List.range n).flatMap fun i => generation a (i + 1)

end spawn

section segment
variable (a : Args) (nodesum : Int)

/-- Where `put_proc_info` writes the record and the list, and what is in the list. -/
structure Placed where
  record : Int
  list : Int
  entries : List Int
deriving DecidableEq

/-- The loop over `sibslot`, with so many entries of the list left. -/
def siblings (tval : Int) (left : Nat) (sibslot : Int) : List Int :=
  match left with
  | 0 => []
  | left' + 1 =>
    if tval ≠ sibslot then sibslot :: siblings tval left' (sibslot + 1)
    else siblings tval (left' + 1) (sibslot + 1)
termination_by (left, (tval + 1 - sibslot).toNat)

/-- What `put_proc_info` puts into the list of a process that is not the first one. -/
def entries (tval : Int) : List Int :=
  let parent := (tval - 1).tdiv a.BVAL
  parent :: siblings tval (a.BVAL - 1).toNat (parent * a.BVAL + 1)

def put_proc_info (tval : Int) : Option Placed := do
  let index ← checked32 (a.BVAL * tval)
  some ⟨sizeofPinfo * tval, sizeofPinfo * nodesum + sizeofInt * index, entries a tval⟩

def semoper (slot : Int) : Int := (slot - 1).tdiv a.BVAL

/-- The semaphores that a process uses: one that spawns waits for its own, with the last `tval`, and locks
that of its parent; a leaf locks that of its parent. -/
def semaphores (p : Proc) : List Int :=
  if Spawns a p then
    let tval := p.slot * a.BVAL + a.BVAL
    let pslot := semoper a tval
    [pslot, semoper a pslot]
  else [semoper a p.slot]

def Inside (size : Nat) (offset bytes : Int) : Prop := 0 ≤ offset ∧ offset + bytes ≤ size

/-- The slots are distinct; every process writes within the segment, to its list the slot of its parent and
then those of the others that the parent has forked; and the semaphores that are used are there. -/
structure Sound (st : Setup) : Prop where
  distinct : ∀ n, ((created a n).map Proc.slot).Nodup
  placed : ∀ n, ∀ p ∈ created a n, ∃ w, put_proc_info a st.nodesum p.slot = some w ∧
    Inside st.size w.record sizeofPinfo ∧ Inside st.size w.list (a.BVAL * sizeofInt) ∧
      w.entries = p.parent :: (tvals a p.parent).filter (· ≠ p.slot)
  semaphores : ∀ n, ∀ p ∈ first :: created a n, ∀ sem ∈ semaphores a p, 0 ≤ sem ∧ sem < st.semaphores

end segment
end Process
