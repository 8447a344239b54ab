import Mathlib.Data.Nat.ModEq
import Mathlib.Logic.Function.Basic
import Vte.Base.Bytes
import Vte.Base.CInt
import Vte.Base.Machine

/-!
kernel/mem/mmapstress/mmapstress10.c: a parent that writes a file and checks it in the end, children that map the file
and read and write their own places on its pages, and one that appends to it.
-/
namespace Mmapstress10
open Bytes CInt Function Machine

def MAXLOOPS : Nat := 500
def UINT_MAX : Nat := 4294967295
def INT_MAX : Nat := 2147483647

def ADDRESSES : Nat := 140737488355328

def u32 (n : Nat) : Nat := n % 4294967296

def lrand48 (draw : Nat) : Nat := draw % 2147483648

structure Options where
  nprocs : Nat
  growsize : Nat
  filesize : Nat
  sparseoffset : Nat
  pagesize : Nat
  /-- the low byte of the seed -/
  pattern : Nat
  do_offset : Bool
  dosync : Bool
  randloops : Bool

/-- What `main` goes on with; a negative `sparseoffset` is refused by `lseek`. -/
structure Accepted (o : Options) : Prop where
  some_proc : 0 < o.nprocs
  few_procs : o.nprocs ≤ 255
  some_page : 0 < o.pagesize
  at_page : o.sparseoffset % o.pagesize = 0
  room : o.pagesize + o.growsize ≤ INT_MAX

structure File where
  size : Nat
  byte : Nat → Byte
  written : List (Nat × Byte)

def File.store (f : File) (p : Nat) (b : Byte) : File :=
  { f with byte := update f.byte p b, written := f.written ++ [(p, b)] }

def File.put (f : File) (p : Nat) (b : Byte) : File :=
  { f.store p b with size := max f.size (p + 1) }

def File.write (f : File) (p : Nat) : List Byte → File
  | [] => f
  | b :: bytes => (f.put p b).write (p + 1) bytes

inductive MapperPc
  | start
  | mapped (offset mapsize mappages : Nat)
  | loop (offset mapsize mappages left : Nat)
  | check (offset mapsize mappages randpage i left : Nat)
  | store (offset mapsize mappages randpage i left : Nat)
  | exited
  | killed
  /-- reports "invalid data" -/
  | invalid
  /-- divides by zero -/
  | divided
  /-- reports an error of `mmap`, or gets a `SIGBUS` -/
  | unmapped
  /-- reports "size_t overflow" -/
  | overflow
deriving DecidableEq

/-- The writer's `off`, and how much of the present call has been written. -/
inductive WriterPc
  | start
  | write (off t : Nat)
  | killed
deriving DecidableEq

inductive ParentPc
  | waiting
  | cleanup (no_prob : Bool)
  | failed
  /-- the value of `fileokay`; none when it exits -/
  | checked (okay : Option Bool)
deriving DecidableEq

structure State where
  file : File
  mapper : Nat → MapperPc
  writer : WriterPc
  parent : ParentPc

inductive Act
  | mapper (procno draw : Nat)
  | writer
  | refork (procno : Nat)
  | notice (procno : Nat)
  | finish
  | kill_mapper (procno : Nat)
  | kill_writer
  | check
deriving DecidableEq

section program
variable (o : Options)

/-- `data` goes through the numbers of the processes. -/
def cycle : Nat → Nat → List Byte
  | 0, _ => []
  | n + 1, data =>
    BitVec.ofNat 8 (data + o.pattern) :: cycle n (if data + 1 = o.nprocs then 0 else data + 1)

def buf : List Byte := cycle o o.pagesize 0 ++ cycle o o.growsize 0

def fill : Nat → Nat → Nat → File → File
  | 0, _, _, f => f
  | rounds + 1, bytes_left, p, f =>
    if bytes_left = 0 then f
    else
      let write_cnt := min o.pagesize bytes_left
      fill rounds (bytes_left - write_cnt) (p + write_cnt) (f.write p ((buf o).take write_cnt))

def initial : State where
  file := fill o o.filesize o.filesize o.sparseoffset ⟨0, fun _ => 0, []⟩
  mapper _ := .start
  writer := .start
  parent := .waiting

/-- `size_t` arithmetic, and an `unsigned` for the result. -/
def pages (mapsize : Nat) : Nat :=
  let roundup := u64 (u64 (mapsize + (o.pagesize - 1 : Nat)) / o.pagesize * o.pagesize : Nat)
  u32 (roundup / o.pagesize)

def mmap (offset : Int) (mapsize mappages : Nat) : MapperPc :=
  if mapsize = 0 ∨ offset < 0 ∨ offset % o.pagesize ≠ 0 ∨ ADDRESSES < mapsize then .unmapped
  else .mapped offset.toNat mapsize mappages

/-- The mapping that a child sets up for a file of `size`. -/
def setup (size draw : Nat) : MapperPc :=
  if (UINT_MAX : Int) < size - o.sparseoffset then .overflow
  else
    let mapsize := u64 (size - o.sparseoffset)
    let mappages := pages o mapsize
    if o.do_offset then
      if mappages = 0 then .divided
      else
        let pageoffset := lrand48 draw % mappages
        let byteoffset := int32 (pageoffset * o.pagesize)
        mmap o (o.sparseoffset + byteoffset) (u64 (mapsize - byteoffset)) (mappages - pageoffset)
    else mmap o o.sparseoffset mapsize mappages

def validsize (mapsize mappages randpage : Nat) : Nat :=
  if randpage < mappages - 1 ∨ mapsize % o.pagesize = 0 then o.pagesize else mapsize % o.pagesize

def own (procno : Nat) : Byte := BitVec.ofNat 8 (procno + o.pattern)

def place (offset randpage i : Nat) : Nat := offset + u32 (randpage * o.pagesize) + i

def mapper (procno draw : Nat) (s : State) : Option State :=
  let go (pc : MapperPc) : State := { s with mapper := update s.mapper procno pc }
  match s.mapper procno with
  | .start => some (go (setup o s.file.size draw))
  | .mapped offset mapsize mappages =>
    some (go (.loop offset mapsize mappages (if o.randloops then lrand48 draw % MAXLOOPS else MAXLOOPS)))
  | .loop _ _ mappages 0 => some (go (if o.dosync ∧ mappages = 0 then .divided else .exited))
  | .loop offset mapsize mappages (left + 1) =>
    if mappages = 0 then some (go .divided)
    else some (go (.check offset mapsize mappages (lrand48 draw % mappages) procno left))
  | .check offset mapsize mappages randpage i left =>
    if i < validsize o mapsize mappages randpage then
      let p := place o offset randpage i
      if s.file.size ≤ p then some (go .unmapped)
      else if s.file.byte p ≠ own o procno ∧ s.file.byte p ≠ 0 then some (go .invalid)
      else some (go (.store offset mapsize mappages randpage i left))
    else some (go (.loop offset mapsize mappages left))
  | .store offset mapsize mappages randpage i left =>
    some { go (.check offset mapsize mappages randpage (i + o.nprocs) left) with
      file := s.file.store (place o offset randpage i) (own o procno) }
  | _ => none

/-- A call of `write` puts one byte after the other. -/
def writer (s : State) : Option State :=
  match s.writer with
  | .start => some { s with writer := .write s.file.size 0 }
  | .write off t =>
    if t < o.growsize then
      some { s with
        file := s.file.put (off + t) ((buf o).getD (off % o.pagesize + t) 0)
        writer := .write off (t + 1) }
    else some { s with writer := .write (off + o.growsize) 0 }
  | .killed => none

/-- The loop over the pages, with `pos` the position in the file. -/
def checkPages (f : File) (mapsize : Nat) : Nat → Nat → Nat → Bool
  | 0, _, _ => true
  | todo + 1, i, pos =>
    let cnt := min o.pagesize (f.size - pos)
    if cnt ≠ o.pagesize ∧ u32 (u32 (i * o.pagesize) + cnt) ≠ mapsize then false
    else if (List.range cnt).any fun j =>
        (buf o).getD j 0 != f.byte (pos + j) && f.byte (pos + j) != 0 then false
    else checkPages f mapsize todo (i + 1) (pos + cnt)

def fileokay (f : File) : Option Bool :=
  if (UINT_MAX : Int) < f.size - o.sparseoffset then none
  else
    let mapsize := u64 (f.size - o.sparseoffset)
    some (checkPages o f mapsize (pages o mapsize) 0 o.sparseoffset)

def MapperPc.alive : MapperPc → Bool
  | .start => true
  | .mapped .. => true
  | .loop .. => true
  | .check .. => true
  | .store .. => true
  | _ => false

def MapperPc.wrong : MapperPc → Bool
  | .invalid => true
  | .divided => true
  | .unmapped => true
  | .overflow => true
  | _ => false

def step (act : Act) (s : State) : Option State :=
  match act, s.parent with
  | .mapper procno draw, _ => if procno < o.nprocs then mapper o procno draw s else none
  | .writer, _ => writer o s
  | .refork procno, .waiting =>
    if s.mapper procno = .exited then some { s with mapper := update s.mapper procno .start } else none
  | .notice procno, .waiting =>
    if (s.mapper procno).wrong then some { s with parent := .cleanup false } else none
  | .finish, .waiting => some { s with parent := .cleanup true }
  | .kill_mapper procno, .cleanup _ =>
    if (s.mapper procno).alive then some { s with mapper := update s.mapper procno .killed } else none
  | .kill_writer, .cleanup _ => some { s with writer := .killed }
  | .check, .cleanup no_prob =>
    if s.writer = .killed ∧ !(List.range o.nprocs).any fun procno => (s.mapper procno).alive then
      some { s with parent := if no_prob then .checked (fileokay o s.file) else .failed }
    else none
  | _, _ => none

def patternByte (k : Nat) : Byte := BitVec.ofNat 8 (k % o.nprocs + o.pattern)

end program

structure Sound (o : Options) (s : State) : Prop where
  valid : ∀ procno, s.mapper procno ≠ .invalid
  undivided : ∀ procno, s.mapper procno ≠ .divided
  /-- The bytes written, by their distance from `sparseoffset` -/
  written : ∀ w ∈ s.file.written, w.2 = patternByte o (((w.1 : Int) - o.sparseoffset) % o.pagesize).toNat
  okay : ∀ r, s.parent = .checked r → r = some true

/-- The file is not empty, unless it is mapped from its start; and no append crosses two ends of pages, unless the
pattern goes on from page to page. -/
structure Suits (o : Options) : Prop where
  sized : 0 < o.filesize ∨ (o.sparseoffset = 0 ∧ o.do_offset = false)
  appends : o.pagesize % o.nprocs = 0 ∨ ∀ k, (o.filesize + k * o.growsize) % o.pagesize + o.growsize ≤ 2 * o.pagesize

/-- The size is an `unsigned int` when the file is checked. -/
def Within (o : Options) (act : Act) (s : State) : Prop :=
  act = .check → s.file.size ≤ o.sparseoffset + UINT_MAX

section files
variable {o : Options} {f : File} {n data i p : Nat} {b : Byte} {bytes : List Byte}

theorem cycle_length (o : Options) (n : Nat) : ∀ data, (cycle o n data).length = n := by
  induction n with
  | zero => exact fun _ => rfl
  | succ n ih => exact fun data => by rw [cycle, List.length_cons, ih]

theorem cycle_get (inside : i < n) (small : data < o.nprocs) :
    (cycle o n data)[i]? = some (patternByte o (data + i)) := by
  induction n generalizing data i with
  | zero => exact absurd inside (Nat.not_lt_zero i)
  | succ n ih =>
    rw [cycle]
    cases i with
    | zero => simp [patternByte, Nat.mod_eq_of_lt small]
    | succ i =>
      rw [List.getElem?_cons_succ]
      split
      · rename_i wraps
        rw [ih (Nat.lt_of_succ_lt_succ inside) (Nat.lt_of_le_of_lt (Nat.zero_le _) small)]
        have around : data + (i + 1) = o.nprocs + (0 + i) := by omega
        rw [patternByte, patternByte, around, Nat.add_mod_left]
      · rw [ih (Nat.lt_of_succ_lt_succ inside) (by omega)]
        have next : data + 1 + i = data + (i + 1) := by omega
        rw [next]

theorem buf_length (o : Options) : (buf o).length = o.pagesize + o.growsize := by
  rw [buf, List.length_append, cycle_length, cycle_length]

theorem buf_first (accepted : Accepted o) (inside : i < o.pagesize) : (buf o)[i]? = some (patternByte o i) := by
  rw [buf, List.getElem?_append_left (by rw [cycle_length]; exact inside), cycle_get inside accepted.some_proc,
    Nat.zero_add]

theorem buf_second (accepted : Accepted o) (behind : o.pagesize ≤ i) (inside : i < o.pagesize + o.growsize) :
    (buf o)[i]? = some (patternByte o (i - o.pagesize)) := by
  rw [buf, List.getElem?_append_right (by rw [cycle_length]; exact behind), cycle_length,
    cycle_get (by omega) accepted.some_proc, Nat.zero_add]

structure FileOk (o : Options) (f : File) : Prop where
  written : ∀ w ∈ f.written, w.2 = patternByte o (w.1 % o.pagesize)
  byte : ∀ p, f.byte p = 0 ∨ f.byte p = patternByte o (p % o.pagesize)

theorem store_ok (ok : FileOk o f) (right : b = patternByte o (p % o.pagesize)) : FileOk o (f.store p b) := by
  refine ⟨fun w member => ?_, fun q => ?_⟩
  · rcases List.mem_append.mp member with before | last
    · exact ok.written w before
    · rw [List.mem_singleton.mp last]
      exact right
  · by_cases same : q = p
    · subst same
      simp only [File.store, update_self]
      exact .inr right
    · simp only [File.store, update_of_ne same]
      exact ok.byte q

theorem put_ok (ok : FileOk o f) (right : b = patternByte o (p % o.pagesize)) : FileOk o (f.put p b) := by
  have stored := store_ok ok right
  exact ⟨stored.written, stored.byte⟩

theorem write_ok (ok : FileOk o f)
    (right : ∀ i, (inside : i < bytes.length) → bytes[i] = patternByte o ((p + i) % o.pagesize)) :
    FileOk o (f.write p bytes) := by
  induction bytes generalizing f p with
  | nil => exact ok
  | cons b bytes ih =>
    have first := right 0 (Nat.zero_lt_succ _)
    refine ih (put_ok ok first) fun i inside => ?_
    have next := right (i + 1) (Nat.succ_lt_succ inside)
    rw [List.getElem_cons_succ] at next
    rw [next, Nat.add_assoc, Nat.add_comm 1 i]

theorem write_size (f : File) (p : Nat) (bytes : List Byte) :
    (f.write p bytes).size = if bytes = [] then f.size else max f.size (p + bytes.length) := by
  induction bytes generalizing f p with
  | nil => rfl
  | cons b bytes ih =>
    rw [File.write, ih]
    simp only [File.put, List.cons_ne_nil, if_false, List.length_cons]
    split
    · rename_i empty
      rw [empty, List.length_nil]
    · omega

theorem fill_ok (accepted : Accepted o) (rounds : Nat) : ∀ left p f, left ≤ rounds → p % o.pagesize = 0 →
    FileOk o f → FileOk o (fill o rounds left p f) ∧
      (fill o rounds left p f).size = if left = 0 then f.size else max f.size (p + left) := by
  induction rounds with
  | zero =>
    intro left p f none_left _ ok
    exact ⟨ok, by rw [if_pos (Nat.le_zero.mp none_left)]; rfl⟩
  | succ rounds ih =>
    intro left p f enough at_page ok
    rw [fill]
    split
    · exact ⟨ok, rfl⟩
    · rename_i some_left
      have some_page := accepted.some_page
      have length : ((buf o).take (min o.pagesize left)).length = min o.pagesize left := by
        rw [List.length_take, buf_length]
        omega
      have some_bytes : (buf o).take (min o.pagesize left) ≠ [] := by
        intro empty
        rw [empty, List.length_nil] at length
        omega
      have pieces : FileOk o (f.write p ((buf o).take (min o.pagesize left))) := by
        refine write_ok ok fun i inside => ?_
        rw [length] at inside
        have first := buf_first accepted (i := i) (by omega)
        obtain ⟨_, value⟩ := List.getElem?_eq_some_iff.mp first
        rw [List.getElem_take, value, Nat.add_mod, at_page, Nat.zero_add, Nat.mod_mod, Nat.mod_eq_of_lt (by omega)]
      have size := write_size f p ((buf o).take (min o.pagesize left))
      rw [if_neg some_bytes, length] at size
      dsimp only
      by_cases last : left ≤ o.pagesize
      · rw [Nat.min_eq_right last, Nat.sub_self]
        rw [Nat.min_eq_right last] at pieces size
        have ended : ∀ f, fill o rounds 0 (p + left) f = f := by
          intro f
          cases rounds with
          | zero => rfl
          | succ rounds => rw [fill, if_pos rfl]
        rw [ended]
        exact ⟨pieces, size⟩
      · have page : min o.pagesize left = o.pagesize := Nat.min_eq_left (by omega)
        rw [page] at pieces size ⊢
        obtain ⟨filled, all⟩ := ih (left - o.pagesize) (p + o.pagesize) _ (by omega)
          (by rw [Nat.add_mod_right]; exact at_page) pieces
        refine ⟨filled, ?_⟩
        rw [all, if_neg (by omega), size]
        omega

end files

end Mmapstress10
