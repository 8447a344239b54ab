import Mathlib.Logic.Function.Basic
import Vte.Base.CInt
import Vte.Base.Machine

/-!
kernel/ipc/ipc_stress/shmem_test_07.c: writers that fill one segment of shared memory each, readers that add the
bytes of a segment up once its writer has released it, and `main`, which compares the sums.
-/
namespace ShmemTest
open CInt Function Machine

structure Args where
  num_writers : Int
  num_readers : Int
  buffer_size : Int

def MAX_THREAD_NUMBER : Int := 500
def MAX_WRITER_NUMBER : Int := 100
def MAX_READER_NUMBER : Int := 400

def parse_args (args : Args) : Bool :=
  args.num_writers < MAX_WRITER_NUMBER && args.num_readers < MAX_READER_NUMBER &&
    int32 (args.num_readers * args.num_writers) < MAX_THREAD_NUMBER

/-- A segment for no reader or no byte cannot be had: its size is 0, or far too large as a `size_t`. -/
def noSegments (args : Args) : Bool :=
  0 < args.num_writers && (args.num_readers ≤ 0 || args.buffer_size ≤ 0)

section counts
variable (args : Args)

def writers : Nat := args.num_writers.toNat
def readers : Nat := args.num_readers.toNat
def bytes : Nat := args.buffer_size.toNat

/-- The writer that reader `num_p` belongs to. -/
def num_w (num_p : Nat) : Nat := (num_p - num_p % readers args) / readers args

end counts

/-- Where a writer is, and its `cksum_w`; it holds `cond_mutex` at `release` and `unlock`. -/
inductive WriterPc
  | absent
  | fill (k : Nat) (cksum_w : BitVec 64)
  | lock (cksum_w : BitVec 64)
  | release (cksum_w : BitVec 64)
  | unlock (cksum_w : BitVec 64)
  | publish (cksum_w : BitVec 64)
  | done (cksum_w : BitVec 64)
deriving DecidableEq

/-- Where a reader is, and its `cksum_r`. It holds `cond_mutex` at `check` and `unlock`; one that was woken locks
it again. What it does under `mutex_r` only counts the readers, and nothing reads the count. -/
inductive ReaderPc
  | absent
  | lock
  | check
  | waiting
  | unlock
  | sum (k : Nat) (cksum_r : BitVec 64)
  | store (cksum_r : BitVec 64)
  | done (cksum_r : BitVec 64)
deriving DecidableEq

/-- Where `main` is: at the creation of a thread and at the join of one, `j` being 0 for writer `i` and `k + 1`
for the reader `k` of it, or at the comparison. -/
inductive MainPc
  | setup
  | create (i j : Nat)
  | join (i j : Nat)
  | verify
  | exited (status : Int)
deriving DecidableEq

inductive Owner
  | writer
  | reader (num_p : Nat)
deriving DecidableEq

structure State where
  main : MainPc
  writer : Nat → WriterPc
  reader : Nat → ReaderPc
  thread_hold : Nat → Bool
  cond_mutex : Nat → Option Owner
  /-- the segments that the writers fill -/
  shmptr : Nat → Nat → BitVec 8
  /-- the segments for the sums of the readers, with a place for each of them -/
  checksum : Nat → Nat → BitVec 64
  cksum : Nat → BitVec 64
  /-- the readers that have stored their sum, in that order -/
  stored : List Nat

def initial : State where
  main := .setup
  writer _ := .absent
  reader _ := .absent
  thread_hold _ := false
  cond_mutex _ := none
  shmptr _ _ := 0
  checksum _ _ := 0
  cksum _ := 0
  stored := []

inductive Act
  | main
  | writer (i : Nat)
  | reader (num_p : Nat)
  /-- `pthread_cond_wait` returns without a broadcast -/
  | wake (num_p : Nat)
  /-- a byte of a segment changes by itself -/
  | corrupt (i k : Nat) (v : BitVec 8)
  /-- some call fails, and `sys_error` ends the program -/
  | sys_error
deriving DecidableEq

section step
variable (args : Args)

/-- The thread that comes after in the two loops of `main`. -/
def next (i j : Nat) : Nat × Nat := if j < readers args then (i, j + 1) else (i + 1, 0)

/-- The loops at the end of `main`: each `j` looks at the same place. -/
def verified (s : State) : Bool :=
  (List.range (writers args)).all fun i =>
    (List.range (readers args)).all fun _ => s.cksum i == s.checksum i 0

def ended (s : State) (i j : Nat) : Bool :=
  match j with
  | 0 => match s.writer i with
    | .done _ => true
    | _ => false
  | k + 1 => match s.reader (i * readers args + k) with
    | .done _ => true
    | _ => false

def main (s : State) : Option State :=
  match s.main with
  | .setup =>
    if !parse_args args then some { s with main := .exited 2 }
    else if noSegments args then some { s with main := .exited (-1) }
    else some { s with main := .create 0 0, thread_hold := fun _ => true }
  | .create i j =>
    let after : MainPc := .create (next args i j).1 (next args i j).2
    if i < writers args then
      match j with
      | 0 => some { s with main := after, writer := update s.writer i (.fill 0 0) }
      | k + 1 => some { s with main := after, reader := update s.reader (i * readers args + k) .lock }
    else some { s with main := .join 0 0 }
  | .join i j =>
    if i < writers args then
      if ended args s i j then some { s with main := .join (next args i j).1 (next args i j).2 } else none
    else some { s with main := .verify }
  | .verify => some { s with main := .exited (if verified args s then 0 else -1) }
  | .exited _ => none

/-- `(data++) % (UCHAR_MAX + 1)` with `data` starting at the writer's number -/
def data (i k : Nat) : BitVec 8 := BitVec.ofNat 8 (i + k)

/-- The readers that wait for writer `i` are woken. -/
def broadcast (i : Nat) (reader : Nat → ReaderPc) (num_p : Nat) : ReaderPc :=
  if num_w args num_p = i ∧ reader num_p = .waiting then .lock else reader num_p

def writer (i : Nat) (s : State) : Option State :=
  match s.writer i with
  | .fill k cksum_w =>
    if k < bytes args then some { s with
      shmptr := update s.shmptr i (update (s.shmptr i) k (data i k))
      writer := update s.writer i (.fill (k + 1) (cksum_w + (data i k).setWidth 64)) }
    else some { s with writer := update s.writer i (.lock cksum_w) }
  | .lock cksum_w =>
    if s.cond_mutex i = none then some { s with
      cond_mutex := update s.cond_mutex i (some .writer)
      writer := update s.writer i (.release cksum_w) }
    else none
  | .release cksum_w => some { s with
      thread_hold := update s.thread_hold i false
      reader := broadcast args i s.reader
      writer := update s.writer i (.unlock cksum_w) }
  | .unlock cksum_w => some { s with
      cond_mutex := update s.cond_mutex i none
      writer := update s.writer i (.publish cksum_w) }
  | .publish cksum_w => some { s with
      cksum := update s.cksum i cksum_w
      writer := update s.writer i (.done cksum_w) }
  | .absent => none
  | .done _ => none

def reader (num_p : Nat) (s : State) : Option State :=
  let i := num_w args num_p
  match s.reader num_p with
  | .lock =>
    if s.cond_mutex i = none then some { s with
      cond_mutex := update s.cond_mutex i (some (.reader num_p))
      reader := update s.reader num_p .check }
    else none
  | .check =>
    if s.thread_hold i then some { s with
      cond_mutex := update s.cond_mutex i none
      reader := update s.reader num_p .waiting }
    else some { s with reader := update s.reader num_p .unlock }
  | .unlock => some { s with
      cond_mutex := update s.cond_mutex i none
      reader := update s.reader num_p (.sum 0 0) }
  | .sum k cksum_r =>
    if k < bytes args then some { s with
      reader := update s.reader num_p (.sum (k + 1) (cksum_r + (s.shmptr i k).setWidth 64)) }
    else some { s with reader := update s.reader num_p (.store cksum_r) }
  | .store cksum_r => some { s with
      checksum := update s.checksum i (update (s.checksum i) 0 cksum_r)
      reader := update s.reader num_p (.done cksum_r)
      stored := s.stored ++ [num_p] }
  | .absent => none
  | .waiting => none
  | .done _ => none

def move (act : Act) (s : State) : Option State :=
  match act with
  | .main => main args s
  | .writer i => writer args i s
  | .reader num_p => reader args num_p s
  | .wake num_p =>
    if s.reader num_p = .waiting then some { s with reader := update s.reader num_p .lock } else none
  | .corrupt i k v => some { s with shmptr := update s.shmptr i (update (s.shmptr i) k v) }
  | .sys_error => some { s with main := .exited (-1) }

def step (act : Act) (s : State) : Option State :=
  match s.main with
  | .exited _ => none
  | _ => move args act s

end step

def Filled : WriterPc → Prop
  | .absent => False
  | .fill _ _ => False
  | _ => True

def Released : WriterPc → Prop
  | .unlock _ => True
  | .publish _ => True
  | .done _ => True
  | _ => False

def Past : ReaderPc → Prop
  | .unlock => True
  | .sum _ _ => True
  | .store _ => True
  | .done _ => True
  | _ => False

def WriterPc.Runs (pc : WriterPc) : Prop := pc ≠ .absent ∧ ∀ c, pc ≠ .done c

def ReaderPc.Runs (pc : ReaderPc) : Prop := pc ≠ .absent ∧ ∀ c, pc ≠ .done c

def Ended (args : Args) (s : State) (i j : Nat) : Prop :=
  match j with
  | 0 => ∃ c, s.writer i = .done c
  | k + 1 => ∃ c, s.reader (i * readers args + k) = .done c

/-- The reader of writer `i` that was the last to store its sum. -/
def lastOf (args : Args) (i : Nat) (stored : List Nat) : Option Nat :=
  (stored.filter fun num_p => num_w args num_p = i).getLast?

def Going (s : State) : Prop := s.main ≠ .setup ∧ ∀ status, s.main ≠ .exited status

structure Inv (args : Args) (s : State) : Prop where
  idle : s.main = .setup → (∀ i, s.writer i = .absent) ∧ ∀ p, s.reader p = .absent
  /-- Threads that `main` has still to create do not exist. -/
  creating : ∀ i j, s.main = .create i j → (∀ p, i * readers args + (j - 1) ≤ p → s.reader p = .absent) ∧
    (∀ i', i < i' ∨ (i = i' ∧ j = 0) → s.writer i' = .absent) ∧ j ≤ readers args
  /-- Threads that it has joined have ended. -/
  joining : ∀ i j, s.main = .join i j → j ≤ readers args ∧
    ∀ i' < writers args, ∀ j' ≤ readers args, i' < i ∨ (i' = i ∧ j' < j) → Ended args s i' j'
  joined : s.main = .verify → ∀ i < writers args, ∀ j ≤ readers args, Ended args s i j
  hold : Going s → ∀ i, s.thread_hold i = false → Released (s.writer i)
  past : ∀ p, Past (s.reader p) → Released (s.writer (num_w args p))
  sums : ∀ i c, s.writer i = .done c → s.cksum i = c
  slot : ∀ i p, lastOf args i s.stored = some p → s.reader p = .done (s.checksum i 0)
  stores : ∀ p, p ∈ s.stored ↔ ∃ c, s.reader p = .done c

section keeps
variable {args : Args} {s t : State}

theorem released_filled {pc : WriterPc} (released : Released pc) : Filled pc := by
  cases pc <;> trivial

/-- A step of threads that run: what has ended stays, and what has not been created as well. -/
structure Moves (args : Args) (s t : State) : Prop where
  main : t.main = s.main
  stored : t.stored = s.stored
  checksum : t.checksum = s.checksum
  readers : ∀ p, t.reader p = s.reader p ∨ ((s.reader p).Runs ∧ (t.reader p).Runs ∧
    (Past (t.reader p) → Released (t.writer (num_w args p))))
  writers : ∀ i, t.writer i = s.writer i ∨ ((s.writer i).Runs ∧ t.writer i ≠ .absent ∧
    (Released (s.writer i) → Released (t.writer i)))
  sums : ∀ i c, t.writer i = .done c → t.cksum i = c
  hold : ∀ i, t.thread_hold i = false → s.thread_hold i = false ∨ Released (t.writer i)

section moves
variable (moves : Moves args s t)
include moves

theorem moves_absent {p : Nat} (absent : s.reader p = .absent) : t.reader p = .absent := by
  rcases moves.readers p with same | ⟨runs, _, _⟩
  · rw [same, absent]
  · exact absurd absent runs.1

theorem moves_writer_absent {i : Nat} (absent : s.writer i = .absent) : t.writer i = .absent := by
  rcases moves.writers i with same | ⟨runs, _, _⟩
  · rw [same, absent]
  · exact absurd absent runs.1

theorem moves_done {p : Nat} {c : BitVec 64} : t.reader p = .done c ↔ s.reader p = .done c := by
  rcases moves.readers p with same | ⟨runs, runs', _⟩
  · rw [same]
  · exact ⟨fun done => absurd done (runs'.2 c), fun done => absurd done (runs.2 c)⟩

theorem moves_writer_done {i : Nat} {c : BitVec 64} (done : s.writer i = .done c) :
    t.writer i = .done c := by
  rcases moves.writers i with same | ⟨runs, _, _⟩
  · rw [same, done]
  · exact absurd done (runs.2 c)

theorem moves_released {i : Nat} (released : Released (s.writer i)) : Released (t.writer i) := by
  rcases moves.writers i with same | ⟨_, _, stays⟩
  · rwa [same]
  · exact stays released

theorem moves_ended {i j : Nat} (ended : Ended args s i j) : Ended args t i j := by
  cases j with
  | zero =>
    obtain ⟨c, done⟩ := ended
    exact ⟨c, moves_writer_done moves done⟩
  | succ k =>
    obtain ⟨c, done⟩ := ended
    exact ⟨c, (moves_done moves).mpr done⟩

theorem inv_moves (inv : Inv args s) : Inv args t := by
  have main := moves.main
  refine ⟨?_, ?_, ?_, ?_, ?_, ?_, moves.sums, ?_, ?_⟩
  · intro setup
    obtain ⟨idle, idle'⟩ := inv.idle (main ▸ setup)
    exact ⟨fun i => moves_writer_absent moves (idle i), fun p => moves_absent moves (idle' p)⟩
  · intro i j create
    obtain ⟨absent, absent', low⟩ := inv.creating i j (main ▸ create)
    exact ⟨fun p later => moves_absent moves (absent p later),
      fun i' later => moves_writer_absent moves (absent' i' later), low⟩
  · intro i j join
    obtain ⟨low, before⟩ := inv.joining i j (main ▸ join)
    exact ⟨low, fun i' inside j' inside' order => moves_ended moves (before i' inside j' inside' order)⟩
  · intro verify i inside j inside'
    exact moves_ended moves (inv.joined (main ▸ verify) i inside j inside')
  · intro going i free
    rw [Going, main] at going
    rcases moves.hold i free with already | released
    · exact moves_released moves (inv.hold going i already)
    · exact released
  · intro p past
    rcases moves.readers p with same | ⟨_, _, released⟩
    · rw [same] at past
      exact moves_released moves (inv.past p past)
    · exact released past
  · intro i p last
    rw [moves.stored] at last
    rw [moves.checksum]
    exact (moves_done moves).mpr (inv.slot i p last)
  · intro p
    rw [moves.stored, inv.stores]
    exact exists_congr fun c => (moves_done moves).symm

end moves

theorem moves_writer (inv : Inv args s) {i : Nat} {pc : WriterPc} (runs : (s.writer i).Runs)
    (runs' : pc.Runs) (stays : Released (s.writer i) → Released pc)
    (shmptr : Nat → Nat → BitVec 8) (cond_mutex : Nat → Option Owner) :
    Moves args s { s with shmptr, cond_mutex, writer := update s.writer i pc } := by
  refine ⟨rfl, rfl, rfl, fun p => .inl rfl, fun i' => ?_, fun i' c done => ?_, fun i' free => .inl free⟩
  · by_cases same : i' = i
    · subst same
      exact .inr ⟨runs, by simpa using runs'.1, fun released => by simpa using stays released⟩
    · exact .inl (by simp [same])
  · by_cases same : i' = i
    · subst same
      exact absurd (by simpa using done) (runs'.2 c)
    · exact inv.sums i' c (by simpa [same] using done)

theorem moves_reader (inv : Inv args s) {p : Nat} {pc : ReaderPc} (runs : (s.reader p).Runs)
    (runs' : pc.Runs) (past : Past pc → Released (s.writer (num_w args p)))
    (cond_mutex : Nat → Option Owner) :
    Moves args s { s with cond_mutex, reader := update s.reader p pc } := by
  refine ⟨rfl, rfl, rfl, fun p' => ?_, fun i => .inl rfl, inv.sums, fun i free => .inl free⟩
  by_cases same : p' = p
  · subst same
    exact .inr ⟨runs, by simpa using runs', fun after => past (by simpa using after)⟩
  · exact .inl (by simp [same])

theorem moves_release (inv : Inv args s) {i : Nat} {c : BitVec 64} (here : s.writer i = .release c) :
    Moves args s { s with
      thread_hold := update s.thread_hold i false
      reader := broadcast args i s.reader
      writer := update s.writer i (.unlock c) } := by
  have runs : (s.writer i).Runs := by simp [here, WriterPc.Runs]
  refine ⟨rfl, rfl, rfl, fun p => ?_, fun i' => ?_, fun i' c' done => ?_, fun i' free => ?_⟩
  · by_cases woken : num_w args p = i ∧ s.reader p = .waiting
    · refine .inr ⟨by simp [woken.2, ReaderPc.Runs], ?_, ?_⟩
      · simp only [broadcast, woken, and_self, if_true]
        simp [ReaderPc.Runs]
      · simp only [broadcast, woken, and_self, if_true]
        exact False.elim
    · exact .inl (by simp only [broadcast, if_neg woken])
  · by_cases same : i' = i
    · subst same
      exact .inr ⟨runs, by simp, fun _ => by simp [Released]⟩
    · exact .inl (by simp [same])
  · by_cases same : i' = i
    · subst same
      simp at done
    · exact inv.sums i' c' (by simpa [same] using done)
  · by_cases same : i' = i
    · subst same
      exact .inr (by simp [Released])
    · exact .inl (by simpa [same] using free)

theorem moves_publish (inv : Inv args s) {i : Nat} {c : BitVec 64} (here : s.writer i = .publish c) :
    Moves args s { s with
      cksum := update s.cksum i c, writer := update s.writer i (.done c) } := by
  refine ⟨rfl, rfl, rfl, fun p => .inl rfl, fun i' => ?_, fun i' c' done => ?_, fun i' free => .inl free⟩
  · by_cases same : i' = i
    · subst same
      exact .inr ⟨by simp [here, WriterPc.Runs], by simp, fun _ => by simp [Released]⟩
    · exact .inl (by simp [same])
  · by_cases same : i' = i
    · subst same
      simpa using done
    · simp only [update_of_ne same] at done ⊢
      exact inv.sums i' c' done

theorem inv_writer (inv : Inv args s) {i : Nat} (stepped : writer args i s = some t) : Inv args t := by
  cases here : s.writer i with
  | absent => simp [writer, here] at stepped
  | done c => simp [writer, here] at stepped
  | fill k c =>
    have runs : (s.writer i).Runs := by simp [here, WriterPc.Runs]
    have unreleased : ∀ pc, Released (s.writer i) → Released pc := by simp [here, Released]
    simp only [writer, here] at stepped
    split at stepped
    · obtain rfl := Option.some.inj stepped
      exact inv_moves (moves_writer inv runs (by simp [WriterPc.Runs]) (unreleased _) _ _) inv
    · obtain rfl := Option.some.inj stepped
      exact inv_moves (moves_writer inv runs (by simp [WriterPc.Runs]) (unreleased _) _ _) inv
  | lock c =>
    have runs : (s.writer i).Runs := by simp [here, WriterPc.Runs]
    simp only [writer, here] at stepped
    split at stepped
    · obtain rfl := Option.some.inj stepped
      exact inv_moves (moves_writer inv runs (by simp [WriterPc.Runs]) (by simp [here, Released]) _ _) inv
    · cases stepped
  | release c =>
    simp only [writer, here] at stepped
    obtain rfl := Option.some.inj stepped
    exact inv_moves (moves_release inv here) inv
  | unlock c =>
    have runs : (s.writer i).Runs := by simp [here, WriterPc.Runs]
    simp only [writer, here] at stepped
    obtain rfl := Option.some.inj stepped
    exact inv_moves (moves_writer inv runs (by simp [WriterPc.Runs]) (by simp [Released]) _ _) inv
  | publish c =>
    simp only [writer, here] at stepped
    obtain rfl := Option.some.inj stepped
    exact inv_moves (moves_publish inv here) inv

theorem last_snoc (args : Args) (i p : Nat) (stored : List Nat) :
    lastOf args i (stored ++ [p]) = if num_w args p = i then some p else lastOf args i stored := by
  rw [lastOf, List.filter_append]
  split
  · rename_i mine
    simp [mine]
  · rename_i other
    simp [other, lastOf]

theorem inv_store (inv : Inv args s) {p : Nat} {c : BitVec 64} (here : s.reader p = .store c) :
    Inv args { s with
      checksum := update s.checksum (num_w args p) (update (s.checksum (num_w args p)) 0 c)
      reader := update s.reader p (.done c)
      stored := s.stored ++ [p] } := by
  have exists_p : s.reader p ≠ .absent := by simp [here]
  have kept : ∀ q, s.reader q = .absent → update s.reader p (.done c) q = .absent := by
    intro q absent
    have other : q ≠ p := fun same => exists_p (same ▸ absent)
    rw [update_of_ne other, absent]
  have ended : ∀ q, (∃ c, s.reader q = .done c) → ∃ c', update s.reader p (.done c) q = .done c' := by
    rintro q ⟨c', done⟩
    have other : q ≠ p := by
      rintro rfl
      rw [here] at done
      cases done
    exact ⟨c', by rw [update_of_ne other, done]⟩
  have all_ended : ∀ i j, Ended args s i j → Ended args { s with
      checksum := update s.checksum (num_w args p) (update (s.checksum (num_w args p)) 0 c)
      reader := update s.reader p (.done c)
      stored := s.stored ++ [p] } i j := by
    intro i j before
    cases j with
    | zero => exact before
    | succ k => exact ended _ before
  refine ⟨?_, ?_, ?_, ?_, inv.hold, ?_, inv.sums, ?_, ?_⟩
  · intro setup
    exact absurd ((inv.idle setup).2 p) exists_p
  · intro i j create
    obtain ⟨absent, absent', low⟩ := inv.creating i j create
    exact ⟨fun q later => kept q (absent q later), absent', low⟩
  · intro i j join
    obtain ⟨low, before⟩ := inv.joining i j join
    exact ⟨low, fun i' inside j' inside' order => all_ended i' j' (before i' inside j' inside' order)⟩
  · intro verify i inside j inside'
    exact all_ended i j (inv.joined verify i inside j inside')
  · intro q past
    by_cases same : q = p
    · subst same
      exact inv.past q (by simp [here, Past])
    · exact inv.past q (by simpa [same] using past)
  · intro i q last
    rw [last_snoc] at last
    split at last
    · rename_i mine
      subst mine
      obtain rfl := Option.some.inj last
      simp
    · rename_i other_writer
      have before := inv.slot i q last
      have other : q ≠ p := by
        rintro rfl
        rw [here] at before
        cases before
      simp only [update_of_ne other, update_of_ne (Ne.symm other_writer), before]
  · intro q
    by_cases same : q = p
    · subst same
      simp
    · simp only [List.mem_append, List.mem_singleton, same, or_false, update_of_ne same]
      exact inv.stores q

theorem inv_reader (inv : Inv args s) (alive : ∀ status, s.main ≠ .exited status) {p : Nat}
    (stepped : reader args p s = some t) : Inv args t := by
  cases here : s.reader p with
  | absent => simp [reader, here] at stepped
  | waiting => simp [reader, here] at stepped
  | done c => simp [reader, here] at stepped
  | lock =>
    have runs : (s.reader p).Runs := by simp [here, ReaderPc.Runs]
    simp only [reader, here] at stepped
    split at stepped
    · obtain rfl := Option.some.inj stepped
      exact inv_moves (moves_reader inv runs (by simp [ReaderPc.Runs]) (by simp [Past]) _) inv
    · cases stepped
  | check =>
    have runs : (s.reader p).Runs := by simp [here, ReaderPc.Runs]
    simp only [reader, here] at stepped
    split at stepped
    · obtain rfl := Option.some.inj stepped
      exact inv_moves (moves_reader inv runs (by simp [ReaderPc.Runs]) (by simp [Past]) _) inv
    · rename_i free
      obtain rfl := Option.some.inj stepped
      have started : s.main ≠ .setup := fun setup => runs.1 ((inv.idle setup).2 p)
      have released := inv.hold ⟨started, alive⟩ _ (by simpa using free)
      exact inv_moves (moves_reader inv runs (by simp [ReaderPc.Runs]) (fun _ => released) _) inv
  | unlock =>
    have runs : (s.reader p).Runs := by simp [here, ReaderPc.Runs]
    have released := inv.past p (by simp [here, Past])
    simp only [reader, here] at stepped
    obtain rfl := Option.some.inj stepped
    exact inv_moves (moves_reader inv runs (by simp [ReaderPc.Runs]) (fun _ => released) _) inv
  | sum k c =>
    have runs : (s.reader p).Runs := by simp [here, ReaderPc.Runs]
    have released := inv.past p (by simp [here, Past])
    simp only [reader, here] at stepped
    split at stepped
    · obtain rfl := Option.some.inj stepped
      exact inv_moves (moves_reader inv runs (by simp [ReaderPc.Runs]) (fun _ => released) _) inv
    · obtain rfl := Option.some.inj stepped
      exact inv_moves (moves_reader inv runs (by simp [ReaderPc.Runs]) (fun _ => released) _) inv
  | store c =>
    simp only [reader, here] at stepped
    obtain rfl := Option.some.inj stepped
    exact inv_store inv here

theorem inv_main_to (inv : Inv args s) {pc : MainPc} (going : Going s) (later : pc ≠ .setup)
    (creating : ∀ i j, pc = .create i j → Inv args { s with main := .create i j })
    (joining : ∀ i j, pc = .join i j → j ≤ readers args ∧
      ∀ i' < writers args, ∀ j' ≤ readers args, i' < i ∨ (i' = i ∧ j' < j) → Ended args s i' j')
    (joined : pc = .verify → ∀ i < writers args, ∀ j ≤ readers args, Ended args s i j) :
    Inv args { s with main := pc } :=
  ⟨fun setup => absurd setup later, fun i j create => (creating i j create).creating i j rfl,
    joining, joined, fun _ => inv.hold going, inv.past, inv.sums, inv.slot, inv.stores⟩

theorem ended_iff {i j : Nat} : ended args s i j = true ↔ Ended args s i j := by
  cases j with
  | zero =>
    rw [ended, Ended]
    cases here : s.writer i <;> simp
  | succ k =>
    rw [ended, Ended]
    cases here : s.reader (i * readers args + k) <;> simp

theorem inv_create_writer (inv : Inv args s) {i : Nat} (place : s.main = .create i 0) :
    Inv args { s with
      main := .create (next args i 0).1 (next args i 0).2
      writer := update s.writer i (.fill 0 0) } := by
  obtain ⟨absent, absent', _⟩ := inv.creating i 0 place
  have going : Going s := by simp [Going, place]
  have fresh := absent' i (.inr ⟨rfl, rfl⟩)
  have stays : ∀ i', Released (s.writer i') → Released (update s.writer i (.fill 0 0) i') := by
    intro i' released
    have other : i' ≠ i := by
      rintro rfl
      rw [fresh] at released
      exact released
    rwa [update_of_ne other]
  refine ⟨by simp, ?_, by simp, by simp, ?_, ?_, ?_, inv.slot, inv.stores⟩
  · intro i' j' create
    simp only [next] at create
    split at create
    · obtain ⟨rfl, rfl⟩ : i = i' ∧ 0 + 1 = j' := by simpa using create
      refine ⟨absent, fun i'' later => ?_, by omega⟩
      have other : i'' ≠ i := by omega
      simp only [update_of_ne other]
      exact absent' i'' (by omega)
    · rename_i no_reader
      obtain ⟨rfl, rfl⟩ : i + 1 = i' ∧ 0 = j' := by simpa using create
      have none_left : readers args = 0 := by omega
      refine ⟨fun p later => absent p (by rw [none_left]; omega), fun i'' later => ?_, by omega⟩
      have other : i'' ≠ i := by omega
      simp only [update_of_ne other]
      exact absent' i'' (by omega)
  · intro _ i' free
    exact stays i' (inv.hold going i' free)
  · intro p past
    exact stays _ (inv.past p past)
  · intro i' c done
    by_cases same : i' = i
    · subst same
      simp at done
    · exact inv.sums i' c (by simpa [same] using done)

theorem inv_create_reader (inv : Inv args s) {i k : Nat} (place : s.main = .create i (k + 1)) :
    Inv args { s with
      main := .create (next args i (k + 1)).1 (next args i (k + 1)).2
      reader := update s.reader (i * readers args + k) .lock } := by
  obtain ⟨absent, absent', low⟩ := inv.creating i (k + 1) place
  have going : Going s := by simp [Going, place]
  have fresh := absent (i * readers args + k) (by omega)
  have done_iff : ∀ p c, update s.reader (i * readers args + k) .lock p = .done c ↔ s.reader p = .done c := by
    intro p c
    by_cases same : p = i * readers args + k
    · subst same
      simp [fresh]
    · rw [update_of_ne same]
  refine ⟨by simp, ?_, by simp, by simp, fun _ => inv.hold going, ?_, inv.sums, ?_, ?_⟩
  · intro i' j' create
    simp only [next] at create
    split at create
    · obtain ⟨rfl, rfl⟩ : i = i' ∧ k + 1 + 1 = j' := by simpa using create
      refine ⟨fun p later => ?_, fun i'' later => absent' i'' (by omega), by omega⟩
      have other : p ≠ i * readers args + k := by omega
      simp only [update_of_ne other]
      exact absent p (by omega)
    · obtain ⟨rfl, rfl⟩ : i + 1 = i' ∧ 0 = j' := by simpa using create
      have all : readers args = k + 1 := by omega
      have next_row : (i + 1) * readers args = i * readers args + (k + 1) := by
        rw [Nat.succ_mul]
        omega
      refine ⟨fun p later => ?_, fun i'' later => absent' i'' (by omega), by omega⟩
      have other : p ≠ i * readers args + k := by omega
      simp only [update_of_ne other]
      exact absent p (by omega)
  · intro p past
    by_cases same : p = i * readers args + k
    · subst same
      simp [Past] at past
    · exact inv.past p (by simpa [same] using past)
  · intro i' p last
    exact (done_iff p _).mpr (inv.slot i' p last)
  · intro p
    rw [inv.stores]
    exact exists_congr fun c => (done_iff p c).symm

theorem inv_join (inv : Inv args s) {i j : Nat} (place : s.main = .join i j)
    (here : ended args s i j = true) :
    Inv args { s with main := .join (next args i j).1 (next args i j).2 } := by
  obtain ⟨low, before⟩ := inv.joining i j place
  refine inv_main_to inv (by simp [Going, place]) (by simp) (by simp) (fun i' j' join => ?_) (by simp)
  have last := ended_iff.mp here
  simp only [next] at join
  split at join
  · obtain ⟨rfl, rfl⟩ : i = i' ∧ j + 1 = j' := by simpa using join
    refine ⟨by omega, fun i'' inside j'' inside' order => ?_⟩
    by_cases same : i'' = i ∧ j'' = j
    · obtain ⟨rfl, rfl⟩ := same
      exact last
    · exact before i'' inside j'' inside' (by omega)
  · obtain ⟨rfl, rfl⟩ : i + 1 = i' ∧ 0 = j' := by simpa using join
    refine ⟨by omega, fun i'' inside j'' inside' order => ?_⟩
    by_cases same : i'' = i ∧ j'' = j
    · obtain ⟨rfl, rfl⟩ := same
      exact last
    · exact before i'' inside j'' inside' (by omega)

theorem inv_exit (inv : Inv args s) (status : Int) : Inv args { s with main := .exited status } :=
  ⟨by simp, by simp, by simp, by simp, fun going => absurd rfl (going.2 status), inv.past, inv.sums,
    inv.slot, inv.stores⟩

theorem inv_setup (inv : Inv args s) (place : s.main = .setup) :
    Inv args { s with main := .create 0 0, thread_hold := fun _ => true } := by
  obtain ⟨idle, idle'⟩ := inv.idle place
  refine ⟨by simp, fun i j create => ?_, by simp, by simp, by simp, inv.past, inv.sums, inv.slot, inv.stores⟩
  obtain ⟨rfl, rfl⟩ : 0 = i ∧ 0 = j := by simpa using create
  exact ⟨fun p _ => idle' p, fun i' _ => idle i', Nat.zero_le _⟩

theorem inv_main (inv : Inv args s) (stepped : main args s = some t) : Inv args t := by
  cases place : s.main with
  | exited status => simp [main, place] at stepped
  | setup =>
    simp only [main, place] at stepped
    split at stepped
    · obtain rfl := Option.some.inj stepped
      exact inv_exit inv 2
    · split at stepped
      · obtain rfl := Option.some.inj stepped
        exact inv_exit inv (-1)
      · obtain rfl := Option.some.inj stepped
        exact inv_setup inv place
  | create i j =>
    simp only [main, place] at stepped
    split at stepped
    · cases j with
      | zero =>
        obtain rfl := Option.some.inj stepped
        exact inv_create_writer inv place
      | succ k =>
        obtain rfl := Option.some.inj stepped
        exact inv_create_reader inv place
    · obtain rfl := Option.some.inj stepped
      refine inv_main_to inv (by simp [Going, place]) (by simp) (by simp) (fun i' j' join => ?_) (by simp)
      obtain ⟨rfl, rfl⟩ : 0 = i' ∧ 0 = j' := by simpa using join
      exact ⟨Nat.zero_le _, fun i'' _ j'' _ order => absurd order (by omega)⟩
  | join i j =>
    simp only [main, place] at stepped
    split at stepped
    · split at stepped
      · rename_i here
        obtain rfl := Option.some.inj stepped
        exact inv_join inv place here
      · cases stepped
    · rename_i past
      obtain rfl := Option.some.inj stepped
      refine inv_main_to inv (by simp [Going, place]) (by simp) (by simp) (by simp) fun _ i' inside j' inside' => ?_
      exact (inv.joining i j place).2 i' inside j' inside' (.inl (by omega))
  | verify =>
    simp only [main, place] at stepped
    obtain rfl := Option.some.inj stepped
    exact inv_exit inv _

theorem step_cases {act : Act} (stepped : step args act s = some t) :
    (∀ status, s.main ≠ .exited status) ∧ move args act s = some t := by
  cases place : s.main with
  | exited status => simp [step, place] at stepped
  | setup => exact ⟨by simp, by simpa only [step, place] using stepped⟩
  | create _ _ => exact ⟨by simp, by simpa only [step, place] using stepped⟩
  | join _ _ => exact ⟨by simp, by simpa only [step, place] using stepped⟩
  | verify => exact ⟨by simp, by simpa only [step, place] using stepped⟩

theorem inv_step (act : Act) (s t : State) (inv : Inv args s) (stepped : step args act s = some t) :
    Inv args t := by
  obtain ⟨alive, moved⟩ := step_cases stepped
  cases act with
  | main => exact inv_main inv moved
  | writer i => exact inv_writer inv moved
  | reader num_p => exact inv_reader inv alive moved
  | sys_error =>
    obtain rfl := Option.some.inj moved
    exact inv_exit inv (-1)
  | wake num_p =>
    simp only [move] at moved
    split at moved
    · rename_i here
      obtain rfl := Option.some.inj moved
      have runs : (s.reader num_p).Runs := by simp [here, ReaderPc.Runs]
      exact inv_moves (moves_reader inv runs (by simp [ReaderPc.Runs]) (by simp [Past]) s.cond_mutex) inv
    · cases moved
  | corrupt i k v =>
    obtain rfl := Option.some.inj moved
    exact inv_moves (s := s) ⟨rfl, rfl, rfl, fun p => .inl rfl, fun i => .inl rfl, inv.sums,
      fun i free => .inl free⟩ inv

theorem inv_initial : Inv args initial :=
  ⟨fun _ => ⟨fun _ => rfl, fun _ => rfl⟩, by simp [initial], by simp [initial], by simp [initial],
    by simp [initial, Going], by simp [initial, Past], by simp [initial], by simp [initial, lastOf],
    by simp [initial]⟩

end keeps

def Differs (args : Args) (s : State) (p : Nat) : Prop :=
  ∃ c w, s.reader p = .done c ∧ s.writer (num_w args p) = .done w ∧ c ≠ w

def AllSame (args : Args) (s : State) : Prop :=
  ∀ p < writers args * readers args, ¬ Differs args s p

/-- If a reader's sum differs, one of the readers that were the last of their writer's to store theirs has a sum
that differs. -/
def LastTells (args : Args) (s : State) : Prop :=
  ¬ AllSame args s → ∃ p < writers args * readers args, lastOf args (num_w args p) s.stored = some p ∧ Differs args s p

section results
variable {args : Args} {s t : State}

theorem num_w_div (args : Args) (p : Nat) : num_w args p = p / readers args := by
  have parts := Nat.mod_add_div p (readers args)
  rcases Nat.eq_zero_or_pos (readers args) with none_there | some_reader
  · rw [num_w, none_there, Nat.div_zero, Nat.div_zero]
  · rw [num_w, show p - p % readers args = readers args * (p / readers args) by omega,
      Nat.mul_div_cancel_left _ some_reader]

theorem num_w_lt {p : Nat} (inside : p < writers args * readers args) : num_w args p < writers args := by
  rw [num_w_div]
  exact Nat.div_lt_of_lt_mul (Nat.mul_comm _ _ ▸ inside)

theorem lt_of_num_w {p : Nat} (some_reader : 0 < readers args) (inside : num_w args p < writers args) :
    p < writers args * readers args := by
  rw [num_w_div, Nat.div_lt_iff_lt_mul some_reader] at inside
  exact inside

theorem last_of_spec {i p : Nat} (last : lastOf args i s.stored = some p) :
    p ∈ s.stored ∧ num_w args p = i := by
  have member := List.mem_of_getLast? last
  rw [List.mem_filter, decide_eq_true_iff] at member
  exact member

theorem last_of_ended (inv : Inv args s) (place : s.main = .verify) {i : Nat} (inside : i < writers args)
    (some_reader : 0 < readers args) : ∃ p, lastOf args i s.stored = some p := by
  obtain ⟨c, done⟩ := inv.joined place i inside (0 + 1) some_reader
  have mine : num_w args (i * readers args + 0) = i := by
    rw [num_w_div, Nat.add_zero, Nat.mul_div_cancel _ some_reader]
  have member : i * readers args + 0 ∈ s.stored.filter fun num_p => num_w args num_p = i :=
    List.mem_filter.mpr ⟨(inv.stores _).mpr ⟨c, done⟩, decide_eq_true mine⟩
  exact ⟨_, List.getLast?_eq_some_getLast (List.ne_nil_of_mem member)⟩

theorem last_differs (inv : Inv args s) (place : s.main = .verify) {p : Nat}
    (inside : num_w args p < writers args) (last : lastOf args (num_w args p) s.stored = some p) :
    Differs args s p ↔ s.cksum (num_w args p) ≠ s.checksum (num_w args p) 0 := by
  obtain ⟨w, done⟩ := inv.joined place _ inside 0 (Nat.zero_le _)
  have sum := inv.slot _ p last
  rw [Differs, sum, done, inv.sums _ w done]
  constructor
  · rintro ⟨c, w', mine, his, other⟩
    rw [ReaderPc.done.inj mine, WriterPc.done.inj his]
    exact other.symm
  · intro other
    exact ⟨_, _, rfl, rfl, other.symm⟩

theorem verified_iff (inv : Inv args s) (place : s.main = .verify) : verified args s = true ↔
    ∀ p < writers args * readers args, lastOf args (num_w args p) s.stored = some p → ¬ Differs args s p := by
  simp only [verified, List.all_eq_true, List.mem_range, beq_iff_eq]
  constructor
  · intro same p inside last differs
    have some_reader : 0 < readers args := Nat.pos_of_mul_pos_left (Nat.zero_lt_of_lt inside)
    exact (last_differs inv place (num_w_lt inside) last).mp differs
      (same _ (num_w_lt inside) 0 some_reader)
  · intro same i inside j inside'
    have some_reader := Nat.zero_lt_of_lt inside'
    obtain ⟨p, last⟩ := last_of_ended inv place inside some_reader
    obtain ⟨_, rfl⟩ := last_of_spec last
    by_contra other
    exact same p (lt_of_num_w some_reader inside) last
      ((last_differs inv place inside last).mpr other)

/-- A reader adds up only what its writer has filled; and `main` succeeds only with equal sums if and only if the
readers that are the last to store tell of a sum that differs. -/
theorem shmem_test_07_sums {acts : List Act} (ran : run (step args) acts initial = some t) :
    (∀ p k c, t.reader p = .sum k c → Filled (t.writer (num_w args p))) ∧
    (t.main = .verify → ∀ t', step args .main t = some t' →
      ((t'.main = .exited 0 → AllSame args t') ↔ LastTells args t)) := by
  have inv : Inv args t := run_invariant inv_step inv_initial ran
  refine ⟨fun p k c sum => released_filled (inv.past p (by simp [sum, Past])), fun place t' stepped => ?_⟩
  simp only [step, place, move, main] at stepped
  obtain rfl := Option.some.inj stepped
  have decides := verified_iff inv place
  constructor
  · intro claim some_other
    by_contra unseen
    apply some_other
    refine claim ?_
    have equal : verified args t = true := decides.mpr fun p inside last differs =>
      unseen ⟨p, inside, last, differs⟩
    rw [if_pos equal]
  · intro tells success
    by_contra some_other
    obtain ⟨p, inside, last, differs⟩ := tells some_other
    have unequal : ¬ verified args t = true := fun equal => decides.mp equal p inside last differs
    rw [if_neg unequal] at success
    cases success

theorem one_reader_tells (inv : Inv args s) (place : s.main = .verify) (single : readers args = 1) :
    LastTells args s := by
  intro some_other
  simp only [AllSame, not_forall, not_not] at some_other
  obtain ⟨p, inside, differs⟩ := some_other
  have some_reader : 0 < readers args := by omega
  obtain ⟨q, last⟩ := last_of_ended inv place (num_w_lt inside) some_reader
  have mine := (last_of_spec last).2
  rw [num_w_div, num_w_div, single, Nat.div_one, Nat.div_one] at mine
  exact ⟨p, inside, by rwa [mine] at last, differs⟩

/-- With one reader for each writer `main` succeeds in exactly the runs in which all sums are equal. -/
theorem one_reader_verdict {acts : List Act} (single : readers args = 1) (ran : run (step args) acts initial = some t)
    (place : t.main = .verify) {t' : State} (stepped : step args .main t = some t') :
    t'.main = .exited 0 ↔ AllSame args t := by
  have inv : Inv args t := run_invariant inv_step inv_initial ran
  simp only [step, place, move, main] at stepped
  obtain rfl := Option.some.inj stepped
  have decides := verified_iff inv place
  constructor
  · intro success
    by_contra some_other
    obtain ⟨p, inside, last, differs⟩ := one_reader_tells inv place single some_other
    have unequal : ¬ verified args t = true := fun equal => decides.mp equal p inside last differs
    rw [if_neg unequal] at success
    cases success
  · intro same
    have equal : verified args t = true := decides.mpr fun p inside _ => same p inside
    rw [if_pos equal]

end results

section runs

def twoReaders : Args := ⟨1, 2, 1⟩

def created : List Act := List.replicate 4 .main ++ List.replicate 6 (.writer 0)

def oneReader : Args := ⟨1, 1, 1⟩

theorem one_reader_succeeds : ∃ t t', run (step oneReader)
    (created ++ List.replicate 6 (.reader 0) ++ List.replicate 3 .main) initial = some t ∧
    step oneReader .main t = some t' ∧ (t'.main = .exited 0 ↔ AllSame oneReader t) := by
  have ends : ((run (step oneReader) (created ++ List.replicate 6 (.reader 0) ++ List.replicate 3 .main) initial).bind
      fun t => (step oneReader .main t).map fun _ => t.main) = some .verify := by decide +kernel
  obtain ⟨t, ran, stepped⟩ := Option.bind_eq_some_iff.mp ends
  obtain ⟨t', taken, place⟩ := Option.map_eq_some_iff.mp stepped
  exact ⟨t, t', ran, taken, one_reader_verdict rfl ran place taken⟩

def hidden : List Act :=
  created ++ [.corrupt 0 0 7] ++ List.replicate 6 (.reader 0) ++ [.corrupt 0 0 0] ++
    List.replicate 6 (.reader 1) ++ List.replicate 5 .main

theorem shmem_test_07_sums_two : ∃ t, run (step twoReaders) hidden initial = some t ∧
    t.main = .verify ∧ (∀ p k c, t.reader p = .sum k c → Filled (t.writer (num_w twoReaders p))) ∧
    (t.main = .verify → ∀ t', step twoReaders .main t = some t' →
      ((t'.main = .exited 0 → AllSame twoReaders t') ↔ LastTells twoReaders t)) := by
  have ends : (run (step twoReaders) hidden initial).map State.main = some .verify := by decide +kernel
  obtain ⟨t, ran, place⟩ := Option.map_eq_some_iff.mp ends
  exact ⟨t, ran, place, shmem_test_07_sums ran⟩

/-- The program succeeds although the first reader has another sum than the writer. -/
theorem hidden_difference : ∃ t, run (step twoReaders) (hidden ++ [.main]) initial = some t ∧
    t.main = .exited 0 ∧ ¬ AllSame twoReaders t := by
  have ends : (run (step twoReaders) (hidden ++ [.main]) initial).map
      (fun t => (t.main, t.reader 0, t.writer 0)) = some (.exited 0, .done 7, .done 0) := by
    decide +kernel
  obtain ⟨t, ran, state⟩ := Option.map_eq_some_iff.mp ends
  simp only [Prod.mk.injEq] at state
  obtain ⟨place, first, writer⟩ := state
  exact ⟨t, ran, place, fun same => same 0 (by decide) ⟨7, 0, first, writer, by decide⟩⟩

end runs

end ShmemTest
