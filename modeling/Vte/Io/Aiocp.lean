import Vte.Base.CInt
import Vte.Base.FileBlocks
import Vte.Base.Machine

/-!
io/ltp-aiodio/aiocp.c: the copy of a file by asynchronous requests, each a read that its callback turns into a
write, with the tail of a copy by `O_DIRECT` done at the end.
-/
namespace Aiocp
open CInt FileBlocks Machine

/-- The options, and the bytes to copy: the size of the file, or what `-s` gives. -/
structure Args where
  length : Nat
  aio_blksize : Nat
  aio_maxio : Nat
  direct : Bool
  zero : Bool
  no_write : Bool
deriving DecidableEq

structure Request where
  iocb : Nat
  write : Bool
  offset : Nat
  nbytes : Nat
deriving DecidableEq

def Request.piece (r : Request) : Piece := (r.offset, r.nbytes)

/-- Where the program is: before the files are open, at the submission and at the wait of the loop or, with
`tail`, of the end of the file, or in the callbacks for the events of that wait. -/
inductive Pc
  | setup
  | submit (tail : Bool)
  | wait (tail : Bool)
  | callbacks (tail : Bool)
  | exited (status : Int)
deriving DecidableEq

structure State where
  pc : Pc
  busy : Int
  tocopy : Int
  offset : Nat
  /-- `iocb_free` up to `iocb_free_count`, the last one first -/
  iocb_free : List Nat
  /-- accepted by `io_submit`, and not among the events returned -/
  queue : List Request
  /-- the events returned whose callbacks have still to be called -/
  events : List Request
  /-- the pieces read so far, and those written -/
  reads : List Piece
  writes : List Piece
deriving DecidableEq

inductive Act
  /-- the files are opened and the buffers allocated, or not -/
  | prepare (succeeds : Bool)
  /-- what `io_submit` returns -/
  | submit (rc : Int)
  /-- `io_getevents` returns these events; the other requests stay in flight -/
  | getevents (events others : List Request)
  | failed
  /-- the next callback with its results, and what its `io_submit` returns if it calls it -/
  | callback (res res2 rc : Int)
deriving DecidableEq

section step
variable (args : Args)

/-- The bytes of the end that `O_DIRECT` cannot handle. -/
def leftover : Nat := if args.direct then args.length % 512 else 0

def whole : Nat := args.length - leftover args

def room (s : State) : Int :=
  min (min (args.aio_maxio - s.busy) args.aio_maxio) (howmany (whole args - s.offset) args.aio_blksize)

def looped (s : State) : State :=
  if s.tocopy > 0 then
    if room args s > 0 then { s with pc := .submit false } else { s with pc := .wait false }
  else if leftover args ≠ 0 then { s with pc := .submit true }
  else { s with pc := .exited 0 }

/-- `n` requests are taken from the free ones and prepared; none where there is no free one left. -/
def prepared : Nat → State → Option (List Request × State)
  | 0, s => some ([], s)
  | n + 1, s =>
    match s.iocb_free with
    | [] => none
    | io :: iocb_free => do
      let iosize := min (whole args - s.offset) args.aio_blksize
      let (ioq, s') ← prepared n { s with iocb_free, offset := s.offset + iosize }
      some (⟨io, args.zero, s.offset, iosize⟩ :: ioq, s')

def free_iocb (r : Request) (s : State) : State :=
  { s with tocopy := s.tocopy - 1, busy := s.busy - 1, iocb_free := r.iocb :: s.iocb_free }

def wr_done (r : Request) (res res2 : Int) (s : State) : State :=
  if res2 ≠ 0 ∨ res ≠ r.nbytes then { s with pc := .exited 1 }
  else { free_iocb r s with writes := s.writes ++ [r.piece] }

/-- The read becomes a write of the same bytes, which `io_submit` takes or fails on. -/
def rd_done (r : Request) (res res2 rc : Int) (s : State) : State :=
  if res2 ≠ 0 ∨ res ≠ r.nbytes then { s with pc := .exited 1 }
  else if args.no_write then { free_iocb r s with reads := s.reads ++ [r.piece] }
  else if rc ≠ 1 then { s with pc := .exited 1 }
  else { s with queue := s.queue ++ [{ r with write := true }], reads := s.reads ++ [r.piece] }

def done (r : Request) (res res2 rc : Int) (s : State) : State :=
  if r.write then wr_done r res res2 s else rd_done args r res res2 rc s

def called (tail : Bool) (s : State) : State :=
  if s.pc = .exited 1 ∨ s.events ≠ [] then s
  else if tail then { s with pc := .exited 0 }
  else looped args s

def step (act : Act) (s : State) : Option State :=
  match s.pc, act with
  | .setup, .prepare true =>
    some (looped args { s with
      tocopy := int32 (howmany (whole args) args.aio_blksize)
      iocb_free := (List.range args.aio_maxio).reverse })
  | .setup, .prepare false => some { s with pc := .exited 1 }
  | .submit false, .submit rc => do
    let n := room args s
    let (ioq, s) ← prepared args n.toNat s
    if rc < 0 then some { s with pc := .exited 1 }
    else if 1 ≤ rc ∧ rc ≤ n then
      some { s with pc := .wait false, queue := s.queue ++ ioq.take rc.toNat, busy := s.busy + n }
    else none
  | .submit true, .submit rc =>
    match s.iocb_free with
    | [] => none
    | io :: iocb_free =>
      if rc < 0 then some { s with pc := .exited 1, iocb_free }
      else if rc = 1 then
        some { s with
          pc := .wait true, iocb_free
          queue := s.queue ++ [⟨io, args.zero, s.offset, leftover args⟩] }
      else none
  | .wait tail, .getevents events others =>
    if s.queue.isPerm (events ++ others) ∧ events ≠ [] ∧ events.length ≤ args.aio_maxio then
      some { s with pc := .callbacks tail, queue := others, events }
    else none
  | .wait _, .failed => some { s with pc := .exited 1 }
  | .callbacks tail, .callback res res2 rc =>
    match s.events with
    | [] => none
    | r :: events => some (called args tail (done args r res res2 rc { s with events }))
  | _, _ => none

end step

def initial : State := ⟨.setup, 0, 0, 0, [], [], [], [], []⟩

def inFlight (s : State) : List Request := s.queue ++ s.events

/-- The blocks of the whole copy, with the end that `O_DIRECT` cannot handle as one of them. -/
def fileBlocks (args : Args) : List Piece :=
  blocks args.aio_blksize (whole args) (howmany (whole args) args.aio_blksize) ++
    if leftover args = 0 then [] else [(whole args, leftover args)]

structure Sound (args : Args) (s : State) : Prop where
  accounts : s.pc ≠ .setup → s.pc ≠ .exited 1 → (inFlight s).length + s.iocb_free.length = args.aio_maxio
  buffers : s.pc ≠ .exited 1 → ∀ r ∈ inFlight s, r.nbytes ≤ args.aio_blksize
  waits : ∀ tail, s.pc = .wait tail → s.queue ≠ []
  complete : s.pc = .exited 0 → inFlight s = [] ∧ (args.zero = false → s.reads.Perm (fileBlocks args)) ∧
    (args.zero = true ∨ args.no_write = false → s.writes.Perm (fileBlocks args))

/-- The number of blocks is an `int`, and a rest that `O_DIRECT` leaves fits a buffer and is only read or only
written. -/
structure Suits (args : Args) : Prop where
  some_size : 0 < args.aio_blksize
  some_request : 0 < args.aio_maxio
  count : howmany (whole args) args.aio_blksize < 2147483648
  rest : leftover args = 0 ∨ leftover args ≤ args.aio_blksize ∧ (args.zero = true ∨ args.no_write = true)

def AllTaken (args : Args) (act : Act) (s : State) : Prop :=
  match act with
  | .submit rc => s.pc = .submit false → 0 ≤ rc → rc = room args s
  | _ => True

instance (args : Args) (act : Act) (s : State) : Decidable (AllTaken args act s) :=
  match act with
  | .submit _ => inferInstanceAs (Decidable (_ → _ → _))
  | .prepare _ => .isTrue trivial
  | .getevents _ _ => .isTrue trivial
  | .failed => .isTrue trivial
  | .callback _ _ _ => .isTrue trivial

def finished (args : Args) (s : State) : List Piece :=
  if args.zero || !args.no_write then s.writes else s.reads

/-- The loop has come to block `k`: those before are in flight or done, and unless zeros are written they are
being read or have been. -/
structure Reached (args : Args) (flight : List Request) (s : State) (k : Nat) : Prop where
  low : k ≤ howmany (whole args) args.aio_blksize
  offset : s.offset = min (k * args.aio_blksize) (whole args)
  pieces : (flight.map Request.piece ++ finished args s).Perm (blocks args.aio_blksize (whole args) k)
  reading : args.zero = false → ((flight.filter (! ·.write)).map Request.piece ++ s.reads).Perm
    (blocks args.aio_blksize (whole args) k)

/-- The requests `flight` are in flight: with those that are free and the pieces done they account for all
requests and for all blocks that the loop has come to. -/
structure Account (args : Args) (flight : List Request) (s : State) : Prop where
  free : (s.iocb_free ++ flight.map Request.iocb).Perm (List.range args.aio_maxio)
  busy : s.busy = flight.length
  kinds : ∀ r ∈ flight, (args.zero = true → r.write = true) ∧
    (args.zero = false → args.no_write = true → r.write = false)
  reached : ∃ k, Reached args flight s k
  tocopy : s.tocopy = (howmany (whole args) args.aio_blksize : Int) - (finished args s).length

section account
variable {args : Args} {s : State} {flight flight' others : List Request} {r : Request}

theorem finished_writes (writes : args.zero = true ∨ args.no_write = false) :
    finished args s = s.writes := by
  rw [finished, if_pos]
  rcases writes with zero | copies <;> simp [*]

theorem finished_reads (reads : args.zero = false) (no_write : args.no_write = true) :
    finished args s = s.reads := by
  rw [finished, if_neg]
  simp [reads, no_write]

theorem account_perm (account : Account args flight s) (same : flight.Perm flight') :
    Account args flight' s := by
  obtain ⟨k, low, offset, pieces, reading⟩ := account.reached
  refine ⟨((same.map _).append_left _).symm.trans account.free, ?_, ?_, ⟨k, low, offset, ?_, ?_⟩, account.tocopy⟩
  · rw [← same.length_eq]
    exact account.busy
  · intro r member
    exact account.kinds r (same.mem_iff.mpr member)
  · exact ((same.map _).append_right _).symm.trans pieces
  · intro copies
    exact (((same.filter _).map _).append_right _).symm.trans (reading copies)

theorem account_pc (account : Account args flight s) (pc : Pc) (queue events : List Request) :
    Account args flight { s with pc, queue, events } := by
  obtain ⟨k, low, offset, pieces, reading⟩ := account.reached
  exact ⟨account.free, account.busy, account.kinds, ⟨k, low, offset, pieces, reading⟩, account.tocopy⟩

theorem account_length (account : Account args flight s) :
    flight.length + s.iocb_free.length = args.aio_maxio := by
  have length := account.free.length_eq
  rw [List.length_append, List.length_map, List.length_range] at length
  omega

theorem account_buffers (account : Account args flight s) :
    ∀ r ∈ flight, r.nbytes ≤ args.aio_blksize := by
  intro r member
  obtain ⟨k, reached⟩ := account.reached
  have piece := reached.pieces.mem_iff.mp (List.mem_append_left _ (List.mem_map.mpr ⟨r, member, rfl⟩))
  rw [blocks, List.mem_map] at piece
  obtain ⟨i, _, same⟩ := piece
  have bytes : min args.aio_blksize (whole args - i * args.aio_blksize) = r.nbytes :=
    congrArg Prod.snd same
  exact bytes ▸ Nat.min_le_left _ _

theorem perm_done {α : Type} (a : α) (l done : List α) : (l ++ (done ++ [a])).Perm (a :: l ++ done) := by
  rw [← List.append_assoc]
  exact List.perm_append_singleton a (l ++ done)

theorem account_free_iocb (account : Account args (r :: others) s) :
    ((r.iocb :: s.iocb_free) ++ others.map Request.iocb).Perm (List.range args.aio_maxio) := by
  refine List.Perm.trans ?_ account.free
  rw [List.map_cons, List.cons_append]
  exact List.perm_middle.symm

theorem account_written (account : Account args (r :: others) s) (write : r.write = true) :
    Account args others { free_iocb r s with writes := s.writes ++ [r.piece] } := by
  obtain ⟨k, low, offset, pieces, reading⟩ := account.reached
  have kind := account.kinds r List.mem_cons_self
  have writes : args.zero = true ∨ args.no_write = false := by
    by_contra neither
    rw [not_or, Bool.not_eq_true, Bool.not_eq_false] at neither
    exact absurd (kind.2 neither.1 neither.2) (by simp [write])
  have tocopy := account.tocopy
  have busy := account.busy
  rw [finished_writes writes] at pieces tocopy
  refine ⟨account_free_iocb account, ?_, fun r' member => account.kinds r' (List.mem_cons_of_mem _ member),
    ⟨k, low, offset, ?_, ?_⟩, ?_⟩
  · rw [List.length_cons] at busy
    simp only [free_iocb]
    omega
  · rw [finished_writes writes]
    exact (perm_done _ _ _).trans pieces
  · intro copies
    have others_only := reading copies
    rwa [List.filter_cons_of_neg (by simp [write])] at others_only
  · rw [finished_writes writes]
    simp only [free_iocb, List.length_append, List.length_singleton]
    omega

theorem account_read (account : Account args (r :: others) s) (read : r.write = false)
    (no_write : args.no_write = true) :
    Account args others { free_iocb r s with reads := s.reads ++ [r.piece] } := by
  obtain ⟨k, low, offset, pieces, reading⟩ := account.reached
  have kind := account.kinds r List.mem_cons_self
  have reads : args.zero = false := by
    by_contra zero
    exact absurd (kind.1 (by simpa using zero)) (by simp [read])
  have tocopy := account.tocopy
  have busy := account.busy
  rw [finished_reads reads no_write] at pieces tocopy
  refine ⟨account_free_iocb account, ?_, fun r' member => account.kinds r' (List.mem_cons_of_mem _ member),
    ⟨k, low, offset, ?_, ?_⟩, ?_⟩
  · rw [List.length_cons] at busy
    simp only [free_iocb]
    omega
  · rw [finished_reads reads no_write]
    exact (perm_done _ _ _).trans pieces
  · intro _
    have others_only := reading reads
    rw [List.filter_cons_of_pos (by simp [read])] at others_only
    exact (perm_done _ _ _).trans others_only
  · rw [finished_reads reads no_write]
    simp only [free_iocb, List.length_append, List.length_singleton]
    omega

theorem account_turned (account : Account args (r :: others) s) (read : r.write = false)
    (copies : args.no_write = false) :
    Account args ({ r with write := true } :: others) { s with reads := s.reads ++ [r.piece] } := by
  obtain ⟨k, low, offset, pieces, reading⟩ := account.reached
  have tocopy := account.tocopy
  rw [finished_writes (.inr copies)] at pieces tocopy
  refine ⟨account.free, account.busy, ?_, ⟨k, low, offset, ?_, ?_⟩, ?_⟩
  · intro r' member
    rcases List.mem_cons.mp member with rfl | member
    · exact ⟨fun _ => rfl, fun _ skips => absurd skips (by simp [copies])⟩
    · exact account.kinds r' (List.mem_cons_of_mem _ member)
  · rw [finished_writes (.inr copies)]
    exact pieces
  · intro reads
    have others_only := reading reads
    rw [List.filter_cons_of_pos (by simp [read])] at others_only
    rw [List.filter_cons_of_neg (by simp)]
    exact (perm_done _ _ _).trans others_only
  · rw [finished_writes (.inr copies)]
    exact tocopy

end account

section submission
variable {args : Args} {s : State} {k n : Nat}

theorem rest_blocks (suits : Suits args) {flight : List Request} (reached : Reached args flight s k) :
    howmany (whole args - s.offset) args.aio_blksize = howmany (whole args) args.aio_blksize - k := by
  rw [reached.offset]
  by_cases inside : k * args.aio_blksize ≤ whole args
  · rw [Nat.min_eq_left inside, howmany_rest suits.some_size inside]
  · have beyond : whole args ≤ k * args.aio_blksize := by omega
    have last := (howmany_le suits.some_size).mpr beyond
    have nothing : howmany 0 args.aio_blksize ≤ 0 := (howmany_le suits.some_size).mpr (Nat.zero_le _)
    rw [Nat.min_eq_right beyond, Nat.sub_self]
    omega

/-- What the preparation of `n` requests gives. -/
structure Prepared (args : Args) (s : State) (k n : Nat) (ioq : List Request) : Prop where
  result : prepared args n s = some (ioq, { s with
    iocb_free := s.iocb_free.drop n, offset := min ((k + n) * args.aio_blksize) (whole args) })
  taken : ioq.map Request.iocb = s.iocb_free.take n
  kinds : ∀ r ∈ ioq, r.write = args.zero
  pieces : blocks args.aio_blksize (whole args) k ++ ioq.map Request.piece =
    blocks args.aio_blksize (whole args) (k + n)

theorem prepared_blocks (suits : Suits args) (low : k + n ≤ howmany (whole args) args.aio_blksize)
    (offset : s.offset = min (k * args.aio_blksize) (whole args)) (enough : n ≤ s.iocb_free.length) :
    ∃ ioq, Prepared args s k n ioq := by
  induction n generalizing k s with
  | zero =>
    refine ⟨[], ?_, rfl, by simp, by simp⟩
    rw [prepared, Nat.add_zero, ← offset]
    rfl
  | succ n ih =>
    have inside : k * args.aio_blksize < whole args := (lt_howmany suits.some_size).mp (by omega)
    rw [Nat.min_eq_left (Nat.le_of_lt inside)] at offset
    cases free : s.iocb_free with
    | nil =>
      rw [free, List.length_nil] at enough
      omega
    | cons io rest =>
      rw [free, List.length_cons] at enough
      have next : k * args.aio_blksize + min (whole args - k * args.aio_blksize) args.aio_blksize =
          min ((k + 1) * args.aio_blksize) (whole args) := by
        rw [Nat.succ_mul]
        omega
      obtain ⟨ioq, result, taken, kinds, pieces⟩ := ih (k := k + 1)
        (s := { s with iocb_free := rest, offset := min ((k + 1) * args.aio_blksize) (whole args) })
        (by omega) rfl (by exact Nat.le_of_succ_le_succ enough)
      refine ⟨⟨io, args.zero, s.offset,
        min (whole args - k * args.aio_blksize) args.aio_blksize⟩ :: ioq, ?_, ?_, ?_, ?_⟩
      · rw [prepared, free]
        simp only [offset, next, result, Option.bind_eq_bind, Option.bind_some]
        rw [Nat.add_assoc, Nat.add_comm 1 n]
        rfl
      · rw [List.map_cons, taken, free, List.take_succ_cons]
      · intro r member
        rcases List.mem_cons.mp member with rfl | member
        · rfl
        · exact kinds r member
      · rw [List.map_cons, List.append_cons, Request.piece, offset, Nat.min_comm, ← block,
          ← blocks_succ, pieces, Nat.add_assoc, Nat.add_comm 1 n]

theorem account_submitted {flight ioq : List Request} (account : Account args flight s)
    (reached : Reached args flight s k) (low : k + n ≤ howmany (whole args) args.aio_blksize)
    (ready : Prepared args s k n ioq) (enough : n ≤ s.iocb_free.length) :
    Account args (flight ++ ioq) { s with
      iocb_free := s.iocb_free.drop n, offset := min ((k + n) * args.aio_blksize) (whole args),
      busy := s.busy + n } := by
  have count : ioq.length = n := by
    have taken := congrArg List.length ready.taken
    rw [List.length_map, List.length_take] at taken
    omega
  have swap : ∀ {α : Type} (l m d : List α), (l ++ m ++ d).Perm (l ++ d ++ m) := by
    intro α l m d
    rw [List.append_assoc, List.append_assoc]
    exact List.perm_append_comm.append_left l
  refine ⟨?_, ?_, ?_, ⟨k + n, low, rfl, ?_, ?_⟩, account.tocopy⟩
  · refine List.Perm.trans ?_ account.free
    rw [List.map_append, ready.taken, ← List.append_assoc]
    refine (@List.perm_append_comm _ (s.iocb_free.drop n ++ flight.map Request.iocb) _).trans ?_
    rw [← List.append_assoc, List.take_append_drop]
  · have busy := account.busy
    rw [List.length_append, count]
    dsimp only
    omega
  · intro r member
    rcases List.mem_append.mp member with before | new
    · exact account.kinds r before
    · rw [ready.kinds r new]
      exact ⟨id, fun reads _ => reads⟩
  · rw [List.map_append, ← ready.pieces]
    exact (swap _ _ _).trans (reached.pieces.append_right _)
  · intro reads
    have all : ioq.filter (! ·.write) = ioq :=
      List.filter_eq_self.mpr fun r member => by rw [ready.kinds r member, reads]; rfl
    rw [List.filter_append, all, List.map_append, ← ready.pieces]
    exact (swap _ _ _).trans ((reached.reading reads).append_right _)

end submission

theorem wait_cases {args : Args} {s t : State} {act : Act} {tail : Bool} (place : s.pc = .wait tail)
    (stepped : step args act s = some t) :
    t = { s with pc := .exited 1 } ∨ ∃ events others, s.queue.Perm (events ++ others) ∧ events ≠ [] ∧
      t = { s with pc := .callbacks tail, queue := others, events } := by
  cases act with
  | prepare _ => simp [step, place] at stepped
  | submit _ => simp [step, place] at stepped
  | callback _ _ _ => simp [step, place] at stepped
  | failed =>
    simp only [step, place] at stepped
    exact .inl (Option.some.inj stepped).symm
  | getevents events others =>
    simp only [step, place] at stepped
    split at stepped
    · rename_i batch
      exact .inr ⟨events, others, List.isPerm_iff.mp batch.1, batch.2.1, (Option.some.inj stepped).symm⟩
    · cases stepped

/-- The loop is done: all but the end that `O_DIRECT` cannot handle. -/
structure LoopDone (args : Args) (s : State) : Prop where
  offset : s.offset = whole args
  reads : args.zero = false →
    s.reads.Perm (blocks args.aio_blksize (whole args) (howmany (whole args) args.aio_blksize))
  writes : args.zero = true ∨ args.no_write = false →
    s.writes.Perm (blocks args.aio_blksize (whole args) (howmany (whole args) args.aio_blksize))

def tailRequest (args : Args) (io : Nat) : Request := ⟨io, args.zero, whole args, leftover args⟩

structure Complete (args : Args) (s : State) : Prop where
  reads : args.zero = false → s.reads.Perm (fileBlocks args)
  writes : args.zero = true ∨ args.no_write = false → s.writes.Perm (fileBlocks args)

def Fits (args : Args) (s : State) : Prop :=
  match s.pc with
  | .setup => s = initial
  | .submit false => Account args s.queue s ∧ s.events = [] ∧ 0 < room args s
  | .wait false => Account args s.queue s ∧ s.events = [] ∧ s.queue ≠ []
  | .callbacks false => Account args (inFlight s) s
  | .submit true => LoopDone args s ∧ s.queue = [] ∧ s.events = [] ∧
      s.iocb_free.Perm (List.range args.aio_maxio) ∧ leftover args ≠ 0
  | .wait true => ∃ io, LoopDone args s ∧ s.queue = [tailRequest args io] ∧ s.events = [] ∧
      (io :: s.iocb_free).Perm (List.range args.aio_maxio) ∧ leftover args ≠ 0
  | .callbacks true => ∃ io, LoopDone args s ∧ s.queue = [] ∧ s.events = [tailRequest args io] ∧
      (io :: s.iocb_free).Perm (List.range args.aio_maxio) ∧ leftover args ≠ 0
  | .exited status => status = 1 ∨ (status = 0 ∧ inFlight s = [] ∧
      s.iocb_free.Perm (List.range args.aio_maxio) ∧ Complete args s)

section keeps
variable {args : Args} {s : State}

theorem loop_done (suits : Suits args) (account : Account args s.queue s) (past : s.tocopy ≤ 0) :
    s.queue = [] ∧ LoopDone args s := by
  obtain ⟨k, low, offset, pieces, reading⟩ := account.reached
  have tocopy := account.tocopy
  have length := pieces.length_eq
  rw [List.length_append, List.length_map, blocks_length] at length
  have none_left : s.queue = [] := List.length_eq_zero_iff.mp (by omega)
  obtain rfl : k = howmany (whole args) args.aio_blksize := by omega
  rw [none_left, List.map_nil, List.nil_append] at pieces
  refine ⟨none_left, ?_, ?_, fun writes => finished_writes writes ▸ pieces⟩
  · rw [offset, Nat.min_eq_right ((howmany_le suits.some_size).mp (Nat.le_refl _))]
  · intro reads
    have all := reading reads
    rwa [none_left] at all

theorem fits_looped (suits : Suits args) (account : Account args s.queue s) (idle : s.events = []) :
    Fits args (looped args s) := by
  rw [looped]
  split
  · rename_i more
    split
    · rename_i some_room
      exact ⟨account_pc account _ _ _, idle, some_room⟩
    · rename_i no_room
      refine ⟨account_pc account _ _ _, idle, fun empty => no_room ?_⟩
      obtain ⟨k, reached⟩ := account.reached
      have tocopy := account.tocopy
      have busy := account.busy
      have length := reached.pieces.length_eq
      have some_request := suits.some_request
      dsimp only at empty
      rw [List.length_append, List.length_map, blocks_length, empty, List.length_nil] at length
      rw [empty, List.length_nil] at busy
      rw [room, rest_blocks suits reached]
      omega
  · rename_i past
    obtain ⟨none_left, done⟩ := loop_done suits account (by omega)
    have free := account.free
    rw [none_left, List.map_nil, List.append_nil] at free
    split
    · rename_i rest
      exact ⟨⟨done.offset, done.reads, done.writes⟩, none_left, idle, free, rest⟩
    · rename_i rest
      rw [not_not] at rest
      refine Or.inr ⟨rfl, ?_, free, ?_, ?_⟩
      · rw [inFlight, none_left, idle]
        rfl
      · rw [fileBlocks, if_pos rest, List.append_nil]
        exact done.reads
      · rw [fileBlocks, if_pos rest, List.append_nil]
        exact done.writes

theorem fits_submit {rc : Int} {t : State} (suits : Suits args) (place : s.pc = .submit false)
    (fits : Fits args s) (taken : AllTaken args (.submit rc) s)
    (stepped : step args (.submit rc) s = some t) : Fits args t := by
  simp only [Fits, place] at fits
  obtain ⟨account, idle, some_room⟩ := fits
  obtain ⟨k, reached⟩ := account.reached
  have length := account_length account
  have busy := account.busy
  have rest := rest_blocks suits reached
  have enough : (room args s).toNat ≤ s.iocb_free.length := by
    rw [room] at some_room ⊢
    omega
  have low : k + (room args s).toNat ≤ howmany (whole args) args.aio_blksize := by
    have limit := reached.low
    rw [room] at some_room ⊢
    omega
  obtain ⟨ioq, ready⟩ := prepared_blocks suits low reached.offset enough
  simp only [step, place, ready.result, Option.bind_eq_bind, Option.bind_some] at stepped
  split at stepped
  · obtain rfl := Option.some.inj stepped
    exact Or.inl rfl
  · split at stepped
    · rename_i accepted _
      obtain rfl := Option.some.inj stepped
      have all : rc = room args s := taken place (by omega)
      have count := congrArg List.length ready.taken
      rw [List.length_map, List.length_take] at count
      have every : ioq.take rc.toNat = ioq := List.take_of_length_le (by omega)
      have submitted := account_submitted account reached low ready enough
      rw [Int.toNat_of_nonneg (Int.le_of_lt some_room)] at submitted
      rw [every]
      refine ⟨account_pc submitted _ _ _, idle, fun empty => ?_⟩
      rw [(List.append_eq_nil_iff.mp empty).2, List.length_nil] at count
      omega
    · cases stepped

theorem fits_wait {act : Act} {t : State} {tail : Bool} (place : s.pc = .wait tail) (fits : Fits args s)
    (stepped : step args act s = some t) : Fits args t := by
  rcases wait_cases place stepped with rfl | ⟨events, others, same, some_event, rfl⟩
  · exact Or.inl rfl
  · cases tail with
    | false =>
      simp only [Fits, place] at fits
      have moved : s.queue.Perm (others ++ events) := same.trans List.perm_append_comm
      exact account_pc (account_perm fits.1 moved) _ _ _
    | true =>
      simp only [Fits, place] at fits
      obtain ⟨io, done, queue, idle, free, rest⟩ := fits
      rw [queue] at same
      have length := same.length_eq
      have some_event := List.length_pos_iff.mpr some_event
      rw [List.length_singleton, List.length_append] at length
      obtain rfl : others = [] := List.length_eq_zero_iff.mp (by omega)
      rw [List.append_nil] at same
      exact ⟨io, ⟨done.offset, done.reads, done.writes⟩, rfl, (List.singleton_perm.mp same).symm, free, rest⟩

theorem account_done {r : Request} (res res2 rc : Int)
    (account : Account args (r :: (s.queue ++ s.events)) s) :
    (done args r res res2 rc s).pc = .exited 1 ∨
      (done args r res res2 rc s).pc = s.pc ∧ (done args r res res2 rc s).events = s.events ∧
        Account args (inFlight (done args r res res2 rc s)) (done args r res res2 rc s) := by
  rw [done]
  split
  · rename_i write
    rw [wr_done]
    split
    · exact Or.inl rfl
    · exact Or.inr ⟨rfl, rfl, account_written account write⟩
  · rename_i read
    rw [Bool.not_eq_true] at read
    rw [rd_done]
    split
    · exact Or.inl rfl
    · split
      · rename_i no_write
        exact Or.inr ⟨rfl, rfl, account_read account read no_write⟩
      · rename_i copies
        rw [Bool.not_eq_true] at copies
        split
        · exact Or.inl rfl
        · refine Or.inr ⟨rfl, rfl, account_pc (account_perm (account_turned account read copies) ?_) _ _ _⟩
          rw [inFlight, List.append_assoc]
          exact List.perm_middle.symm

theorem fits_callback {t : State} {res res2 rc : Int} (suits : Suits args)
    (place : s.pc = .callbacks false) (fits : Fits args s)
    (stepped : step args (.callback res res2 rc) s = some t) : Fits args t := by
  simp only [Fits, place] at fits
  simp only [step, place] at stepped
  split at stepped
  · cases stepped
  · rename_i r rest events
    have moved : (inFlight s).Perm (r :: (s.queue ++ rest)) := by
      rw [inFlight, events]
      exact List.perm_middle
    have ended := account_done (s := { s with pc := .callbacks false, events := rest }) res res2 rc
      (account_pc (account_perm fits moved) (.callbacks false) s.queue rest)
    obtain rfl := Option.some.inj stepped
    generalize done args r res res2 rc _ = u at ended
    dsimp only at ended
    rw [called]
    rcases ended with failed | ⟨pc, same, account⟩
    · rw [if_pos (Or.inl failed)]
      simp only [Fits, failed]
      exact Or.inl trivial
    · split
      · simp only [Fits, pc]
        exact account
      · rename_i past
        rw [not_or, not_not] at past
        rw [inFlight, past.2, List.append_nil] at account
        exact fits_looped suits account past.2

theorem called_tail (alive : s.pc ≠ .exited 1) (past : s.events = []) :
    called args true s = { s with pc := .exited 0 } := by
  rw [called, if_neg (by rw [not_or, not_not]; exact ⟨alive, past⟩), if_pos rfl]

theorem fits_tail {t : State} {res res2 rc : Int} (suits : Suits args) (place : s.pc = .callbacks true)
    (fits : Fits args s) (stepped : step args (.callback res res2 rc) s = some t) : Fits args t := by
  simp only [Fits, place] at fits
  obtain ⟨io, past, queue, events, free, rest⟩ := fits
  have file : fileBlocks args = blocks args.aio_blksize (whole args)
      (howmany (whole args) args.aio_blksize) ++ [(tailRequest args io).piece] := by
    rw [fileBlocks, if_neg rest]
    rfl
  simp only [step, place, events] at stepped
  obtain rfl := Option.some.inj stepped
  rw [done]
  split
  · rename_i write
    have zero : args.zero = true := write
    rw [wr_done]
    split
    · exact Or.inl rfl
    · rw [called_tail (by simp [free_iocb]) rfl]
      refine Or.inr ⟨rfl, by simp [inFlight, free_iocb, queue], free, fun reads => ?_, fun _ => ?_⟩
      · exact absurd reads (by simp [zero])
      · rw [file]
        exact (past.writes (Or.inl zero)).append_right _
  · rename_i read
    have reads : args.zero = false := by simpa [tailRequest] using read
    have no_write : args.no_write = true := by
      rcases suits.rest with none_left | ⟨_, zero | no_write⟩
      · exact absurd none_left rest
      · exact absurd zero (by simp [reads])
      · exact no_write
    rw [rd_done]
    split
    · exact Or.inl rfl
    · rw [called_tail (by simp [free_iocb]) rfl]
      refine Or.inr ⟨rfl, by simp [inFlight, free_iocb, queue], free, fun _ => ?_, fun writes => ?_⟩
      · rw [file]
        exact (past.reads reads).append_right _
      · simp [reads, no_write] at writes

theorem fits_submit_tail {rc : Int} {t : State} (place : s.pc = .submit true) (fits : Fits args s)
    (stepped : step args (.submit rc) s = some t) : Fits args t := by
  simp only [Fits, place] at fits
  obtain ⟨past, queue, events, free, rest⟩ := fits
  simp only [step, place] at stepped
  split at stepped
  · cases stepped
  · rename_i io others some_free
    split at stepped
    · obtain rfl := Option.some.inj stepped
      exact Or.inl rfl
    · split at stepped
      · obtain rfl := Option.some.inj stepped
        refine ⟨io, ⟨past.offset, past.reads, past.writes⟩, ?_, events, some_free ▸ free, rest⟩
        rw [tailRequest, ← past.offset, queue]
        rfl
      · cases stepped

theorem fits_setup {act : Act} {t : State} (suits : Suits args) (place : s.pc = .setup) (fits : Fits args s)
    (stepped : step args act s = some t) : Fits args t := by
  simp only [Fits, place] at fits
  subst fits
  cases act with
  | submit _ => cases stepped
  | getevents _ _ => cases stepped
  | failed => cases stepped
  | callback _ _ _ => cases stepped
  | prepare succeeds =>
    cases succeeds
    · obtain rfl := Option.some.inj stepped
      exact Or.inl rfl
    · have count := suits.count
      have blocks_left : int32 (howmany (whole args) args.aio_blksize) =
        howmany (whole args) args.aio_blksize := int32_small (by omega) (by omega)
      simp only [step, initial, blocks_left] at stepped
      obtain rfl := Option.some.inj stepped
      refine fits_looped suits ⟨?_, rfl, by simp, ⟨0, Nat.zero_le _, ?_, ?_, ?_⟩, ?_⟩ rfl
      · simp
      · simp
      · simp [finished, blocks]
      · simp [blocks]
      · simp [finished]

theorem fits_step (suits : Suits args) (act : Act) (s t : State) (fits : Fits args s)
    (taken : AllTaken args act s) (stepped : step args act s = some t) : Fits args t := by
  cases place : s.pc with
  | setup => exact fits_setup suits place fits stepped
  | submit tail =>
    cases act with
    | submit rc =>
      cases tail
      · exact fits_submit suits place fits taken stepped
      · exact fits_submit_tail place fits stepped
    | prepare _ => simp [step, place] at stepped
    | getevents _ _ => simp [step, place] at stepped
    | failed => simp [step, place] at stepped
    | callback _ _ _ => simp [step, place] at stepped
  | wait tail => exact fits_wait place fits stepped
  | callbacks tail =>
    cases act with
    | callback res res2 rc =>
      cases tail
      · exact fits_callback suits place fits stepped
      · exact fits_tail suits place fits stepped
    | prepare _ => simp [step, place] at stepped
    | getevents _ _ => simp [step, place] at stepped
    | failed => simp [step, place] at stepped
    | submit _ => simp [step, place] at stepped
  | exited status => simp [step, place] at stepped

theorem tail_length {io : Nat} (flight : inFlight s = [tailRequest args io])
    (free : (io :: s.iocb_free).Perm (List.range args.aio_maxio)) :
    (inFlight s).length + s.iocb_free.length = args.aio_maxio := by
  have length := free.length_eq
  rw [List.length_cons, List.length_range] at length
  rw [flight, List.length_singleton]
  omega

theorem tail_buffer {io : Nat} (suits : Suits args) (rest : leftover args ≠ 0)
    (flight : inFlight s = [tailRequest args io]) : ∀ r ∈ inFlight s, r.nbytes ≤ args.aio_blksize := by
  intro r member
  rw [flight, List.mem_singleton] at member
  rcases suits.rest with none_left | ⟨fits, _⟩
  · exact absurd none_left rest
  · exact member ▸ fits

theorem fits_initial : Fits args initial := by simp [Fits, initial]

theorem fits_sound (suits : Suits args) (fits : Fits args s) : Sound args s := by
  cases place : s.pc with
  | setup =>
    simp only [Fits, place] at fits
    subst fits
    exact ⟨fun set_up => absurd rfl set_up, by simp [inFlight, initial], by simp [initial],
      by simp [initial]⟩
  | submit tail =>
    cases tail with
    | false =>
      simp only [Fits, place] at fits
      obtain ⟨account, idle, _⟩ := fits
      have flight : inFlight s = s.queue := by rw [inFlight, idle, List.append_nil]
      rw [← flight] at account
      exact ⟨fun _ _ => account_length account, fun _ => account_buffers account, by simp [place],
        by simp [place]⟩
    | true =>
      simp only [Fits, place] at fits
      obtain ⟨_, queue, idle, free, _⟩ := fits
      have flight : inFlight s = [] := by rw [inFlight, queue, idle, List.append_nil]
      exact ⟨fun _ _ => by simp [flight, free.length_eq], by simp [flight], by simp [place],
        by simp [place]⟩
  | wait tail =>
    cases tail with
    | false =>
      simp only [Fits, place] at fits
      obtain ⟨account, idle, some_left⟩ := fits
      have flight : inFlight s = s.queue := by rw [inFlight, idle, List.append_nil]
      rw [← flight] at account
      exact ⟨fun _ _ => account_length account, fun _ => account_buffers account,
        fun _ _ => some_left, by simp [place]⟩
    | true =>
      simp only [Fits, place] at fits
      obtain ⟨io, _, queue, idle, free, rest⟩ := fits
      have flight : inFlight s = [tailRequest args io] := by rw [inFlight, queue, idle, List.append_nil]
      refine ⟨fun _ _ => ?_, fun _ => ?_, fun _ _ => by simp [queue], by simp [place]⟩
      · exact tail_length flight free
      · exact tail_buffer suits rest flight
  | callbacks tail =>
    cases tail with
    | false =>
      simp only [Fits, place] at fits
      exact ⟨fun _ _ => account_length fits, fun _ => account_buffers fits, by simp [place],
        by simp [place]⟩
    | true =>
      simp only [Fits, place] at fits
      obtain ⟨io, _, queue, events, free, rest⟩ := fits
      have flight : inFlight s = [tailRequest args io] := by rw [inFlight, queue, events, List.nil_append]
      exact ⟨fun _ _ => tail_length flight free, fun _ => tail_buffer suits rest flight,
        by simp [place], by simp [place]⟩
  | exited status =>
    simp only [Fits, place] at fits
    rcases fits with rfl | ⟨rfl, flight, free, complete⟩
    · exact ⟨fun _ alive => absurd place alive, fun alive => absurd place alive, by simp [place],
        by simp [place]⟩
    · exact ⟨fun _ _ => by simp [flight, free.length_eq], by simp [flight], by simp [place],
        fun _ => ⟨flight, complete.reads, complete.writes⟩⟩

/-- Every state of a run is sound when each submission of the loop takes all it is given, the blocks are
counted right, and a copy by `O_DIRECT` has no rest. -/
theorem aiocp_sound (suits : Suits args) {acts : List Act} {t : State}
    (taken : Along (step args) (AllTaken args) acts initial)
    (ran : run (step args) acts initial = some t) : Sound args t :=
  fits_sound suits (run_along (fits_step suits) fits_initial taken ran)

end keeps

section runs

def twoBlocks : Args := ⟨700, 512, 2, false, false, false⟩

def copied : List Act :=
  [.prepare true, .submit 2, .getevents [⟨0, false, 512, 188⟩] [⟨1, false, 0, 512⟩], .callback 188 0 1,
    .getevents [⟨1, false, 0, 512⟩, ⟨0, true, 512, 188⟩] [], .callback 512 0 1, .callback 188 0 0,
    .getevents [⟨1, true, 0, 512⟩] [], .callback 512 0 0]

def afterCopy : State :=
  ⟨.exited 0, 0, 0, 700, [1, 0], [], [], [(512, 188), (0, 512)], [(512, 188), (0, 512)]⟩

theorem aiocp_sound_two :
    run (step twoBlocks) copied initial = some afterCopy ∧ Sound twoBlocks afterCopy := by
  have ran : run (step twoBlocks) copied initial = some afterCopy := by decide +kernel
  have taken : Along (step twoBlocks) (AllTaken twoBlocks) copied initial := by decide +kernel
  exact ⟨ran, aiocp_sound ⟨by decide, by decide, by decide, .inl rfl⟩ taken ran⟩

/-- A file of 100 bytes copied by `O_DIRECT`: the program exits while the write is in flight. -/
def shortDirect : Args := ⟨100, 512, 1, true, false, false⟩

/-- The first: the only write has not completed. The second, without `O_DIRECT`: one of two requests is taken,
and the other is neither in flight nor free. -/
theorem aiocp_unsound :
    (∃ t, run (step shortDirect) [.prepare true, .submit 1, .getevents [⟨0, false, 0, 100⟩] [],
        .callback 100 0 1] initial = some t ∧
      t.pc = .exited 0 ∧ t.writes = [] ∧ ¬ Sound shortDirect t) ∧
    ∃ t, run (step twoBlocks) [.prepare true, .submit 1] initial = some t ∧ ¬ Sound twoBlocks t := by
  refine ⟨⟨⟨.exited 0, 0, 0, 0, [], [⟨0, true, 0, 100⟩], [], [(0, 100)], []⟩, by decide +kernel, rfl, rfl, ?_⟩,
    ⟨.wait false, 2, 2, 700, [], [⟨1, false, 0, 512⟩], [], [], []⟩, by decide +kernel, ?_⟩
  · intro sound
    exact absurd (sound.complete rfl).1 (by decide)
  · intro sound
    exact absurd (sound.accounts (by decide) (by decide)) (by decide)

end runs

end Aiocp
