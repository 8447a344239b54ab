import Mathlib.Data.List.ProdSigma
import Mathlib.Logic.Function.Basic
import Vte.Base.CInt
import Vte.Base.Machine
import Vte.Lib.LioSync

/-!
kernel/ipc/pipeio/pipeio.c with synchronous I/O and without `-v` and `-p`: writers that put packets into one pipe
through the loop of `lio_write_buffer`, and a reader that takes them through that of `lio_read_buffer`. An open,
a semaphore, a write or a read that waits is a step that is not possible yet; so is the wait in `select` after
`EAGAIN`.
-/
namespace Pipeio
open Bytes CInt Function Machine

def PIPE_BUF : Nat := 4096
def INT_MAX : Nat := 2147483647
def NBPW : Nat := 4
def MAX_ERRS : Nat := 16
def MAX_EMPTY : Nat := 256

/-- What the options leave in the variables; `loop` is also set by `-n 0`. -/
structure Options where
  size : Int
  num_wrters : Int
  num_writes : Int
  exit_error : Int
  loop : Bool
  unpipe : Bool
  blocking : Bool

structure Args where
  size : Nat
  num_wrters : Nat
  num_writes : Nat
  exit_error : Nat
  loop : Bool
  unpipe : Bool
  nonblocking : Bool

def Accepted (o : Options) : Prop :=
  (0 < o.size ∧ o.size ≤ INT_MAX) ∧ (0 < o.num_wrters ∧ o.num_wrters ≤ INT_MAX) ∧
    (0 ≤ o.num_writes ∧ o.num_writes ≤ INT_MAX) ∧ (0 ≤ o.exit_error ∧ o.exit_error ≤ INT_MAX) ∧
    (o.num_writes = 0 → o.loop = true)

instance (o : Options) : Decidable (Accepted o) := by unfold Accepted; infer_instance

def adjust (o : Options) : Args where
  size := if PIPE_BUF < o.size ∧ 1 < o.num_wrters then PIPE_BUF else o.size.toNat
  num_wrters := o.num_wrters.toNat
  num_writes :=
    if PIPE_BUF < o.size ∧ 1 < o.num_wrters ∧ !o.loop then
      (min ((o.num_writes * o.size + PIPE_BUF - 1) / PIPE_BUF) (INT_MAX / o.num_wrters)).toNat
    else o.num_writes.toNat
  exit_error := o.exit_error.toNat
  loop := o.loop
  unpipe := o.unpipe
  nonblocking := !o.unpipe && !o.blocking

/-- `writebuf` before the words are stored. -/
def writebuf (size : Nat) : List Byte := List.replicate (size - 1) 0x5a ++ [0x41]

/-- The bytes of `writebuf` in pass `j`; what is stored behind its end is not part of it. -/
def packet (size : Nat) (pid : Int) (j : Nat) : List Byte :=
  (writeAt 0 (writeAt 0 (writebuf size) NBPW (unitBytes (BitVec.ofNat 32 j))) 0
    (unitBytes (BitVec.ofInt 32 pid))).take size

def mismatch (size : Nat) (written read : List Byte) : Option Nat :=
  (List.range' (2 * NBPW) (size - 2 * NBPW)).find? fun j => byteAt written j != byteAt read j

inductive WriterPc
  | opening
  | raise
  | pass (j : Nat)
  /-- in `lio_write_buffer`, with the bytes that the call of `write` has placed so far -/
  | write (j : Nat) (io : VteLioSync.State) (placed : Nat)
  | lower
  | exited
  | killed

inductive ReaderPc
  | start
  | opening
  | raise
  | wait
  | head
  | read (io : VteLioSync.State)
  | output
  | done

inductive Report
  | writeCount (w j : Nat) (nb : Int)
  | readFailed (nb : Int)
  | partialRead (nb : Int)
  | dataError (j : Nat)
  | dataErrors (error : Nat)
deriving DecidableEq

structure State where
  writer : Nat → WriterPc
  reader : ReaderPc
  sem0 : Nat
  sem1 : Nat
  Nchildcomplete : Nat
  pipe : List Byte
  i : Int
  count : Int
  error : Nat
  empty_read : Nat
  readbuf : List Byte
  /-- the places and lengths of the stores into `writebuf` -/
  stores : List (Nat × Nat)
  /-- the packets that have been written, by writer and pass -/
  written : List (Nat × Nat)
  /-- what the calls of `lio_read_buffer` have left in `readbuf` -/
  received : List (List Byte)
  reports : List Report

def initial (args : Args) : State where
  writer _ := .opening
  reader := .start
  sem0 := 0
  sem1 := 0
  Nchildcomplete := 0
  pipe := []
  i := 0
  count := 0
  error := 0
  empty_read := 0
  readbuf := List.replicate args.size 0
  stores := [(0, args.size), (args.size - 1, 1)]
  written := []
  received := []
  reports := []

/-- A step of the reader, one of writer `w`, which may place `k` bytes, or a `SIGCHLD`. -/
inductive Act
  | reader
  | writer (w k : Nat)
  | sig_child

def WriterPc.opened : WriterPc → Bool
  | .opening => false
  | _ => true

def WriterPc.ended : WriterPc → Bool
  | .exited => true
  | .killed => true
  | _ => false

section step
variable (args : Args) (pid : Nat → Int) (capacity : Nat)

def hasWriter (s : State) : Bool :=
  (List.range args.num_wrters).any fun w =>
    ((s.writer w).opened || args.unpipe) && !(s.writer w).ended

/-- What the reader does with the value that `lio_read_buffer` has returned. -/
def afterRead (nb : Int) (s : State) : State :=
  if nb < 0 then
    { s with reader := .head, count := s.count - 1, error := s.error + 1, reports := s.reports ++ [.readFailed nb] }
  else if nb = 0 then
    if args.num_wrters ≤ s.Nchildcomplete then { s with reader := .output }
    else { s with reader := .head, count := s.count - 1, empty_read := s.empty_read + 1 }
  else
    let s := { s with received := s.received ++ [s.readbuf] }
    if nb < args.size ∧ args.size ≤ PIPE_BUF then
      { s with
        reader := .head, i := s.i - 1, error := s.error + 1, reports := s.reports ++ [.partialRead nb] }
    else if nb = args.size then
      match mismatch args.size (writebuf args.size) s.readbuf with
      | some j =>
        let s := { s with error := s.error + 1, reports := s.reports ++ [Report.dataError j] }
        if args.exit_error ≠ 0 ∧ args.exit_error = s.error then { s with reader := .output }
        else { s with reader := .head, i := s.i - 1 }
      | none => { s with reader := .head, i := s.i - 1 }
    else { s with reader := .head, i := s.i - 1 }

def read (io : VteLioSync.State) (s : State) : Option State :=
  if s.pipe = [] ∧ hasWriter args s then none
  else
    let bytes := s.pipe.take io.size
    let s := { s with pipe := s.pipe.drop io.size, readbuf := writeAt 0 s.readbuf io.buffer bytes }
    match VteLioSync.round true io (.moved bytes.length) with
    | .running io => some { s with reader := .read io }
    | .returned nb _ => some (afterRead args nb s)

def reader (s : State) : Option State :=
  match s.reader with
  | .start => some { s with reader := if args.unpipe then .raise else .opening }
  | .opening =>
    if (List.range args.num_wrters).any fun w => (s.writer w).opened then some { s with reader := .raise }
    else none
  | .raise => some { s with reader := .wait, sem1 := s.sem1 + args.num_wrters }
  | .wait =>
    let i := int32 (args.num_wrters * args.num_writes)
    if args.num_wrters ≤ s.Nchildcomplete then some { s with reader := .head, i }
    else if args.num_wrters ≤ s.sem0 then
      some { s with reader := .head, i, sem0 := s.sem0 - args.num_wrters }
    else none
  | .head =>
    if (0 < s.i ∨ args.loop) ∧ ¬ (MAX_ERRS ≤ s.error ∨ MAX_EMPTY ≤ s.empty_read) then
      some { s with reader := .read ⟨0, args.size, []⟩, count := s.count + 1 }
    else some { s with reader := .output }
  | .read io => read args io s
  | .output =>
    some { s with
      reader := .done
      reports := s.reports ++ if s.error ≠ 0 then [.dataErrors s.error] else [] }
  | .done => none

/-- The call of `write` returns with `nb` bytes written. -/
def afterWrite (w j : Nat) (io : VteLioSync.State) (nb : Nat) (s : State) : State :=
  match VteLioSync.round false io (.moved nb) with
  | .running io => { s with writer := update s.writer w (.write j io 0) }
  | .returned ret _ =>
    { s with
      writer := update s.writer w (.pass (j + 1))
      written := s.written ++ [(w, j)]
      reports := s.reports ++ if ret ≠ args.size then [.writeCount w j ret] else [] }

/-- Up to `PIPE_BUF` bytes are placed at once. More of them may be placed in parts, after each of which a write
that does not block returns. -/
def write (w k j : Nat) (io : VteLioSync.State) (placed : Nat) (s : State) : Option State :=
  let place (m : Nat) : State :=
    { s with pipe := s.pipe ++ ((packet args.size (pid w) j).drop (io.buffer + placed)).take m }
  match s.reader with
  | .done => some { s with writer := update s.writer w .killed }
  | _ =>
    if io.size ≤ PIPE_BUF then
      if s.pipe.length + io.size ≤ capacity then some (afterWrite args w j io io.size (place io.size)) else none
    else if 0 < k ∧ placed + k ≤ io.size ∧ s.pipe.length + k ≤ capacity then
      if args.nonblocking then some (afterWrite args w j io k (place k))
      else if placed + k = io.size then some (afterWrite args w j io io.size (place k))
      else some { place k with writer := update s.writer w (.write j io (placed + k)) }
    else none

def writer (w k : Nat) (s : State) : Option State :=
  match s.writer w with
  | .opening =>
    match args.unpipe, s.reader with
    | false, .start => none
    | _, _ => some { s with writer := update s.writer w .raise }
  | .raise => some { s with writer := update s.writer w (.pass 0), sem0 := s.sem0 + 1 }
  | .pass j =>
    if j < args.num_writes ∨ args.loop then
      some { s with
        writer := update s.writer w (.write j ⟨0, args.size, []⟩ 0)
        stores := s.stores ++ [(NBPW, NBPW), (0, NBPW)] }
    else some { s with writer := update s.writer w .lower }
  | .write j io placed => write args pid capacity w k j io placed s
  | .lower =>
    if 0 < s.sem1 then some { s with writer := update s.writer w .exited, sem1 := s.sem1 - 1 } else none
  | .exited => none
  | .killed => none

def step (act : Act) (s : State) : Option State :=
  match act with
  | .reader => reader args s
  | .writer w k => if w < args.num_wrters then writer args pid capacity w k s else none
  | .sig_child =>
    if s.Nchildcomplete < (List.range args.num_wrters).countP (fun w => (s.writer w).ended) then
      some { s with Nchildcomplete := s.Nchildcomplete + 1 }
    else none

end step

def packets (args : Args) : List (Nat × Nat) :=
  List.range args.num_wrters ×ˢ List.range args.num_writes

def contents (args : Args) (pid : Nat → Int) (ps : List (Nat × Nat)) : List (List Byte) :=
  ps.map fun p => packet args.size (pid p.1) p.2

def Enough (o : Options) : Prop :=
  o.num_writes * o.size ≤ (adjust o).num_writes * (adjust o).size ∨
    ((adjust o).num_writes : Int) = INT_MAX / o.num_wrters ∨ o.loop

structure Sound (args : Args) (pid : Nat → Int) (s : State) : Prop where
  inside : ∀ store ∈ s.stores, store.1 + store.2 ≤ args.size
  silent : s.reports = []
  once : s.written.Nodup ∧ s.received <+: contents args pid s.written
  /-- The reader ends its loop when it has read the packets of all passes. -/
  all : s.reader = .output ∨ s.reader = .done → s.written.Perm (packets args) ∧ s.received = contents args pid s.written

/-- The words fit into the buffer, the number of packets into an `int`, and a packet is written by one call. -/
structure Suits (o : Options) : Prop where
  words : 2 * NBPW ≤ o.size
  total : o.loop ∨ (PIPE_BUF < o.size ∧ 1 < o.num_wrters) ∨ o.num_wrters * o.num_writes ≤ INT_MAX
  whole : o.size ≤ PIPE_BUF ∨ 1 < o.num_wrters ∨ o.unpipe ∨ o.blocking

section packets
variable {size : Nat}

theorem writebuf_length (some_size : 0 < size) : (writebuf size).length = size := by
  simp only [writebuf, List.length_append, List.length_replicate, List.length_singleton]
  omega

theorem packet_words (words : 2 * NBPW ≤ size) (pid : Int) (j : Nat) : packet size pid j =
    unitBytes (BitVec.ofInt 32 pid) ++ unitBytes (BitVec.ofNat 32 j) ++ (writebuf size).drop (2 * NBPW) := by
  have some_size : 0 < size := Nat.lt_of_lt_of_le (by decide) words
  have whole := writebuf_length some_size
  have fits : (writebuf size).take NBPW ++ [] ++ unitBytes (BitVec.ofNat 32 j) ++
      (writebuf size).drop (NBPW + 4) = writeAt 0 (writebuf size) NBPW (unitBytes (BitVec.ofNat 32 j)) := by
    have inside : NBPW - (writebuf size).length = 0 := by
      rw [whole]
      exact Nat.sub_eq_zero_of_le (Nat.le_trans (by decide) words)
    rw [writeAt, unit_bytes_length, inside, List.replicate_zero]
  have front : ((writebuf size).take NBPW).length = 4 := by
    rw [List.length_take, whole]
    exact Nat.min_eq_left (Nat.le_trans (by decide) words)
  rw [packet, ← fits, writeAt, unit_bytes_length, Nat.zero_sub, List.replicate_zero, List.take_zero,
    List.append_nil, List.append_nil, List.nil_append, List.append_assoc, Nat.zero_add,
    List.drop_left' front, List.append_assoc, List.take_of_length_le]
  · rfl
  · rw [List.length_append, List.length_append, List.length_drop, unit_bytes_length, unit_bytes_length, whole]
    simp only [NBPW] at words ⊢
    omega

theorem packet_length (words : 2 * NBPW ≤ size) (pid : Int) (j : Nat) : (packet size pid j).length = size := by
  rw [packet_words words, List.length_append, List.length_append, List.length_drop, unit_bytes_length,
    unit_bytes_length, writebuf_length (Nat.lt_of_lt_of_le (by decide) words)]
  simp only [NBPW] at words ⊢
  omega

theorem packet_matches (words : 2 * NBPW ≤ size) (pid : Int) (j : Nat) :
    mismatch size (writebuf size) (packet size pid j) = none := by
  rw [mismatch, List.find?_eq_none]
  intro i member
  obtain ⟨behind, _⟩ := List.mem_range'_1.mp member
  have front : (unitBytes (BitVec.ofInt 32 pid) ++ unitBytes (BitVec.ofNat 32 j)).length = 2 * NBPW := by
    rw [List.length_append, unit_bytes_length, unit_bytes_length]
    rfl
  have same : byteAt (packet size pid j) i = byteAt (writebuf size) i := by
    have place : i = 2 * NBPW + (i - 2 * NBPW) := by omega
    rw [packet_words words, byteAt, byteAt, List.getD_eq_getElem?_getD, List.getD_eq_getElem?_getD,
      List.getElem?_append_right (by omega), front, List.getElem?_drop, ← place]
  simp [same]

end packets

end Pipeio
