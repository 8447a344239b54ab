import Mathlib.Algebra.Order.Ring.Nat
import Vte.Base.CInt
import Vte.Fs.GrowfilesCheck

/-!
`bytes_consumed` of growfiles.c, the counter that the option -B is compared with, for all files of a
process. One file is open at a time; opening another one keeps the program's globals.
-/
namespace VteGrowfiles
open Bytes CInt Machine Patterned

structure Files where
  /-- the file that is open, and the globals -/
  state : State
  /-- the files that are not open -/
  others : List (List Byte)

def Files.total (w : Files) : Nat := w.state.file.length + (w.others.map List.length).sum

inductive Move where
  | act (act : Act)
  /-- the open file is closed, and another one opened -/
  | next (k : Nat) (flags : OpenFlags)

/-- A step on the files; the counter is an `int`. -/
def moveStep (o : Opts) : Move → Files → Option Files
  | .act act, w => do
    let s ← step o act w.state
    some { w with state := { s with bytesConsumed := int32 s.bytesConsumed } }
  | .next k flags, w => do
    let file ← w.others[k]?
    let s ← step o (.openFile flags) { w.state with file }
    some { state := s, others := w.others.set k w.state.file }

/-- The first of `numFiles` empty files is open. -/
def initialFiles (flags : OpenFlags) (buffer : List Byte) (numFiles : Nat) : Files where
  state := initial flags buffer
  others := List.replicate (numFiles - 1) []

/-- `pwrite`, behind which the file offset is where it was. -/
def IoType.positioned : IoType → Bool
  | .syncp => true
  | _ => false

/-- A write of `n` bytes at `woffset` is counted right: one that moves the file offset, or is taken to,
    when it reaches the end of the file; one with `pwrite` when the file offset or `n` is the new
    size; one of no bytes when it starts at the end. -/
def WriteCounted (o : Opts) (n woffset : Nat) (s : State) : Prop :=
  let fsize := s.file.length
  let pos := if s.append then s.pos else woffset
  if n = 0 then (if o.ioType.fudged then woffset else pos) = fsize
  else if o.ioType.positioned then max pos n = max fsize (woffset + n)
  else fsize ≤ woffset + n

/-- Growth by a seek: at the end of the file, where `O_APPEND` puts the byte, it grows by one. -/
def LseekCounted (size : Int) (s : State) : Prop := if s.append then size = 1 else 0 ≤ size

def GrowCounted (o : Opts) (sizeDraw seekDraw : Nat) (s : State) : Prop :=
  0 < o.grow → ∀ size ∈ growSize o sizeDraw,
    if o.growByLseek then LseekCounted size s
    else WriteCounted o size.toNat (writeOffset o size seekDraw s).toNat s

def Counted (o : Opts) : Act → State → Prop
  | .openFile flags, s => flags.trunc = true → s.file = []
  | .growfile sizeDraw seekDraw _ _, s => GrowCounted o sizeDraw seekDraw s
  | .shrinkfile _, s => due o.truncInter (s.shrinkCnt + 1) = true → s.pos = s.file.length
  | .checkWrite _, _ => True
  | .checkFile _, _ => True

def MoveCounted (o : Opts) : Move → Files → Prop
  | .act act, w => Counted o act w.state
  | .next k flags, w => ∀ file ∈ w.others[k]?, flags.trunc = true → file = []

section instances
variable (o : Opts)

instance (n woffset : Nat) (s : State) : Decidable (WriteCounted o n woffset s) :=
  inferInstanceAs (Decidable (
    if n = 0 then (if o.ioType.fudged then woffset else if s.append then s.pos else woffset) = s.file.length
    else if o.ioType.positioned then
      max (if s.append then s.pos else woffset) n = max s.file.length (woffset + n)
    else s.file.length ≤ woffset + n))

instance (size : Int) (s : State) : Decidable (LseekCounted size s) :=
  inferInstanceAs (Decidable (if s.append then size = 1 else 0 ≤ size))

instance (sizeDraw seekDraw : Nat) (s : State) : Decidable (GrowCounted o sizeDraw seekDraw s) :=
  inferInstanceAs (Decidable (0 < o.grow → ∀ size ∈ growSize o sizeDraw,
    if o.growByLseek then LseekCounted size s
    else WriteCounted o size.toNat (writeOffset o size seekDraw s).toNat s))

instance (act : Act) (s : State) : Decidable (Counted o act s) :=
  match act with
  | .openFile flags => inferInstanceAs (Decidable (flags.trunc = true → s.file = []))
  | .growfile sizeDraw seekDraw _ _ => inferInstanceAs (Decidable (GrowCounted o sizeDraw seekDraw s))
  | .shrinkfile _ =>
    inferInstanceAs (Decidable (due o.truncInter (s.shrinkCnt + 1) = true → s.pos = s.file.length))
  | .checkWrite _ => isTrue trivial
  | .checkFile _ => isTrue trivial

instance (move : Move) (w : Files) : Decidable (MoveCounted o move w) :=
  match move with
  | .act act => inferInstanceAs (Decidable (Counted o act w.state))
  | .next k flags => inferInstanceAs (Decidable (∀ file ∈ w.others[k]?, flags.trunc = true → file = []))

end instances

section steps
variable {o : Opts} {s t : State}

def Agrees (s t : State) : Prop :=
  t.bytesConsumed - s.bytesConsumed = (t.file.length : Int) - s.file.length

theorem unchanged_agrees (file : t.file = s.file) (counter : t.bytesConsumed = s.bytesConsumed) :
    Agrees s t := by
  rw [Agrees, file, counter]
  omega

theorem end_counted (offTmp woffset n : Nat) :
    (if offTmp ≠ woffset + n then offTmp - n else woffset) + n = max offTmp n := by
  split <;> omega

theorem offset_behind (kind : IoType) (draw : IoDraw) (pos woffset n : Nat) :
    (if kind.fudged then woffset + n else (kind.method draw).after pos woffset n) =
      if n = 0 then (if kind.fudged then woffset else pos)
      else if kind.positioned then pos else woffset + n := by
  cases kind with
  | sync => simp [IoType.fudged, IoType.positioned, IoType.method, Io.after]
  | syncv => simp [IoType.fudged, IoType.positioned, IoType.method, Io.after]
  | syncp => simp [IoType.fudged, IoType.positioned, IoType.method, Io.after]
  | _ =>
    by_cases empty : n = 0
    · simp [IoType.fudged, empty]
    · simp [IoType.fudged, IoType.positioned, empty]

theorem write_agrees_iff {n woffset : Nat} {rand : Nat → Nat} {draw : IoDraw}
    (grown : growByWrite o n woffset rand (o.ioType.method draw) s = some t) :
    Agrees s t ↔ WriteCounted o n woffset s := by
  rw [growByWrite] at grown
  split at grown
  · rename_i defined
    obtain rfl := Option.some.inj grown
    have length : (if n = 0 then s.file
        else writeAt 0 s.file woffset (o.pattern.gen rand s.buffer n woffset)).length =
          if n = 0 then s.file.length else max s.file.length (woffset + n) := by
      split
      · rfl
      · rw [write_at_length, gen_length _ _ defined.1]
    simp only [Agrees, length, WriteCounted, offset_behind]
    generalize (if s.append then s.pos else woffset) = pos
    by_cases empty : n = 0
    · subst empty
      simp only [if_true]
      have ends := end_counted (if o.ioType.fudged then woffset else pos) woffset 0
      omega
    · simp only [empty, if_false]
      cases o.ioType.positioned with
      | true =>
        have ends := end_counted pos woffset n
        simp only [if_true] at ends ⊢
        omega
      | false =>
        have ends := end_counted (woffset + n) woffset n
        simp only [Bool.false_eq_true, if_false] at ends ⊢
        omega
  · cases grown

theorem lseek_agrees_iff {size : Int} {io : Io} (grown : growByLseek size io s = some t) :
    Agrees s t ↔ LseekCounted size s := by
  rw [growByLseek] at grown
  simp only at grown
  split at grown
  · rename_i defined
    obtain rfl := Option.some.inj grown
    simp only [Agrees, LseekCounted, write_at_length, List.length_singleton]
    by_cases append : s.append = true
    · simp only [append, if_true]
      omega
    · simp only [append, Bool.false_eq_true, if_false]
      omega
  · cases grown

theorem grow_agrees_iff {sizeDraw seekDraw : Nat} {rand : Nat → Nat} {draw : IoDraw}
    (grown : growfile o sizeDraw seekDraw rand (o.ioType.method draw) s = some t) :
    Agrees s t ↔ GrowCounted o sizeDraw seekDraw s := by
  rw [growfile] at grown
  by_cases idle : o.grow ≤ 0
  · rw [if_pos idle] at grown
    obtain rfl := Option.some.inj grown
    exact iff_of_true (unchanged_agrees rfl rfl) fun some_size => absurd some_size (by omega)
  · rw [if_neg idle] at grown
    have some_size : 0 < o.grow := by omega
    cases sized : growSize o sizeDraw with
    | none =>
      simp only [sized] at grown
      obtain rfl := Option.some.inj grown
      refine iff_of_true (unchanged_agrees rfl rfl) fun _ size found => ?_
      rw [sized] at found
      cases found
    | some size =>
      simp only [sized] at grown
      have counted : GrowCounted o sizeDraw seekDraw s ↔
          if o.growByLseek then LseekCounted size s
          else WriteCounted o size.toNat (writeOffset o size seekDraw s).toNat s := by
        simp [GrowCounted, some_size, sized]
      rw [counted]
      split at grown
      · rename_i by_lseek
        rw [if_pos by_lseek]
        exact lseek_agrees_iff grown
      · rename_i by_write
        rw [if_neg by_write]
        split at grown
        · exact write_agrees_iff grown
        · cases grown

theorem shrink_agrees_iff {draw : Nat} (shrunk : shrinkfile o draw s = some t) :
    Agrees s t ↔ Counted o (.shrinkfile draw) s := by
  rw [shrinkfile] at shrunk
  simp only at shrunk
  split at shrunk
  · rename_i time
    split at shrunk
    · rename_i defined
      obtain rfl := Option.some.inj shrunk
      simp only [Agrees, resize_length, Counted]
      rw [Int.toNat_of_nonneg (by simpa using defined)]
      constructor
      · intro agrees _
        omega
      · intro counted
        have here := counted time
        omega
    · cases shrunk
  · rename_i early
    obtain rfl := Option.some.inj shrunk
    exact iff_of_true (unchanged_agrees rfl rfl) fun time => absurd time early

theorem check_write_keeps {io : Io} (done : checkWrite o io s = some t) :
    t.file = s.file ∧ t.bytesConsumed = s.bytesConsumed := by
  rw [checkWrite] at done
  simp only at done
  split at done
  · rw [checkLast] at done
    split at done
    · obtain rfl := Option.some.inj done
      exact ⟨rfl, rfl⟩
    · cases done
  · obtain rfl := Option.some.inj done
    exact ⟨rfl, rfl⟩

theorem check_file_keeps (o : Opts) (ios : Nat → Io) (s : State) :
    (checkFile o ios s).file = s.file ∧ (checkFile o ios s).bytesConsumed = s.bytesConsumed := by
  rw [checkFile]
  simp only
  split <;> exact ⟨rfl, rfl⟩

theorem step_agrees_iff {act : Act} (stepped : step o act s = some t) :
    Agrees s t ↔ Counted o act s := by
  cases act with
  | openFile flags =>
    rw [step] at stepped
    split at stepped
    · obtain rfl := Option.some.inj stepped
      cases truncates : flags.trunc with
      | true => simp [Agrees, Counted, truncates, eq_comm, ← List.length_eq_zero_iff]
      | false => exact iff_of_true (unchanged_agrees rfl rfl) fun trunc => absurd trunc (by simp [truncates])
    · cases stepped
  | growfile sizeDraw seekDraw rand draw => exact grow_agrees_iff stepped
  | shrinkfile draw => exact shrink_agrees_iff stepped
  | checkWrite draw =>
    obtain ⟨file, counter⟩ := check_write_keeps stepped
    exact iff_of_true (unchanged_agrees file counter) trivial
  | checkFile draws =>
    rw [step] at stepped
    obtain rfl := Option.some.inj stepped
    obtain ⟨file, counter⟩ := check_file_keeps o (fun k => o.ioType.method (draws k)) s
    exact iff_of_true (unchanged_agrees file counter) trivial

theorem open_keeps {flags : OpenFlags} (opened : step o (.openFile flags) s = some t)
    (counted : flags.trunc = true → s.file = []) :
    t.file = s.file ∧ t.bytesConsumed = s.bytesConsumed := by
  rw [step] at opened
  split at opened
  · obtain rfl := Option.some.inj opened
    refine ⟨?_, rfl⟩
    simp only
    split
    · rename_i truncates
      exact (counted truncates).symm
    · rfl
  · cases opened

end steps

theorem sum_set {xs : List (List Byte)} {k : Nat} {old : List Byte} (found : xs[k]? = some old)
    (new : List Byte) :
    ((xs.set k new).map List.length).sum + old.length = (xs.map List.length).sum + new.length := by
  induction xs generalizing k with
  | nil => cases found
  | cons x xs ih =>
    cases k with
    | zero =>
      obtain rfl := Option.some.inj found
      simp only [List.set_cons_zero, List.map_cons, List.sum_cons]
      omega
    | succ k =>
      have rest := ih found
      simp only [List.set_cons_succ, List.map_cons, List.sum_cons]
      omega

section runs
variable {o : Opts} {w u : Files}

/-- The counter is the sum of the sizes, as an `int`. -/
def CountsTotal (w : Files) : Prop := w.state.bytesConsumed = int32 w.total

theorem move_counts (move : Move) (w u : Files) (counts : CountsTotal w)
    (counted : MoveCounted o move w) (stepped : moveStep o move w = some u) : CountsTotal u := by
  cases move with
  | act act =>
    obtain ⟨s, taken, same⟩ := Option.bind_eq_some_iff.mp stepped
    obtain rfl := Option.some.inj same
    have agrees := (step_agrees_iff taken).mpr counted
    have total : s.bytesConsumed =
        int32 w.total + (((s.file.length + (w.others.map List.length).sum : Nat) : Int) - w.total) := by
      rw [Agrees, counts] at agrees
      rw [Files.total] at agrees ⊢
      omega
    change int32 s.bytesConsumed = int32 ((s.file.length + (w.others.map List.length).sum : Nat) : Int)
    rw [total, int32, int32, int32, Int.bmod_add_bmod]
    congr 1
    omega
  | next k flags =>
    obtain ⟨file, found, rest⟩ := Option.bind_eq_some_iff.mp stepped
    obtain ⟨s, taken, same⟩ := Option.bind_eq_some_iff.mp rest
    obtain rfl := Option.some.inj same
    obtain ⟨kept, same⟩ := open_keeps taken (counted file found)
    change s.file = file at kept
    have sum := sum_set found w.state.file
    have total : s.file.length + ((w.others.set k w.state.file).map List.length).sum = w.total := by
      rw [kept, Files.total]
      omega
    rw [CountsTotal, Files.total, total, same]
    exact counts

theorem initial_counts (flags : OpenFlags) (buffer : List Byte) (numFiles : Nat) :
    CountsTotal (initialFiles flags buffer numFiles) := by
  have none : (initialFiles flags buffer numFiles).total = 0 := by
    simp [initialFiles, initial, Files.total]
  rw [CountsTotal, none]
  rfl

theorem int32_exact_iff (total : Nat) : int32 total = total ↔ total ≤ 2147483647 := by
  constructor
  · intro exact_
    have range : int32 total < 2147483648 := Int.bmod_lt (by decide)
    omega
  · intro fits
    exact int32_small (by omega) (by omega)

/-- In a run whose steps meet the condition the counter is the sum of the sizes as long as that is
    an `int`. -/
theorem consumed_is_total (o : Opts) (flags : OpenFlags) (buffer : List Byte) (numFiles : Nat)
    (moves : List Move) (w : Files)
    (along : Along (moveStep o) (MoveCounted o) moves (initialFiles flags buffer numFiles))
    (ran : run (moveStep o) moves (initialFiles flags buffer numFiles) = some w) :
    w.state.bytesConsumed = w.total ↔ w.total ≤ 2147483647 := by
  have counts : CountsTotal w := run_along move_counts (initial_counts flags buffer numFiles) along ran
  rw [counts]
  exact int32_exact_iff w.total

/-- Four bytes at a time, with a seek into the file before each write: `-g 4 -R 0--1`. -/
def seeksInside : Opts where
  pattern := .zeros
  growIncr := 4
  truncIncr := 4096
  truncInter := 0
  writeCheckInter := 1
  fileCheckInter := 0
  randSize := false
  minSize := 1
  maxSize := 5000
  multSize := 1
  randLseek := true
  minLseek := 0
  maxLseek := lskEof
  growByLseek := false
  ioType := .sync
  openFlags := some { append := false, trunc := false }

theorem consumed_is_total_two_files :
    ∃ w, run (moveStep seeksInside)
      [.act (.growfile 0 0 id ⟨true, 0⟩), .next 0 { append := false, trunc := false },
        .act (.growfile 0 0 id ⟨true, 0⟩)]
      (initialFiles { append := false, trunc := false } [0, 0, 0, 0] 2) = some w ∧
      (w.state.bytesConsumed = w.total ↔ w.total ≤ 2147483647) :=
  ⟨_, rfl, consumed_is_total seeksInside { append := false, trunc := false } [0, 0, 0, 0] 2
    [.act (.growfile 0 0 id ⟨true, 0⟩), .next 0 { append := false, trunc := false },
      .act (.growfile 0 0 id ⟨true, 0⟩)] _ (by decide) rfl⟩

/-- Writes at 0, at 4 and again at 0: the last one takes four bytes off the counter. -/
theorem rewrite_is_subtracted :
    ¬ ∀ (o : Opts) (flags : OpenFlags) (buffer : List Byte) (numFiles : Nat) (moves : List Move)
      (w : Files), run (moveStep o) moves (initialFiles flags buffer numFiles) = some w →
        w.state.bytesConsumed = w.total := by
  intro always
  have counted := always seeksInside { append := false, trunc := false } [0, 0, 0, 0] 1
    [.act (.growfile 0 0 id ⟨true, 0⟩), .act (.growfile 0 4 id ⟨true, 0⟩), .act (.growfile 0 0 id ⟨true, 0⟩)] _ rfl
  exact absurd counted (by decide)

end runs
end VteGrowfiles
