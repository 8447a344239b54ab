import Vte.Base.CInt
import Vte.Base.FileBlocks
import Vte.Base.Machine

/-!
io/ltp-aiodio/aiodio_sparse.c: `aiodio_sparse`, which keeps a number of asynchronous writes in flight and reuses
a request at the next offset as soon as it is done.
-/
namespace AiodioSparse
open CInt FileBlocks Machine

/-- The arguments that the model reads; a multiple of 512 each where the test does direct I/O. -/
structure Args where
  writesize : Nat
  filesize : Nat
  num_aio : Nat
deriving DecidableEq

/-- A write as it was handed over. Nothing changes an iocb while it is in flight, so what `iocbp` holds when
its event comes is this. -/
structure Request where
  iocb : Nat
  offset : Nat
  nbytes : Nat
deriving DecidableEq

def Request.piece (r : Request) : Piece := (r.offset, r.nbytes)

/-- Where the function is: before the queue is set up, at the first submission, at the wait of the first
loop, at the submission of the request whose event has come, at the wait of the second loop. -/
inductive Pc
  | setup
  | submit
  | fill
  | resubmit (iocb : Nat)
  | drain
  | returned (value : Int)
deriving DecidableEq

structure State where
  pc : Pc
  num_aio : Nat
  offset : Nat
  aio_inflight : Int
  /-- accepted by `io_submit`, and no event for it has been returned -/
  inflight : List Request
  /-- the writes whose events have been returned -/
  reaped : List Request
  /-- a call has failed or a write has gone wrong -/
  error : Bool
deriving DecidableEq

def initial : State := ⟨.setup, 0, 0, 0, [], [], false⟩

inductive Act
  /-- the allocations, `open` and `ftruncate`: all of them succeed, or one does not -/
  | prepare (succeeds : Bool)
  /-- what `io_submit` returns -/
  | submit (w : Int)
  /-- `io_getevents` returns the event of one request in flight; the others stay -/
  | getevents (r : Request) (others : List Request) (res res2 : Int)
  /-- `io_getevents` returns something else than 1 -/
  | interrupted
deriving DecidableEq

section step
variable (args : Args)

/-- The number of requests; the product is an `int`. -/
def requests : Nat :=
  if int32 (args.num_aio * args.writesize) > args.filesize then args.filesize / args.writesize
  else args.num_aio

def batch (num_aio : Nat) : List Request :=
  (List.range num_aio).map fun i => ⟨i, i * args.writesize, args.writesize⟩

def drained (s : State) : State :=
  if s.aio_inflight > 0 then { s with pc := .drain } else { s with pc := .returned 0 }

def looped (s : State) : State :=
  if s.offset < args.filesize then { s with pc := .fill } else drained s

def reap (r : Request) (others : List Request) (s : State) : State :=
  { s with aio_inflight := s.aio_inflight - 1, inflight := others, reaped := s.reaped ++ [r] }

/-- One call and what follows up to the next one; none where the call cannot have this result. A queue for
no requests is not set up, and then `io_submit` fails. -/
def step (act : Act) (s : State) : Option State :=
  match s.pc, act with
  | .setup, .prepare true =>
    let num_aio := requests args
    some { s with pc := .submit, num_aio, offset := num_aio * args.writesize }
  | .setup, .prepare false => some { s with pc := .returned 1, error := true }
  | .submit, .submit w =>
    if w < 0 then some { s with pc := .returned 1, error := true }
    else if 1 ≤ w ∧ w ≤ s.num_aio then
      some (looped args { s with
        inflight := (batch args s.num_aio).take w.toNat, aio_inflight := s.num_aio })
    else none
  | .fill, .getevents r others res res2 =>
    if s.inflight.isPerm (r :: others) then
      let s := reap r others s
      if res2 ≠ 0 ∨ res ≠ r.nbytes then some (drained { s with error := true })
      else some { s with pc := .resubmit r.iocb }
    else none
  | .fill, .interrupted => some (drained { s with error := true })
  | .resubmit iocb, .submit w =>
    let request : Request := ⟨iocb, s.offset, args.writesize⟩
    let s := { s with offset := s.offset + args.writesize }
    if w < 0 then some (drained { s with error := true })
    else if w = 1 then
      some (looped args { s with
        inflight := s.inflight ++ [request], aio_inflight := s.aio_inflight + 1 })
    else none
  | .drain, .getevents r others res res2 =>
    if s.inflight.isPerm (r :: others) then
      let s := reap r others s
      some (drained { s with error := s.error || decide (res2 ≠ 0 ∨ res ≠ r.nbytes) })
    else none
  | .drain, .interrupted => some { s with pc := .returned 0, error := true }
  | _, _ => none

end step

def Waits (s : State) : Prop := s.pc = .fill ∨ s.pc = .drain

def Started (s : State) : Prop := s.pc ≠ .setup ∧ s.pc ≠ .submit ∧ s.pc ≠ .returned 1

structure Sound (args : Args) (s : State) : Prop where
  waits : Waits s → s.inflight ≠ []
  counts : Started s → s.aio_inflight = s.inflight.length
  inside : ∀ r ∈ s.inflight ++ s.reaped, r.offset + r.nbytes ≤ args.filesize
  complete : s.pc = .returned 0 → s.error = false →
    s.inflight = [] ∧ ∀ b < args.filesize, (s.reaped.map Request.piece).countP (covers b) = 1

/-- The product of the two `int`s is not mistaken for one that is small enough, and the writes fill the file
without a rest, unless the file is shorter than one of them. -/
structure Suits (args : Args) : Prop where
  product : args.num_aio * args.writesize ≤ args.filesize ∨
    (args.filesize : Int) < int32 (args.num_aio * args.writesize)
  divides : args.filesize < args.writesize ∨ args.writesize ∣ args.filesize

/-- The first `io_submit` takes all the requests, or fails. -/
def AllTaken (act : Act) (s : State) : Prop :=
  match act with
  | .submit w => s.pc = .submit → 0 ≤ w → w = s.num_aio
  | _ => True

instance (act : Act) (s : State) : Decidable (AllTaken act s) :=
  match act with
  | .submit _ => inferInstanceAs (Decidable (_ → _ → _))
  | .prepare _ => .isTrue trivial
  | .getevents _ _ _ _ => .isTrue trivial
  | .interrupted => .isTrue trivial

theorem submit_cases {args : Args} {w : Int} {s t : State} (place : s.pc = .submit)
    (stepped : step args (.submit w) s = some t) :
    t = { s with pc := .returned 1, error := true } ∨ (1 ≤ w ∧ w ≤ s.num_aio) ∧ t = looped args { s with
        inflight := (batch args s.num_aio).take w.toNat, aio_inflight := s.num_aio } := by
  simp only [step, place] at stepped
  split at stepped
  · exact .inl (Option.some.inj stepped).symm
  · split at stepped
    · rename_i some_taken
      exact .inr ⟨some_taken, (Option.some.inj stepped).symm⟩
    · cases stepped

structure Running (args : Args) (s : State) : Prop where
  divides : args.writesize ∣ args.filesize
  counts : s.aio_inflight = s.inflight.length
  inside : ∀ r ∈ s.inflight ++ s.reaped, r.offset + r.nbytes ≤ args.filesize
  /-- The blocks before the offset are being written, or have been. -/
  pieces : s.error = false → ∃ k, s.offset = k * args.writesize ∧ s.offset ≤ args.filesize ∧
    ((s.inflight ++ s.reaped).map Request.piece).Perm (blocks args.writesize args.filesize k)

def Fits (args : Args) (s : State) : Prop :=
  match s.pc with
  | .setup => s.inflight = [] ∧ s.reaped = [] ∧ s.error = false
  | .submit => s.inflight = [] ∧ s.reaped = [] ∧ s.num_aio = requests args ∧
      s.offset = s.num_aio * args.writesize ∧ s.error = false
  | .fill => Running args s ∧ s.offset < args.filesize ∧ s.inflight ≠ [] ∧ s.error = false
  | .resubmit _ => Running args s ∧ s.offset < args.filesize ∧ s.error = false
  | .drain => Running args s ∧ s.inflight ≠ [] ∧ (s.error = false → args.filesize ≤ s.offset)
  | .returned value => (value = 1 ∧ s.inflight = [] ∧ s.reaped = []) ∨ (value = 0 ∧ Running args s ∧
        (s.error = false → s.inflight = [] ∧ args.filesize ≤ s.offset))

section keeps
variable {args : Args} {s : State} {r : Request} {others : List Request}

theorem running_at (pc : Pc) (running : Running args s) : Running args { s with pc } :=
  ⟨running.divides, running.counts, running.inside, running.pieces⟩

theorem running_reap (running : Running args s) (event : s.inflight.Perm (r :: others)) :
    Running args (reap r others s) := by
  have moved : (others ++ (s.reaped ++ [r])).Perm (s.inflight ++ s.reaped) := by
    refine List.Perm.trans ?_ (event.symm.append_right s.reaped)
    rw [← List.append_assoc]
    exact List.perm_append_singleton r (others ++ s.reaped)
  refine ⟨running.divides, ?_, ?_, ?_⟩
  · have one_less := event.length_eq
    rw [List.length_cons] at one_less
    have counts := running.counts
    simp only [reap]
    omega
  · intro r' member
    exact running.inside r' (moved.mem_iff.mp member)
  · intro clean
    obtain ⟨k, offset, low, pieces⟩ := running.pieces clean
    exact ⟨k, offset, low, (moved.map Request.piece).trans pieces⟩

theorem running_error (running : Running args s) : Running args { s with error := true } :=
  ⟨running.divides, running.counts, running.inside, fun clean => Bool.noConfusion clean⟩

theorem fits_drained (running : Running args s) (past : s.error = false → args.filesize ≤ s.offset) :
    Fits args (drained s) := by
  have counts := running.counts
  rw [drained]
  split
  · rename_i some_left
    refine ⟨⟨running.divides, running.counts, running.inside, running.pieces⟩, fun none_left => ?_, past⟩
    dsimp only at none_left
    rw [none_left, List.length_nil] at counts
    omega
  · rename_i none_left
    refine Or.inr ⟨rfl, ⟨running.divides, running.counts, running.inside, running.pieces⟩, fun clean => ⟨?_, past clean⟩⟩
    exact List.length_eq_zero_iff.mp (show s.inflight.length = 0 by omega)

theorem fits_looped (running : Running args s) (clean : s.error = false) (some_left : s.inflight ≠ []) :
    Fits args (looped args s) := by
  rw [looped]
  split
  · rename_i more
    exact ⟨⟨running.divides, running.counts, running.inside, running.pieces⟩, more, some_left, clean⟩
  · rename_i past
    exact fits_drained running fun _ => Nat.not_lt.mp past

theorem requests_low (suits : Suits args) : requests args * args.writesize ≤ args.filesize := by
  rw [requests]
  split
  · exact Nat.div_mul_le_self _ _
  · rename_i small
    rcases suits.product with low | large
    · exact low
    · exact absurd large (by simpa using small)

theorem requests_fit (suits : Suits args) (some_request : 0 < requests args) :
    args.writesize ∣ args.filesize := by
  rcases suits.divides with short | divides
  · have low := requests_low suits
    have one := Nat.le_mul_of_pos_left args.writesize some_request
    omega
  · exact divides

theorem batch_pieces (suits : Suits args) :
    (batch args (requests args)).map Request.piece = blocks args.writesize args.filesize (requests args) := by
  rw [batch, List.map_map, blocks]
  apply List.map_congr_left
  intro i low
  have next : (i + 1) * args.writesize ≤ requests args * args.writesize :=
    Nat.mul_le_mul_right _ (List.mem_range.mp low)
  have limit := requests_low suits
  rw [Nat.succ_mul] at next
  rw [block_whole (by omega)]
  rfl

theorem pieces_inside {rs : List Request} {k : Nat}
    (pieces : (rs.map Request.piece).Perm (blocks args.writesize args.filesize k))
    (low : k * args.writesize ≤ args.filesize) : ∀ r ∈ rs, r.offset + r.nbytes ≤ args.filesize := by
  intro r member
  have piece := pieces.mem_iff.mp (List.mem_map.mpr ⟨r, member, rfl⟩)
  rw [blocks, List.mem_map] at piece
  obtain ⟨i, before, same⟩ := piece
  have limit : i * args.writesize ≤ args.filesize :=
    Nat.le_trans (Nat.mul_le_mul_right _ (Nat.le_of_lt (List.mem_range.mp before))) low
  have ends := block_end args.writesize args.filesize i limit
  rwa [same] at ends

theorem running_submitted (suits : Suits args) (some_request : 0 < requests args) (nums : s.num_aio = requests args)
    (offset : s.offset = s.num_aio * args.writesize) (fresh : s.reaped = []) :
    Running args { s with inflight := batch args s.num_aio, aio_inflight := s.num_aio } := by
  have low := requests_low suits
  have pieces := batch_pieces suits
  have all : (batch args s.num_aio ++ s.reaped).map Request.piece =
      blocks args.writesize args.filesize (requests args) := by
    rw [fresh, List.append_nil, nums, pieces]
  refine ⟨requests_fit suits some_request, ?_, pieces_inside (List.Perm.of_eq all) low, fun _ => ?_⟩
  · simp [batch]
  · rw [nums] at offset
    exact ⟨requests args, offset, Nat.le_trans (Nat.le_of_eq offset) low, List.Perm.of_eq all⟩

theorem running_resubmitted (running : Running args s) (clean : s.error = false) (more : s.offset < args.filesize) (iocb : Nat) :
    Running args { s with
      offset := s.offset + args.writesize, aio_inflight := s.aio_inflight + 1,
      inflight := s.inflight ++ [⟨iocb, s.offset, args.writesize⟩] } := by
  obtain ⟨k, offset, _, pieces⟩ := running.pieces clean
  obtain ⟨m, whole⟩ := running.divides
  rw [Nat.mul_comm] at whole
  have next : (k + 1) * args.writesize ≤ m * args.writesize := by
    refine Nat.mul_le_mul_right _ (Nat.lt_of_mul_lt_mul_right (a := args.writesize) ?_)
    rw [← whole, ← offset]
    exact more
  rw [← whole] at next
  have room : k * args.writesize + args.writesize ≤ args.filesize := by rwa [← Nat.succ_mul]
  have all : ((s.inflight ++ [(⟨iocb, s.offset, args.writesize⟩ : Request)] ++ s.reaped).map
      Request.piece).Perm (blocks args.writesize args.filesize (k + 1)) := by
    rw [blocks_succ, block_whole room, ← offset, List.append_assoc, List.map_append, List.map_append]
    refine List.Perm.trans ?_ (pieces.append_right _)
    rw [List.map_append, List.append_assoc]
    exact List.perm_append_comm.append_left _
  refine ⟨running.divides, ?_, pieces_inside all next, fun _ => ⟨k + 1, ?_, ?_, all⟩⟩
  · have counts := running.counts
    simp only [List.length_append, List.length_singleton]
    omega
  · rw [Nat.succ_mul, ← offset]
  · rw [offset]
    exact room

theorem fits_submit {w : Int} {t : State} (suits : Suits args) (place : s.pc = .submit)
    (fits : Fits args s) (taken : AllTaken (.submit w) s)
    (stepped : step args (.submit w) s = some t) : Fits args t := by
  simp only [Fits, place] at fits
  obtain ⟨none_yet, none_done, nums, offset, clean⟩ := fits
  rcases submit_cases place stepped with rfl | ⟨some_taken, rfl⟩
  · exact Or.inl ⟨rfl, none_yet, none_done⟩
  · have all : w = s.num_aio := taken place (by omega)
    have length : (batch args s.num_aio).length = s.num_aio := by simp [batch]
    have whole : (batch args s.num_aio).take w.toNat = batch args s.num_aio :=
      List.take_of_length_le (by omega)
    rw [whole]
    have some_request : 0 < requests args := by omega
    refine fits_looped (running_at s.pc
      (running_submitted suits some_request nums offset none_done)) clean ?_
    intro empty
    dsimp only at empty
    rw [empty, List.length_nil] at length
    omega

theorem fits_fill {t : State} {act : Act} (place : s.pc = .fill)
    (fits : Fits args s) (stepped : step args act s = some t) : Fits args t := by
  simp only [Fits, place] at fits
  obtain ⟨running, more, some_left, clean⟩ := fits
  cases act with
  | prepare _ => simp [step, place] at stepped
  | submit _ => simp [step, place] at stepped
  | getevents r others res res2 =>
    simp only [step, place] at stepped
    split at stepped
    · rename_i event
      have reaped := running_reap running (List.isPerm_iff.mp event)
      split at stepped
      · obtain rfl := Option.some.inj stepped
        exact fits_drained (running_error reaped) fun clean => Bool.noConfusion clean
      · obtain rfl := Option.some.inj stepped
        exact ⟨⟨reaped.divides, reaped.counts, reaped.inside, reaped.pieces⟩, more, clean⟩
    · cases stepped
  | interrupted =>
    simp only [step, place] at stepped
    obtain rfl := Option.some.inj stepped
    exact fits_drained (running_at .fill (running_error running)) fun clean => Bool.noConfusion clean

theorem fits_resubmit {t : State} {act : Act} {iocb : Nat} (place : s.pc = .resubmit iocb)
    (fits : Fits args s) (stepped : step args act s = some t) : Fits args t := by
  simp only [Fits, place] at fits
  obtain ⟨running, more, clean⟩ := fits
  cases act with
  | prepare _ => simp [step, place] at stepped
  | getevents _ _ _ _ => simp [step, place] at stepped
  | interrupted => simp [step, place] at stepped
  | submit w =>
    simp only [step, place] at stepped
    split at stepped
    · obtain rfl := Option.some.inj stepped
      refine fits_drained ?_ fun clean => Bool.noConfusion clean
      exact ⟨running.divides, running.counts, running.inside, fun clean => Bool.noConfusion clean⟩
    · split at stepped
      · obtain rfl := Option.some.inj stepped
        exact fits_looped (running_at (.resubmit iocb) (running_resubmitted running clean more iocb))
          clean (by simp)
      · cases stepped

theorem fits_drain {t : State} {act : Act} (place : s.pc = .drain)
    (fits : Fits args s) (stepped : step args act s = some t) : Fits args t := by
  simp only [Fits, place] at fits
  obtain ⟨running, some_left, past⟩ := fits
  cases act with
  | prepare _ => simp [step, place] at stepped
  | submit _ => simp [step, place] at stepped
  | getevents r others res res2 =>
    simp only [step, place] at stepped
    split at stepped
    · rename_i event
      obtain rfl := Option.some.inj stepped
      have reaped := running_reap running (List.isPerm_iff.mp event)
      refine fits_drained ⟨reaped.divides, reaped.counts, reaped.inside, fun clean => ?_⟩ fun clean => ?_
      · exact reaped.pieces (Bool.or_eq_false_iff.mp clean).1
      · exact past (Bool.or_eq_false_iff.mp clean).1
    · cases stepped
  | interrupted =>
    simp only [step, place] at stepped
    obtain rfl := Option.some.inj stepped
    exact Or.inr ⟨rfl, running_at _ (running_error running), fun clean => Bool.noConfusion clean⟩

theorem fits_step (suits : Suits args) (act : Act) (s t : State) (fits : Fits args s)
    (taken : AllTaken act s) (stepped : step args act s = some t) : Fits args t := by
  cases place : s.pc with
  | setup =>
    simp only [Fits, place] at fits
    cases act with
    | prepare succeeds =>
      cases succeeds
      · simp only [step, place] at stepped
        obtain rfl := Option.some.inj stepped
        exact Or.inl ⟨rfl, fits.1, fits.2.1⟩
      · simp only [step, place] at stepped
        obtain rfl := Option.some.inj stepped
        simp only [Fits, fits, and_self]
    | submit _ => simp [step, place] at stepped
    | getevents _ _ _ _ => simp [step, place] at stepped
    | interrupted => simp [step, place] at stepped
  | submit =>
    cases act with
    | submit w => exact fits_submit suits place fits taken stepped
    | prepare _ => simp [step, place] at stepped
    | getevents _ _ _ _ => simp [step, place] at stepped
    | interrupted => simp [step, place] at stepped
  | fill => exact fits_fill place fits stepped
  | resubmit iocb => exact fits_resubmit place fits stepped
  | drain => exact fits_drain place fits stepped
  | returned value => simp [step, place] at stepped

theorem fits_sound (some_size : 0 < args.writesize) (fits : Fits args s) : Sound args s := by
  cases place : s.pc with
  | setup =>
    simp only [Fits, place] at fits
    exact ⟨by simp [Waits, place], by simp [Started, place], by simp [fits], by simp [place]⟩
  | submit =>
    simp only [Fits, place] at fits
    exact ⟨by simp [Waits, place], by simp [Started, place], by simp [fits], by simp [place]⟩
  | fill =>
    simp only [Fits, place] at fits
    exact ⟨fun _ => fits.2.2.1, fun _ => fits.1.counts, fits.1.inside, by simp [place]⟩
  | resubmit iocb =>
    simp only [Fits, place] at fits
    exact ⟨by simp [Waits, place], fun _ => fits.1.counts, fits.1.inside, by simp [place]⟩
  | drain =>
    simp only [Fits, place] at fits
    exact ⟨fun _ => fits.2.1, fun _ => fits.1.counts, fits.1.inside, by simp [place]⟩
  | returned value =>
    simp only [Fits, place] at fits
    rcases fits with ⟨rfl, none_left, none_done⟩ | ⟨rfl, running, ended⟩
    · exact ⟨by simp [Waits, place], by simp [Started, place], by simp [none_left, none_done],
        by simp [place]⟩
    · refine ⟨by simp [Waits, place], fun _ => running.counts, running.inside, fun _ clean => ?_⟩
      obtain ⟨none_left, past⟩ := ended clean
      obtain ⟨k, offset, low, pieces⟩ := running.pieces clean
      have whole : howmany args.filesize args.writesize = k :=
        howmany_exact some_size (offset ▸ Nat.le_antisymm low past)
      rw [none_left, List.nil_append] at pieces
      refine ⟨none_left, fun b inside => ?_⟩
      rw [pieces.countP_eq, ← whole, blocks_once some_size inside]

theorem fits_initial : Fits args initial := by simp [Fits, initial]

/-- Every state of a run is sound when the product and the sizes suit and the first submission takes all. -/
theorem aiodio_sparse_sound (suits : Suits args) (some_size : 0 < args.writesize) {acts : List Act}
    {t : State} (taken : Along (step args) AllTaken acts initial)
    (ran : run (step args) acts initial = some t) : Sound args t :=
  fits_sound some_size
    (run_along (fits_step suits) fits_initial taken ran)

end keeps

section runs

def twoBlocks : Args := ⟨512, 1024, 1⟩

def twoWrites : List Act :=
  [.prepare true, .submit 1, .getevents ⟨0, 0, 512⟩ [] 512 0, .submit 1, .getevents ⟨0, 512, 512⟩ [] 512 0]

def afterTwo : State := ⟨.returned 0, 1, 1024, 0, [], [⟨0, 0, 512⟩, ⟨0, 512, 512⟩], false⟩

theorem aiodio_sparse_sound_two :
    run (step twoBlocks) twoWrites initial = some afterTwo ∧ Sound twoBlocks afterTwo := by
  have ran : run (step twoBlocks) twoWrites initial = some afterTwo := by decide +kernel
  have taken : Along (step twoBlocks) AllTaken twoWrites initial := by decide +kernel
  exact ⟨ran, aiodio_sparse_sound ⟨by decide, by decide⟩ (by decide) taken ran⟩

/-- Of two requests the first submission takes one: the function waits for the other, which is not in flight. -/
theorem aiodio_sparse_partial : ∃ t, run (step ⟨512, 1024, 2⟩)
      [.prepare true, .submit 1, .getevents ⟨0, 0, 512⟩ [] 512 0] initial = some t ∧
    t.aio_inflight = 1 ∧ t.inflight = [] ∧ ¬ Sound ⟨512, 1024, 2⟩ t := by
  refine ⟨⟨.drain, 2, 1024, 1, [], [⟨0, 0, 512⟩], false⟩, by decide +kernel, rfl, rfl,
    fun sound => ?_⟩
  exact sound.waits (Or.inr rfl) rfl

end runs

end AiodioSparse
