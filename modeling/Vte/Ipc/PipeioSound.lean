import Vte.Ipc.PipeioRuns

/-!
The reader of pipeio, and pipeio as a whole: on options whose packets hold the two words, whose number of packets
is an `int`, and whose packets are written by one call, no run reports a `FAIL`.
-/
namespace Pipeio
open Bytes CInt Function Machine Packets

section reading
variable {args : Args} {pid : Nat → Int} {capacity : Nat} {s t : State}

theorem write_inside {α : Type} (fill : α) {xs ys : List α} {pos : Nat} (inside : pos + ys.length ≤ xs.length) :
    (writeAt fill xs pos ys).take (pos + ys.length) = xs.take pos ++ ys := by
  have front : (xs.take pos ++ ys).length = pos + ys.length := by
    rw [List.length_append, List.length_take, Nat.min_eq_left (by omega)]
  rw [writeAt, Nat.sub_eq_zero_of_le (by omega), List.replicate_zero, List.append_nil, List.take_left' front]

theorem write_to_end {α : Type} (fill : α) {xs ys : List α} {pos : Nat} (ends : pos + ys.length = xs.length) :
    writeAt fill xs pos ys = xs.take pos ++ ys := by
  rw [← write_inside fill (Nat.le_of_eq ends), List.take_of_length_le]
  rw [write_at_length]
  omega

theorem inv_piece (inv : Inv args pid s) {io : VteLioSync.State} (place : s.reader = .read io)
    (large : ¬ args.size ≤ PIPE_BUF) (short : s.pipe.length < io.size) {moves : List (Nat × Nat)} :
    Inv args pid { s with
      pipe := []
      readbuf := writeAt 0 s.readbuf io.buffer s.pipe
      reader := .read ⟨io.buffer + s.pipe.length, io.size - s.pipe.length, moves⟩ } := by
  obtain ⟨whole, _, _⟩ := inv.stream.io io place
  have length := inv.stream.readbuf
  refine ⟨inv.written, ⟨?_, inv.stream.sized, ?_, fun other same => ?_⟩, inv.counted, ?_,
    ⟨inv.calm.silent, inv.calm.error, inv.calm.empty_read, inv.calm.inside⟩⟩
  · have stream := inv.stream.bytes
    rw [buffered, place] at stream
    rw [← stream]
    simp only [buffered, List.append_nil]
    rw [write_inside 0 (by omega)]
  · dsimp only
    rw [write_at_length]
    omega
  · cases same
    dsimp only
    exact ⟨by omega, by omega, fun small => absurd small large⟩
  · have reader := inv.reader
    simp only [ReaderOk, place] at reader ⊢
    exact reader

def complete (s : State) (io : VteLioSync.State) : State :=
  let readbuf := s.readbuf.take io.buffer ++ s.pipe.take io.size
  { s with
    reader := .head, pipe := s.pipe.drop io.size, readbuf, received := s.received ++ [readbuf], i := s.i - 1 }

theorem inv_complete (inv : Inv args pid s) {io : VteLioSync.State} (place : s.reader = .read io)
    (enough : io.size ≤ s.pipe.length) : Inv args pid (complete s io) := by
  obtain ⟨whole, _, _⟩ := inv.stream.io io place
  have length := inv.stream.readbuf
  have full : (s.readbuf.take io.buffer ++ s.pipe.take io.size).length = args.size := by
    rw [List.length_append, List.length_take, List.length_take, Nat.min_eq_left (by omega), Nat.min_eq_left enough,
      whole]
  refine ⟨inv.written, ⟨?_, sized_snoc inv.stream.sized full, full, fun _ same => by cases same⟩, inv.counted, ?_,
    ⟨inv.calm.silent, inv.calm.error, inv.calm.empty_read, inv.calm.inside⟩⟩
  · have stream := inv.stream.bytes
    rw [buffered, place] at stream
    simp only [complete, buffered, List.flatten_append, List.flatten_singleton, List.nil_append]
    rw [← stream, List.append_assoc, List.append_assoc, List.take_append_drop]
  · have reader := inv.reader
    simp only [ReaderOk, place] at reader
    refine ⟨reader.1, reader.2.imp id fun both => ?_⟩
    have counter := both.2
    simp only [complete, List.length_append, List.length_singleton]
    omega

theorem after_read (good : Good args) (inv : Inv args pid s) {io : VteLioSync.State} (place : s.reader = .read io)
    (enough : io.size ≤ s.pipe.length) :
    afterRead args io.size { s with
      pipe := s.pipe.drop io.size
      readbuf := s.readbuf.take io.buffer ++ s.pipe.take io.size } = complete s io := by
  obtain ⟨whole, some_left, small⟩ := inv.stream.io io place
  have next := inv_complete inv place enough
  have front := (received_front good next).1
  have member : s.readbuf.take io.buffer ++ s.pipe.take io.size ∈ contents args pid s.written :=
    front.subset (List.mem_append_right _ (List.mem_singleton.mpr rfl))
  obtain ⟨⟨w, j⟩, _, same⟩ := List.mem_map.mp member
  have matching : mismatch args.size (writebuf args.size) (s.readbuf.take io.buffer ++ s.pipe.take io.size) = none := by
    rw [← same]
    exact packet_matches good.words (pid w) j
  have entire : ¬ ((io.size : Int) < args.size ∧ args.size ≤ PIPE_BUF) := by
    rintro ⟨less, fits⟩
    have start := small fits
    omega
  rw [afterRead, if_neg (by omega), if_neg (by omega)]
  dsimp only
  rw [if_neg entire, matching]
  split <;> rfl

theorem inv_read (good : Good args) (inv : Inv args pid s) {io : VteLioSync.State} (place : s.reader = .read io)
    (stepped : read args io s = some t) : Inv args pid t := by
  obtain ⟨whole, some_left, small⟩ := inv.stream.io io place
  have length := inv.stream.readbuf
  have filled : s.pipe ≠ [] := by
    intro empty
    rw [read, if_pos ⟨empty, open_writer good inv place empty⟩] at stepped
    cases stepped
  have some_bytes := List.length_pos_iff.mpr filled
  rw [read, if_neg fun waits => filled waits.1] at stepped
  simp only [List.length_take] at stepped
  by_cases enough : io.size ≤ s.pipe.length
  · have bytes : (s.pipe.take io.size).length = io.size := by rw [List.length_take, Nat.min_eq_left enough]
    have buffer : writeAt 0 s.readbuf io.buffer (s.pipe.take io.size) =
        s.readbuf.take io.buffer ++ s.pipe.take io.size := write_to_end 0 (by omega)
    have returned : VteLioSync.round true io (.moved (min io.size s.pipe.length)) =
        .returned io.size (io.moves ++ [(io.buffer, io.size)]) := by
      rw [Nat.min_eq_left enough, VteLioSync.round]
      simp only [Nat.min_self, true_and]
      rw [if_neg (by omega), if_neg (by simp)]
    rw [returned, buffer] at stepped
    simp only [after_read good inv place enough, Option.some.injEq] at stepped
    exact stepped ▸ inv_complete inv place enough
  · have large : ¬ args.size ≤ PIPE_BUF := by
      intro fits
      have start := small fits
      have packet := pipe_whole good inv fits filled
      omega
    have running : VteLioSync.round true io (.moved (min io.size s.pipe.length)) =
        .running ⟨io.buffer + s.pipe.length, io.size - s.pipe.length, io.moves ++ [(io.buffer, s.pipe.length)]⟩ := by
      rw [Nat.min_eq_right (by omega), VteLioSync.round]
      simp only [Nat.min_eq_left (by omega : s.pipe.length ≤ io.size), true_and]
      rw [if_neg (by omega), if_pos (by omega)]
    rw [running] at stepped
    simp only [List.take_of_length_le (by omega : s.pipe.length ≤ io.size),
      List.drop_of_length_le (by omega : s.pipe.length ≤ io.size), Option.some.injEq] at stepped
    exact stepped ▸ inv_piece inv place large (by omega)

theorem inv_turn (inv : Inv args pid s) (i count : Int) {reader : ReaderPc}
    (before : buffered s = []) (after : buffered { s with reader } = [])
    (io : ∀ io, reader = .read io →
      io.buffer + io.size = args.size ∧ 0 < io.size ∧ (args.size ≤ PIPE_BUF → io.buffer = 0))
    (ok : ReaderOk args { s with reader, i }) : Inv args pid { s with reader, i, count } := by
  refine ⟨inv.written, ⟨?_, inv.stream.sized, inv.stream.readbuf, io⟩, inv.counted, ok,
    ⟨inv.calm.silent, inv.calm.error, inv.calm.empty_read, inv.calm.inside⟩⟩
  have stream := inv.stream.bytes
  rw [before] at stream
  have same : buffered { s with reader, i, count } = [] := after
  rw [same]
  exact stream

theorem all_raised {writer : Nat → WriterPc} {sem0 Nchildcomplete : Nat}
    (counted : Counted args writer sem0 Nchildcomplete)
    (waited : args.num_wrters ≤ Nchildcomplete ∨ args.num_wrters ≤ sem0) : Raised args writer := by
  have raised : args.num_wrters ≤ (List.range args.num_wrters).countP fun w => (writer w).raised := by
    rcases waited with ended | sem
    · refine Nat.le_trans (Nat.le_trans ended counted.ended) (List.countP_mono_left fun w _ done => ?_)
      cases here : writer w with
      | opening | raise => simp [here, WriterPc.ended] at done
      | pass | write | lower | exited | killed => rfl
    · exact Nat.le_trans sem counted.raised
  have length : (List.range args.num_wrters).length = args.num_wrters := List.length_range
  have all := List.countP_eq_length.mp
    (Nat.le_antisymm List.countP_le_length (Nat.le_trans (Nat.le_of_eq length) raised))
  exact fun w inside => all w (List.mem_range.mpr inside)

theorem inv_reader (good : Good args) (inv : Inv args pid s) (stepped : reader args s = some t) :
    Inv args pid t := by
  have ok := inv.reader
  cases place : s.reader with
  | done => simp [reader, place] at stepped
  | start =>
    simp only [ReaderOk, place] at ok
    simp only [reader, place] at stepped
    obtain rfl := Option.some.inj stepped
    have start : buffered s = [] := by rw [buffered, place]
    cases args.unpipe
    · exact inv_turn inv s.i s.count start rfl (by simp) ok
    · exact inv_turn inv s.i s.count start rfl (by simp) ok
  | opening =>
    simp only [ReaderOk, place] at ok
    simp only [reader, place] at stepped
    split at stepped
    · obtain rfl := Option.some.inj stepped
      exact inv_turn inv s.i s.count (by rw [buffered, place]) rfl (by simp) ok
    · cases stepped
  | raise =>
    simp only [ReaderOk, place] at ok
    simp only [reader, place] at stepped
    obtain rfl := Option.some.inj stepped
    have turned : Inv args pid { s with reader := .wait } :=
      inv_turn inv s.i s.count (by rw [buffered, place]) rfl (by simp) ok
    exact inv_sems turned _ _ inv.counted
  | wait =>
    simp only [ReaderOk, place] at ok
    have counter : args.loop = true ∨
        int32 (args.num_wrters * args.num_writes) + s.received.length = args.num_wrters * args.num_writes := by
      refine good.total.imp id fun fits => ?_
      have bound : args.num_wrters * args.num_writes < 2147483648 := Nat.lt_of_le_of_lt fits (by decide)
      rw [← Int.natCast_mul, int32_small (by omega) (by omega), ok, List.length_nil]
      omega
    simp only [reader, place] at stepped
    generalize int32 (args.num_wrters * args.num_writes) = i at counter stepped
    have turned (waited : args.num_wrters ≤ s.Nchildcomplete ∨ args.num_wrters ≤ s.sem0) :
        Inv args pid { s with reader := .head, i } :=
      inv_turn inv _ s.count (by rw [buffered, place]) rfl (by simp)
        ⟨all_raised inv.counted waited, counter⟩
    split at stepped
    · rename_i waited
      exact Option.some.inj stepped ▸ turned (.inl waited)
    · split at stepped
      · rename_i waited
        obtain rfl := Option.some.inj stepped
        exact inv_sems (turned (.inr waited)) _ s.sem1
          ⟨Nat.le_trans (Nat.sub_le _ _) inv.counted.raised, inv.counted.ended⟩
      · cases stepped
  | head =>
    simp only [ReaderOk, place] at ok
    have no_errors : ¬ (MAX_ERRS ≤ s.error ∨ MAX_EMPTY ≤ s.empty_read) := by
      rw [inv.calm.error, inv.calm.empty_read]
      decide
    simp only [reader, place] at stepped
    split at stepped
    · rename_i more
      obtain rfl := Option.some.inj stepped
      have some_size : 0 < args.size := Nat.lt_of_lt_of_le (by decide) good.words
      refine inv_turn inv s.i _ (by rw [buffered, place]) rfl (fun io same => ?_) ⟨ok.1, ?_⟩
      · cases same
        exact ⟨Nat.zero_add _, some_size, fun _ => rfl⟩
      · rcases more.1 with positive | loop
        · exact ok.2.imp id fun counter => ⟨positive, counter⟩
        · exact .inl loop
    · rename_i last
      obtain rfl := Option.some.inj stepped
      have ended : ¬ (0 < s.i ∨ args.loop = true) := fun more => last ⟨more, no_errors⟩
      rw [not_or, Bool.not_eq_true] at ended
      have counter := ok.2.resolve_left (by simp [ended.2])
      have low := received_length good inv
      have high := written_length inv.written ended.2
      refine inv_turn inv s.i s.count (by rw [buffered, place]) rfl (by simp) ⟨ended.2, ?_⟩
      dsimp only
      rw [← Int.natCast_mul] at counter
      omega
  | read io =>
    simp only [reader, place] at stepped
    exact inv_read good inv place stepped
  | output =>
    simp only [ReaderOk, place] at ok
    simp only [reader, place, inv.calm.error, ne_eq, not_true_eq_false, if_false, List.append_nil] at stepped
    obtain rfl := Option.some.inj stepped
    have turned : Inv args pid { s with reader := .done } :=
      inv_turn inv s.i s.count (by rw [buffered, place]) rfl (by simp) ok
    have calm := inv.calm.error
    rw [← calm]
    exact turned

theorem inv_step (good : Good args) (act : Act) (s t : State) (inv : Inv args pid s)
    (stepped : step args pid capacity act s = some t) : Inv args pid t := by
  cases act with
  | reader => exact inv_reader good inv stepped
  | writer w k =>
    simp only [step] at stepped
    split at stepped
    · rename_i inside
      exact inv_writer good inv inside stepped
    · cases stepped
  | sig_child =>
    simp only [step] at stepped
    split at stepped
    · rename_i some_ended
      obtain rfl := Option.some.inj stepped
      exact inv_sems inv s.sem0 s.sem1 ⟨inv.counted.raised, some_ended⟩
    · cases stepped

theorem inv_initial (good : Good args) : Inv args pid (initial args) := by
  have some_size : 0 < args.size := Nat.lt_of_lt_of_le (by decide) good.words
  refine ⟨⟨fun _ => trivial, fun w j => ?_, List.nodup_nil⟩,
    ⟨rfl, fun _ member => (by cases member), List.length_replicate, fun _ same => by cases same⟩,
    ⟨Nat.zero_le _, Nat.zero_le _⟩, rfl, ⟨rfl, rfl, rfl, fun store member => ?_⟩⟩
  · simp [initial, sent]
  · simp only [initial, List.mem_cons, List.not_mem_nil, or_false] at member
    rcases member with rfl | rfl <;> dsimp only <;> omega

theorem sound_run (good : Good args) {acts : List Act}
    (ran : run (step args pid capacity) acts (initial args) = some t) : Sound args pid t := by
  have inv := run_invariant (inv_step good) (inv_initial good) ran
  refine ⟨inv.calm.inside, inv.calm.silent, ⟨inv.written.nodup, (received_front good inv).1⟩, fun ended => ?_⟩
  have reader := inv.reader
  have all : args.loop = false ∧ t.received.length = args.num_wrters * args.num_writes := by
    rcases ended with place | place <;> simpa only [ReaderOk, place] using reader
  exact all_received good inv all.1 (Nat.le_of_eq all.2.symm)

end reading

section options
variable {o : Options}

def broken (o : Options) : Int := (o.num_writes * o.size + PIPE_BUF - 1) / PIPE_BUF

theorem adjust_broken (large : PIPE_BUF < o.size) (many : 1 < o.num_wrters) (ends : o.loop = false) :
    (adjust o).num_writes = (min (broken o) (INT_MAX / o.num_wrters)).toNat := by
  simp [adjust, large, many, ends, broken]

theorem adjust_kept (kept : ¬ (PIPE_BUF < o.size ∧ 1 < o.num_wrters)) :
    (adjust o).size = o.size.toNat ∧ (adjust o).num_writes = o.num_writes.toNat := by
  refine ⟨if_neg kept, if_neg fun all => kept ⟨all.1, all.2.1⟩⟩

theorem broken_nonneg (accepted : Accepted o) : 0 ≤ broken o ∧ (0 : Int) ≤ INT_MAX / o.num_wrters := by
  obtain ⟨⟨some_size, _⟩, ⟨some_writer, _⟩, ⟨some_writes, _⟩, _⟩ := accepted
  have product : 0 ≤ o.num_writes * o.size := Int.mul_nonneg some_writes (Int.le_of_lt some_size)
  refine ⟨Int.ediv_nonneg ?_ (Int.natCast_nonneg _), Int.ediv_nonneg (Int.natCast_nonneg _) (Int.le_of_lt some_writer)⟩
  simp only [PIPE_BUF]
  omega

theorem enough (accepted : Accepted o) : Enough o := by
  obtain ⟨first, second⟩ := broken_nonneg accepted
  obtain ⟨⟨some_size, _⟩, _, ⟨some_writes, _⟩, _⟩ := accepted
  by_cases endless : o.loop = true
  · exact .inr (.inr endless)
  · rw [Bool.not_eq_true] at endless
    by_cases large : (PIPE_BUF : Int) < o.size ∧ 1 < o.num_wrters
    · have writes := adjust_broken large.1 large.2 endless
      have size : (adjust o).size = PIPE_BUF := if_pos large
      rcases Int.le_total (broken o) (INT_MAX / o.num_wrters) with below | capped
      · left
        rw [Int.min_eq_left below] at writes
        rw [writes, size, Int.toNat_of_nonneg first]
        simp only [broken, PIPE_BUF]
        omega
      · right
        left
        rw [Int.min_eq_right capped] at writes
        rw [writes, Int.toNat_of_nonneg second]
    · left
      obtain ⟨size, writes⟩ := adjust_kept large
      rw [size, writes, Int.toNat_of_nonneg some_writes, Int.toNat_of_nonneg (Int.le_of_lt some_size)]

theorem good_total (accepted : Accepted o) (suits : Suits o) : (adjust o).loop = true ∨
    (adjust o).num_wrters * (adjust o).num_writes ≤ INT_MAX := by
  obtain ⟨first, second⟩ := broken_nonneg accepted
  obtain ⟨_, ⟨some_writer, _⟩, ⟨some_writes, _⟩, _⟩ := accepted
  refine or_iff_not_imp_left.mpr fun endless => ?_
  have few := suits.total.resolve_left endless
  have writers : ((adjust o).num_wrters : Int) = o.num_wrters := Int.toNat_of_nonneg (Int.le_of_lt some_writer)
  rw [← Int.ofNat_le, Int.natCast_mul, writers]
  by_cases large : (PIPE_BUF : Int) < o.size ∧ 1 < o.num_wrters
  · rw [adjust_broken large.1 large.2 (by simpa [adjust] using endless), Int.toNat_of_nonneg (Int.le_min.mpr ⟨first, second⟩)]
    calc o.num_wrters * min (broken o) (INT_MAX / o.num_wrters)
        ≤ o.num_wrters * (INT_MAX / o.num_wrters) :=
          Int.mul_le_mul_of_nonneg_left (Int.min_le_right _ _) (Int.le_of_lt some_writer)
      _ ≤ INT_MAX := Int.mul_ediv_self_le (Int.ne_of_gt some_writer)
  · rw [(adjust_kept large).2, Int.toNat_of_nonneg some_writes]
    exact few.resolve_left large

theorem good_adjust (accepted : Accepted o) (suits : Suits o) : Good (adjust o) := by
  have total := good_total accepted suits
  obtain ⟨⟨some_size, _⟩, ⟨some_writer, _⟩, _⟩ := accepted
  obtain ⟨words, _, whole⟩ := suits
  refine ⟨by simp only [adjust]; omega, ?_, total, ?_⟩
  · by_cases large : (PIPE_BUF : Int) < o.size ∧ 1 < o.num_wrters
    · have size : (adjust o).size = PIPE_BUF := if_pos large
      rw [size]
      decide
    · rw [(adjust_kept large).1]
      omega
  · by_cases large : (PIPE_BUF : Int) < o.size ∧ 1 < o.num_wrters
    · have size : (adjust o).size = PIPE_BUF := if_pos large
      exact .inl (Nat.le_of_eq size)
    · rw [(adjust_kept large).1]
      rcases whole with small | many | waits
      · left
        omega
      · left
        omega
      · by_cases small : o.size ≤ PIPE_BUF
        · left
          omega
        · right
          refine ⟨by simp only [adjust]; omega, ?_⟩
          rcases waits with unpipe | blocking
          · simp [adjust, unpipe]
          · simp [adjust, blocking]

/-- The data asked for is written or the cap is reached; and on such options nothing is stored outside `writebuf`,
nothing is reported, and what is received are the packets written, each once. -/
theorem pipeio_sound (accepted : Accepted o) (suits : Suits o) (pid : Nat → Int) (capacity : Nat) {acts : List Act}
    {s : State} (ran : run (step (adjust o) pid capacity) acts (initial (adjust o)) = some s) :
    Enough o ∧ Sound (adjust o) pid s :=
  ⟨enough accepted, sound_run (good_adjust accepted suits) ran⟩

def oneWord : Options := ⟨8, 1, 1, 1, false, true, false⟩

def toTheEnd : List Act :=
  [.writer 0 0, .writer 0 0, .writer 0 0, .reader, .reader, .reader, .reader, .writer 0 0, .reader, .reader, .reader]

theorem pipeio_sound_one : ∃ s,
    run (step (adjust oneWord) (fun _ => 42) 4096) toTheEnd (initial (adjust oneWord)) = some s ∧
      Enough oneWord ∧ Sound (adjust oneWord) (fun _ => 42) s := by
  have ends : (run (step (adjust oneWord) (fun _ => 42) 4096) toTheEnd (initial (adjust oneWord))).isSome := by
    decide +kernel
  obtain ⟨s, ran⟩ := Option.isSome_iff_exists.mp ends
  exact ⟨s, ran, pipeio_sound (by decide) ⟨by decide, by decide, by decide⟩ (fun _ => 42) 4096 ran⟩

/-- Packets of four bytes are accepted, and the second word is stored behind the end of `writebuf`. -/
theorem word_outside : Accepted ⟨4, 1, 1, 1, false, true, false⟩ ∧ ∃ acts s,
    run (step (adjust ⟨4, 1, 1, 1, false, true, false⟩) (fun _ => 42) 4096) acts
      (initial (adjust ⟨4, 1, 1, 1, false, true, false⟩)) = some s ∧
      ¬ Sound (adjust ⟨4, 1, 1, 1, false, true, false⟩) (fun _ => 42) s := by
  refine ⟨by decide, [.writer 0 0, .writer 0 0, .writer 0 0], _, rfl, fun sound => ?_⟩
  exact absurd (sound.inside (NBPW, NBPW) (by decide)) (by decide)

end options

end Pipeio
