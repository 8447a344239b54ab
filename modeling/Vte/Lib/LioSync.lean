import Mathlib.Algebra.BigOperators.Group.Finset.Basic
import Mathlib.Algebra.Order.Ring.Nat
import Vte.Base.Bytes

/-!
lib/tlibio.c: the loops of `lio_write_buffer` and `lio_read_buffer` around `write` and `read`. The
answers of the kernel to the calls are a schedule; the messages are left out.
-/
namespace VteLioSync
open Bytes

def eintr : Nat := 4
def eagain : Nat := 11

/-- The answer to one call: up to so many bytes, at most those asked for, or -1 with `errno`. -/
inductive Outcome where
  | moved (k : Nat)
  | failed (errno : Nat) (positive : 0 < errno)

/-- `buffer` as an offset, `size`, and the bytes moved: from where in the buffer, and how many. -/
structure State where
  buffer : Nat
  size : Nat
  moves : List (Nat × Nat)

inductive Status where
  | running (s : State)
  | returned (ret : Int) (moves : List (Nat × Nat))

/-- One round of the loop; only `read` returns when nothing was moved. -/
def round (reads : Bool) (s : State) : Outcome → Status
  | .failed errno _ =>
    if errno ≠ eagain ∧ errno ≠ eintr then .returned (-errno) s.moves else .running s
  | .moved k =>
    let ret := min k s.size
    let moves := s.moves ++ [(s.buffer, ret)]
    if reads ∧ ret = 0 then .returned 0 moves
    else if ret ≠ s.size then .running ⟨s.buffer + ret, s.size - ret, moves⟩
    else .returned ret moves

def loop (reads : Bool) (size : Nat) (schedule : Nat → Outcome) : Nat → Status
  | 0 => .running ⟨0, size, []⟩
  | n + 1 =>
    match loop reads size schedule n with
    | .running s => round reads s (schedule n)
    | .returned ret moves => .returned ret moves

def lioWriteBuffer (size : Nat) (schedule : Nat → Outcome) (n : Nat) : Status :=
  loop false size schedule n

def lioReadBuffer (size : Nat) (schedule : Nat → Outcome) (n : Nat) : Status :=
  loop true size schedule n

def Status.moves : Status → List (Nat × Nat)
  | .running s => s.moves
  | .returned _ moves => moves

def total (moves : List (Nat × Nat)) : Nat := (moves.map Prod.snd).sum

def bytesMoved (buffer : List Byte) (moves : List (Nat × Nat)) : List Byte :=
  moves.flatMap fun m => (buffer.drop m.1).take m.2

section outcomes

def Outcome.Retryable : Outcome → Prop
  | .moved _ => False
  | .failed errno _ => errno = eagain ∨ errno = eintr

def Outcome.Fatal : Outcome → Prop
  | .moved _ => False
  | .failed errno _ => errno ≠ eagain ∧ errno ≠ eintr

def Outcome.count : Outcome → Nat
  | .moved k => k
  | .failed _ _ => 0

def Goes (s : State) (o : Outcome) : Prop :=
  o.Retryable ∨ ∃ k, o = .moved k ∧ 0 < k ∧ k < s.size

/-- The documented behaviour of one call under a schedule: the bytes moved are the first of the
    buffer in order; the loop ends unless the kernel keeps giving parts or errors to try again after;
    and the value returned is the number of bytes moved or the error of the last call. -/
structure Right (reads : Bool) (size : Nat) (schedule : Nat → Outcome) : Prop where
  order : ∀ n, ∀ buffer : List Byte, size ≤ buffer.length → bytesMoved buffer (loop reads size schedule n).moves =
      buffer.take (total (loop reads size schedule n).moves)
  bound : ∀ n, total (loop reads size schedule n).moves ≤ size
  ends : (∀ n, ∃ s, loop reads size schedule n = .running s) →
    ∃ start, ∀ t, start ≤ t → ∃ s, loop reads size schedule t = .running s ∧ Goes s (schedule t)
  counted : ∀ n ret moves, loop reads size schedule n = .returned ret moves → 0 ≤ ret → ret = total moves
  failed : ∀ n ret moves, loop reads size schedule n = .returned ret moves → ret < 0 →
    ∃ t errno positive, (∃ s, loop reads size schedule t = .running s) ∧
      loop reads size schedule (t + 1) = .returned ret moves ∧
      schedule t = .failed errno positive ∧ ret = -errno

def offered (schedule : Nat → Outcome) (t : Nat) : Nat :=
  ∑ i ∈ Finset.range t, (schedule i).count

/-- A call whose answer ends the loop, when none before it does: an error, the bytes still missing, or
    the end of the file for `read`. -/
def Stops (reads : Bool) (size : Nat) (schedule : Nat → Outcome) (t : Nat) : Prop :=
  (schedule t).Fatal ∨ ∃ k, schedule t = .moved k ∧ (size ≤ offered schedule t + k ∨ (reads = true ∧ k = 0))

/-- A call that ends the loop with a count is the first that moves anything, and `write` is not
    answered with 0 for ever. -/
structure Whole (reads : Bool) (size : Nat) (schedule : Nat → Outcome) : Prop where
  first : ∀ t, (∀ i, i < t → ¬ Stops reads size schedule i) → Stops reads size schedule t →
    ¬ (schedule t).Fatal → offered schedule t = 0
  nonzero : (∀ t, ¬ Stops reads size schedule t) → ∃ start, ∀ t, start ≤ t → schedule t ≠ .moved 0

end outcomes

section run
variable {reads : Bool} {size : Nat} {schedule : Nat → Outcome}

theorem not_fatal_iff (o : Outcome) : ¬ o.Fatal ↔ o.Retryable ∨ ∃ k, o = .moved k := by
  cases o with
  | moved k => simp [Outcome.Fatal, Outcome.Retryable]
  | failed errno positive =>
    simp only [Outcome.Fatal, Outcome.Retryable, reduceCtorEq, exists_false, or_false]
    omega

theorem total_append (moves : List (Nat × Nat)) (p k : Nat) :
    total (moves ++ [(p, k)]) = total moves + k := by
  simp [total]

structure InOrder (moves : List (Nat × Nat)) (size : Nat) : Prop where
  bytes : ∀ buffer : List Byte, size ≤ buffer.length → bytesMoved buffer moves = buffer.take (total moves)
  bound : total moves ≤ size

theorem in_order_next {moves : List (Nat × Nat)} {k : Nat} (order : InOrder moves size)
    (room : total moves + k ≤ size) : InOrder (moves ++ [(total moves, k)]) size := by
  refine ⟨?_, by rwa [total_append]⟩
  intro buffer long
  have before := order.bytes buffer long
  rw [total_append, List.take_add, ← before, bytesMoved, List.flatMap_append]
  simp [bytesMoved]

/-- The loop after `n` calls of which none has ended it. -/
structure Going (size : Nat) (schedule : Nat → Outcome) (n : Nat) (s : State) : Prop where
  place : s.buffer = offered schedule n
  moved : total s.moves = s.buffer
  left : s.buffer + s.size = size
  order : InOrder s.moves size
  some_left : s.size = 0 → size = 0

theorem offered_next (schedule : Nat → Outcome) (t : Nat) :
    offered schedule (t + 1) = offered schedule t + (schedule t).count :=
  Finset.sum_range_succ _ t

theorem going_start (size : Nat) (schedule : Nat → Outcome) :
    Going size schedule 0 ⟨0, size, []⟩ :=
  ⟨rfl, rfl, Nat.zero_add size, ⟨fun _ _ => rfl, Nat.zero_le size⟩, fun zero => zero⟩

theorem round_cases (reads : Bool) {n : Nat} {s : State} (going : Going size schedule n s) :
    (¬ Stops reads size schedule n ∧ ∃ s', round reads s (schedule n) = .running s' ∧ Going size schedule (n + 1) s') ∨
    (∃ errno positive, schedule n = .failed errno positive ∧ Stops reads size schedule n ∧
      (schedule n).Fatal ∧ round reads s (schedule n) = .returned (-errno) s.moves) ∨
    ∃ ret : Nat, Stops reads size schedule n ∧ ¬ (schedule n).Fatal ∧
      round reads s (schedule n) = .returned ret (s.moves ++ [(s.buffer, ret)]) ∧
      s.buffer + ret ≤ size := by
  obtain ⟨place, moved, left, order, some_left⟩ := going
  have next := offered_next schedule n
  unfold Stops
  cases answer : schedule n with
  | failed errno positive =>
    rw [answer] at next
    by_cases fatal : errno ≠ eagain ∧ errno ≠ eintr
    · refine .inr (.inl ⟨errno, positive, rfl, .inl fatal, fatal, ?_⟩)
      rw [round, if_pos fatal]
    · refine .inl ⟨?_, s, by rw [round, if_neg fatal], by rw [next]; exact place, moved, left, order, some_left⟩
      rintro (stops | ⟨k, same, -⟩)
      · exact fatal stops
      · cases same
  | moved k =>
    rw [answer] at next
    by_cases missing : k < s.size
    · have ret : min k s.size = k := Nat.min_eq_left (by omega)
      by_cases ended : reads = true ∧ k = 0
      · refine .inr (.inr ⟨0, .inr ⟨k, rfl, .inr ended⟩, id, ?_, by omega⟩)
        rw [round, ret, if_pos ended, ended.2]
        rfl
      · refine .inl ⟨?_, ⟨s.buffer + k, s.size - k, s.moves ++ [(s.buffer, k)]⟩, ?_, ?_⟩
        · rintro (stops | ⟨k', same, enough | last⟩)
          · exact stops
          · cases same
            omega
          · cases same
            exact ended last
        · rw [round, ret, if_neg ended, if_pos (by omega)]
        · refine ⟨by rw [next, place]; rfl, by rw [total_append, moved], ?_, ?_, ?_⟩
          · change s.buffer + k + (s.size - k) = size
            omega
          · rw [← moved]
            exact in_order_next order (by omega)
          · intro none_left
            change s.size - k = 0 at none_left
            omega
    · have ret : min k s.size = s.size := Nat.min_eq_right (by omega)
      refine .inr (.inr ⟨s.size, .inr ⟨k, rfl, .inl (by omega)⟩, id, ?_, by omega⟩)
      rw [round, ret]
      by_cases empty : reads = true ∧ s.size = 0
      · rw [if_pos empty, empty.2]
        rfl
      · rw [if_neg empty, if_neg (not_not.mpr rfl)]

theorem loop_going {n : Nat} (before : ∀ i, i < n → ¬ Stops reads size schedule i) :
    ∃ s, loop reads size schedule n = .running s ∧ Going size schedule n s := by
  induction n with
  | zero => exact ⟨_, rfl, going_start size schedule⟩
  | succ n ih =>
    obtain ⟨s, running, going⟩ := ih fun i early => before i (by omega)
    rw [loop, running]
    rcases round_cases reads going with ⟨-, s', result, going'⟩ | stopped | stopped
    · exact ⟨s', result, going'⟩
    · obtain ⟨-, -, -, stops, -, -⟩ := stopped
      exact absurd stops (before n (by omega))
    · obtain ⟨-, stops, -, -, -⟩ := stopped
      exact absurd stops (before n (by omega))

theorem running_unstopped {n : Nat} {s : State} (running : loop reads size schedule n = .running s) :
    ∀ i, i < n → ¬ Stops reads size schedule i := by
  induction n generalizing s with
  | zero => exact fun i early => absurd early (by omega)
  | succ n ih =>
    rw [loop] at running
    cases earlier : loop reads size schedule n with
    | returned ret moves =>
      rw [earlier] at running
      cases running
    | running s' =>
      have before := ih earlier
      obtain ⟨s'', same, going⟩ := loop_going before
      rw [earlier] at same running
      cases same
      rcases round_cases reads going with ⟨goes, -⟩ | stopped | stopped
      · intro i early
        rcases Nat.lt_or_eq_of_le (Nat.le_of_lt_succ early) with less | rfl
        · exact before i less
        · exact goes
      · obtain ⟨_, _, _, -, -, result⟩ := stopped
        change round reads s' (schedule n) = .running s at running
        rw [result] at running
        cases running
      · obtain ⟨_, -, -, result, -⟩ := stopped
        change round reads s' (schedule n) = .running s at running
        rw [result] at running
        cases running

theorem returned_stopped {n : Nat} {ret : Int} {moves : List (Nat × Nat)}
    (returned : loop reads size schedule n = .returned ret moves) :
    ∃ t s, (∀ i, i < t → ¬ Stops reads size schedule i) ∧
      loop reads size schedule t = .running s ∧ Going size schedule t s ∧
      round reads s (schedule t) = .returned ret moves ∧
      loop reads size schedule (t + 1) = .returned ret moves := by
  induction n with
  | zero => cases returned
  | succ n ih =>
    cases earlier : loop reads size schedule n with
    | returned ret' moves' =>
      rw [loop, earlier] at returned
      exact ih (earlier.trans returned)
    | running s =>
      have before := running_unstopped earlier
      obtain ⟨s', same, going⟩ := loop_going before
      rw [earlier] at same
      cases same
      refine ⟨n, s, before, earlier, going, ?_, returned⟩
      rwa [loop, earlier] at returned

theorem moves_in_order (reads : Bool) (size : Nat) (schedule : Nat → Outcome) (n : Nat) :
    InOrder (loop reads size schedule n).moves size := by
  cases here : loop reads size schedule n with
  | running s =>
    obtain ⟨s', same, going⟩ := loop_going (running_unstopped here)
    rw [here] at same
    cases same
    exact going.order
  | returned ret moves =>
    obtain ⟨t, s, -, -, going, result, -⟩ := returned_stopped here
    rcases round_cases reads going with ⟨-, s', goes, -⟩ | stopped | stopped
    · rw [goes] at result
      cases result
    · obtain ⟨_, _, -, -, -, failed⟩ := stopped
      rw [failed] at result
      cases result
      exact going.order
    · obtain ⟨count, -, -, counted, room⟩ := stopped
      rw [counted] at result
      cases result
      have moved := going.moved
      rw [← moved]
      exact in_order_next going.order (by omega)

end run

section main
variable {reads : Bool} {size : Nat} {schedule : Nat → Outcome}

theorem right_whole (right : Right reads size schedule) : Whole reads size schedule := by
  constructor
  · intro t before stops counts
    obtain ⟨s, running, going⟩ := loop_going before
    rcases round_cases reads going with ⟨goes, -⟩ | stopped | stopped
    · exact absurd stops goes
    · obtain ⟨-, -, -, -, fatal, -⟩ := stopped
      exact absurd fatal counts
    · obtain ⟨ret, -, -, result, -⟩ := stopped
      have returned : loop reads size schedule (t + 1) = .returned ret (s.moves ++ [(s.buffer, ret)]) := by
        rw [loop, running]
        exact result
      have all := right.counted (t + 1) _ _ returned (by omega)
      have moved := going.moved
      have place := going.place
      rw [total_append] at all
      omega
  · intro never
    have runs : ∀ n, ∃ s, loop reads size schedule n = .running s := by
      intro n
      obtain ⟨s, running, -⟩ := loop_going (n := n) fun i _ => never i
      exact ⟨s, running⟩
    obtain ⟨start, goes⟩ := right.ends runs
    refine ⟨start, fun t late zero => ?_⟩
    obtain ⟨s, -, retry | ⟨k, moved, positive, -⟩⟩ := goes t late
    · rw [zero] at retry
      exact retry
    · rw [zero] at moved
      cases moved
      omega

theorem whole_right (whole : Whole reads size schedule) : Right reads size schedule := by
  have counted : ∀ n ret moves, loop reads size schedule n = .returned ret moves →
      (∃ t errno positive, (∃ s, loop reads size schedule t = .running s) ∧
        loop reads size schedule (t + 1) = .returned ret moves ∧
        schedule t = .failed errno positive ∧ ret = -errno) ∨ (0 ≤ ret ∧ ret = total moves) := by
    intro n ret moves returned
    obtain ⟨t, s, before, running, going, result, next⟩ := returned_stopped returned
    rcases round_cases reads going with ⟨-, s', goes, -⟩ | stopped | stopped
    · rw [goes] at result
      cases result
    · obtain ⟨errno, positive, answer, -, -, failed⟩ := stopped
      rw [failed] at result
      cases result
      exact .inl ⟨t, errno, positive, ⟨s, running⟩, next, answer, rfl⟩
    · obtain ⟨count, stops, counts, ended, -⟩ := stopped
      rw [ended] at result
      cases result
      have first := whole.first t before stops counts
      have moved := going.moved
      have place := going.place
      refine .inr ⟨by omega, ?_⟩
      rw [total_append]
      omega
  refine ⟨fun n => (moves_in_order reads size schedule n).bytes,
    fun n => (moves_in_order reads size schedule n).bound, ?_, ?_, ?_⟩
  · intro runs
    have never : ∀ t, ¬ Stops reads size schedule t := by
      intro t
      obtain ⟨s, running⟩ := runs (t + 1)
      exact running_unstopped running t (by omega)
    obtain ⟨start, nonzero⟩ := whole.nonzero never
    refine ⟨start, fun t late => ?_⟩
    obtain ⟨s, running, going⟩ := loop_going (n := t) fun i _ => never i
    refine ⟨s, running, ?_⟩
    have goes := never t
    have calm : ¬ (schedule t).Fatal := fun fatal => goes (.inl fatal)
    rcases (not_fatal_iff _).mp calm with retry | ⟨k, moved⟩
    · exact .inl retry
    · refine .inr ⟨k, moved, ?_, ?_⟩
      · by_contra zero
        exact nonzero t late (by rw [moved, show k = 0 by omega])
      · by_contra enough
        have place := going.place
        have left := going.left
        exact goes (.inr ⟨k, moved, .inl (by omega)⟩)
  · intro n ret moves returned positive
    rcases counted n ret moves returned with ⟨t, errno, some_errno, -, -, -, failed⟩ | ⟨-, all⟩
    · omega
    · exact all
  · intro n ret moves returned negative
    rcases counted n ret moves returned with failed | ⟨positive, -⟩
    · exact failed
    · omega

/-- The loops return what was moved, and end, just under the schedules that are whole. -/
theorem lio_sync_right (size : Nat) (schedule : Nat → Outcome) :
    (Right false size schedule ↔ Whole false size schedule) ∧
    (Right true size schedule ↔ Whole true size schedule) :=
  ⟨⟨right_whole, whole_right⟩, ⟨right_whole, whole_right⟩⟩

def twoParts (n : Nat) : Outcome := .moved (if n = 0 then 4 else 6)

def endOfFile (n : Nat) : Outcome := .moved (if n = 0 then 4 else 0)

theorem last_part_returned :
    lioWriteBuffer 10 twoParts 2 = .returned 6 [(0, 4), (4, 6)] ∧ ¬ Right false 10 twoParts ∧
    lioReadBuffer 10 endOfFile 2 = .returned 0 [(0, 4), (4, 0)] ∧ ¬ Right true 10 endOfFile := by
  have wrote : lioWriteBuffer 10 twoParts 2 = .returned 6 [(0, 4), (4, 6)] := rfl
  have read : lioReadBuffer 10 endOfFile 2 = .returned 0 [(0, 4), (4, 0)] := rfl
  refine ⟨wrote, ?_, read, ?_⟩
  · intro right
    exact absurd (right.counted 2 _ _ wrote (by decide)) (by decide)
  · intro right
    exact absurd (right.counted 2 _ _ read (by decide)) (by decide)

end main
end VteLioSync
