import Mathlib.Algebra.Order.BigOperators.Group.Finset
import Vte.Ipc.PipeTestRuns

/-!
pipe_test_02 as a whole: no run on correct pipes stops before the parent reports success, all runs are bounded, and
with `MAXCHILD` children the parent reads past `pid`.
-/
namespace PipeTest
open CInt Function Machine

def correct (args : Args) (room : Nat) (act : Act) (s : State) : Option State :=
  match act with
  | .fault _ _ => none
  | .parent => step args room .parent s
  | .child i => step args room (.child i) s

/-- The steps of the parent from the head of the loop over the packets, with `k` packets to go. -/
def packetSteps (args : Args) (k : Nat) : Nat := k * (args.n + 2) + (3 * args.n + 2)

def parentSteps (args : Args) (s : State) : Nat :=
  match s.parent with
  | .fork => args.n - s.i + 1 + packetSteps args s.num_packets
  | .build => packetSteps args s.num_packets
  | .send => args.n - s.i + 1 + packetSteps args (s.num_packets - 1)
  | .last => 2 * (args.n - s.i) + args.n + 2
  | .answer => 2 * (args.n - s.i) + args.n + 1
  | .wait => args.n - s.i + 1
  | .success => 0
  | .failed => 0

def childSteps (args : Args) : ChildPc → Nat
  | .absent => args.num_packets + 2
  | .reading r _ => args.num_packets + 2 - r
  | .answering _ _ => 1
  | .exited => 0
  | .failed => 0

def rank (args : Args) (s : State) : Nat :=
  parentSteps args s + ∑ j ∈ Finset.range args.n, childSteps args (s.child j)

def Summed (s : State) : Prop :=
  s.data = BitVec.ofNat 8 s.packets_sent ∧ s.cksum_parent = cksum s.packets_sent

/-- What is asked of a state that is reached after the steps `acts` on correct pipes. -/
structure Sound (args : Args) (room : Nat) (acts : List Act) (s : State) : Prop where
  undisturbed : s.parent ≠ .failed ∧ ∀ j, s.child j ≠ .failed
  in_order : ∀ j < args.n, s.received j <+: stream args.num_packets
  running : ∀ j r c, s.child j = .reading r c → r = (s.received j).length ∧ c = cksum r
  checksum : s.cksum_parent = cksum s.packets_sent
  complete : s.parent = .success → s.answered.Perm (List.range args.n) ∧
    ∀ j < args.n, s.child j = .exited ∧ s.received j = stream args.num_packets
  inside : ∀ k ∈ indices args s, k < MAXCHILD
  /-- Some process goes on. -/
  unblocked : s.parent ≠ .success → ∃ act, (correct args room act s).isSome
  bounded : acts.length ≤ rank args (initial args)

def Protocol (args : Args) (room : Nat) : Prop :=
  (∀ acts s, run (correct args room) acts (initial args) = some s → Sound args room acts s) ∧
  ∀ acts s, run (step args room) acts (initial args) = some s → (∃ j, s.child j = .failed) → s.parent ≠ .success

section correct
variable {args : Args} {room : Nat} {s t : State} {act : Act}

theorem correct_step (stepped : correct args room act s = some t) :
    step args room act s = some t ∧ ∀ i contents, act ≠ .fault i contents := by
  cases act with
  | parent => exact ⟨stepped, by simp⟩
  | child i => exact ⟨stepped, by simp⟩
  | fault i contents => cases stepped

theorem correct_cases (stepped : correct args room act s = some t) :
    (act = .parent ∧ parent args room s = some t) ∨ ∃ i, act = .child i ∧ child room i s = some t := by
  obtain ⟨moved, quiet⟩ := correct_step stepped
  obtain ⟨_, _, moved⟩ := step_cases moved
  cases act with
  | parent => exact .inl ⟨rfl, moved⟩
  | child i => exact .inr ⟨i, rfl, moved⟩
  | fault i contents => exact absurd rfl (quiet i contents)

theorem correct_some (vars : Vars args s) (unfinished : s.parent ≠ .success)
    (moves : (parent args room s).isSome ∨ ∃ i, (child room i s).isSome) :
    ∃ act, (correct args room act s).isSome := by
  have runs : ¬ (s.parent = .success ∨ s.parent = .failed) := by
    rintro (success | failed)
    · exact unfinished success
    · simp [Vars, failed] at vars
  rcases moves with moves | ⟨i, moves⟩
  · exact ⟨.parent, by rwa [correct, step, if_neg runs, move]⟩
  · exact ⟨.child i, by rwa [correct, step, if_neg runs, move]⟩

theorem reader_moves {j r : Nat} {c : BitVec 64} (reads : s.child j = .reading r c)
    (filled : s.p2child j ≠ []) : (child room j s).isSome := by
  cases pipe : s.p2child j with
  | nil => exact absurd pipe filled
  | cons packet rest => simp [child, reads, pipe]

theorem write_moves (inv : Inv args s) (some_room : 0 < room) (forked : s.parent ≠ .fork) {j : Nat}
    (inside : j < args.n) (waiting : ¬ Done s j) (before : s.parent ≠ .answer) (after : State) :
    (writeChild room j s after).isSome ∨ (child room j s).isSome := by
  have kid := inv.kids j inside
  rw [write_child kid forked waiting before]
  by_cases fits : (s.p2child j).length < room
  · exact .inl (by rw [if_pos fits]; rfl)
  · obtain ⟨r, c, reads⟩ := kid_reads kid forked waiting before
    refine .inr (reader_moves reads fun empty => fits ?_)
    rw [empty]
    exact some_room

theorem awaited_moves (inv : Inv args s) (some_room : 0 < room) (place : s.parent = .answer)
    (pending : s.p2parent = []) : (child room s.i s).isSome := by
  have vars := inv.vars
  simp only [Vars, place] at vars
  have kid := inv.kids s.i vars.1
  have where_now := kid.place
  have alive := awaited inv place pending
  cases here : s.child s.i with
  | reading r c =>
    rw [here] at where_now
    have length := where_now.1
    have low := where_now.2.1
    have pipe := congrArg List.length kid.pipe
    simp only [count, place, Nat.le_refl, if_true, List.length_append, List.length_take, stream_length,
      Nat.min_self] at pipe
    refine reader_moves here fun empty => ?_
    rw [empty, List.length_nil] at pipe
    omega
  | answering p c => simp [child, here, pending, some_room]
  | absent | exited | failed => simp [here, ChildPc.alive] at alive

theorem ended (inv : Inv args s) (place : s.parent = .wait ∨ s.parent = .success) {j : Nat} (inside : j < args.n) :
    s.child j = .exited ∧ s.received j = stream args.num_packets := by
  have where_now := (inv.kids j inside).place
  have done : Done s j := by rcases place with place | place <;> simp [Done, place]
  have past : s.parent ≠ .fork ∧ s.parent ≠ .answer := by rcases place with place | place <;> simp [place]
  cases here : s.child j with
  | absent =>
    rw [here] at where_now
    exact absurd where_now.1 past.1
  | reading r c =>
    rw [here] at where_now
    exact absurd done where_now.2.2.2.1
  | answering p c =>
    rw [here] at where_now
    exact absurd where_now.2.2.2.1 past.2
  | exited =>
    rw [here] at where_now
    exact ⟨rfl, where_now.1⟩
  | failed =>
    rw [here] at where_now
    exact where_now.elim

theorem goes_on (inv : Inv args s) (some_room : 0 < room) (unfinished : s.parent ≠ .success) :
    ∃ act, (correct args room act s).isSome := by
  have vars := inv.vars
  apply correct_some vars unfinished
  cases place : s.parent with
  | success => exact absurd place unfinished
  | failed => simp [Vars, place] at vars
  | fork =>
    left
    simp only [parent, place]
    split <;> rfl
  | build =>
    left
    simp only [parent, place, Option.isSome_some]
  | send =>
    by_cases more : s.i < args.n
    · have moves := write_moves inv some_room (by simp [place]) more (by simp [Done, place]) (by simp [place])
        { s with i := s.i + 1 }
      have writes : parent args room s = writeChild room s.i s { s with i := s.i + 1 } := by
        simp only [parent, place, if_pos more]
      rw [writes]
      exact moves.imp id fun reads => ⟨_, reads⟩
    · left
      simp only [parent, place, if_neg more, Option.isSome_some]
  | last =>
    by_cases more : s.i < args.n
    · have moves := write_moves inv some_room (by simp [place]) more (by simp [Done, place]) (by simp [place])
        { s with parent := .answer }
      have writes : parent args room s = writeChild room s.i s { s with parent := .answer } := by
        simp only [parent, place, if_pos more]
      rw [writes]
      exact moves.imp id fun reads => ⟨_, reads⟩
    · left
      simp only [parent, place, if_neg more, Option.isSome_some]
  | answer =>
    cases pending : s.p2parent with
    | cons answer rest =>
      left
      simp only [parent, place, pending]
      split <;> rfl
    | nil => exact .inr ⟨_, awaited_moves inv some_room place pending⟩
  | wait =>
    left
    simp only [parent, place]
    split
    · rename_i more
      rw [(ended inv (.inl place) more).1]
      rfl
    · rfl

theorem packet_steps (args : Args) (k : Nat) : packetSteps args (k + 1) = packetSteps args k + (args.n + 2) := by
  rw [packetSteps, packetSteps, Nat.succ_mul]
  omega

theorem loop_steps (args : Args) (s : State) : parentSteps args (packetLoop s) = packetSteps args s.num_packets := by
  rw [packetLoop]
  split
  · rfl
  · rename_i past
    obtain none_left : s.num_packets = 0 := by omega
    simp only [parentSteps, packetSteps, none_left]
    omega

theorem parent_falls (answers : Answers args s) (inv : Inv args s) (stepped : parent args room s = some t) :
    parentSteps args t < parentSteps args s ∧
      ∀ j < args.n, childSteps args (t.child j) ≤ childSteps args (s.child j) := by
  have vars := inv.vars
  cases place : s.parent with
  | success => simp [parent, place] at stepped
  | failed => simp [parent, place] at stepped
  | fork =>
    simp only [Vars, place] at vars
    simp only [parent, place] at stepped
    split at stepped
    · obtain rfl := Option.some.inj stepped
      refine ⟨by simp only [parentSteps, place]; omega, fun j inside => ?_⟩
      by_cases same : j = s.i
      · have absent : s.child s.i = .absent := (answers.fresh place).2 s.i (Nat.le_refl _)
        simp [same, absent, childSteps]
      · simp [same]
    · obtain rfl := Option.some.inj stepped
      refine ⟨?_, fun _ _ => by rw [packetLoop]; split <;> exact Nat.le_refl _⟩
      rw [loop_steps]
      simp only [parentSteps, place]
      omega
  | build =>
    simp only [Vars, place] at vars
    simp only [parent, place] at stepped
    obtain rfl := Option.some.inj stepped
    refine ⟨?_, fun _ _ => Nat.le_refl _⟩
    have next := packet_steps args (s.num_packets - 1)
    rw [Nat.sub_add_cancel vars.2.1] at next
    simp only [parentSteps, place]
    omega
  | send =>
    simp only [Vars, place] at vars
    simp only [parent, place] at stepped
    split at stepped
    · rename_i more
      rw [write_child (inv.kids s.i more) (by simp [place]) (by simp [Done, place]) (by simp [place])] at stepped
      split at stepped
      · obtain rfl := Option.some.inj stepped
        refine ⟨?_, fun _ _ => Nat.le_refl _⟩
        simp only [parentSteps, place]
        omega
      · cases stepped
    · obtain rfl := Option.some.inj stepped
      refine ⟨?_, fun _ _ => by rw [packetLoop]; split <;> exact Nat.le_refl _⟩
      rw [loop_steps]
      simp only [parentSteps, place]
      omega
  | last =>
    simp only [Vars, place] at vars
    simp only [parent, place] at stepped
    split at stepped
    · rename_i more
      rw [write_child (inv.kids s.i more) (by simp [place]) (by simp [Done, place]) (by simp [place])] at stepped
      split at stepped
      · obtain rfl := Option.some.inj stepped
        refine ⟨?_, fun _ _ => Nat.le_refl _⟩
        simp only [parentSteps, place]
        omega
      · cases stepped
    · obtain rfl := Option.some.inj stepped
      refine ⟨?_, fun _ _ => Nat.le_refl _⟩
      simp only [parentSteps, place]
      omega
  | answer =>
    simp only [Vars, place] at vars
    simp only [parent, place] at stepped
    split at stepped
    · split at stepped
      · cases stepped
      · obtain rfl := Option.some.inj stepped
        refine ⟨?_, fun _ _ => Nat.le_refl _⟩
        simp only [parentSteps, place]
        omega
    · split at stepped
      · obtain rfl := Option.some.inj stepped
        refine ⟨?_, fun _ _ => Nat.le_refl _⟩
        simp only [parentSteps, place]
        omega
      · obtain rfl := Option.some.inj stepped
        refine ⟨?_, fun _ _ => Nat.le_refl _⟩
        simp only [parentSteps, place]
        omega
  | wait =>
    simp only [parent, place] at stepped
    split at stepped
    · split at stepped
      · cases stepped
      · obtain rfl := Option.some.inj stepped
        refine ⟨?_, fun _ _ => Nat.le_refl _⟩
        simp only [parentSteps, place]
        omega
    · obtain rfl := Option.some.inj stepped
      refine ⟨?_, fun _ _ => Nat.le_refl _⟩
      simp only [parentSteps, place]
      omega

theorem receive_falls (r : Nat) (c : BitVec 64) (packet : Packet) (low : r ≤ args.num_packets) :
    childSteps args (receive r c packet) < childSteps args (.reading r c) := by
  rw [receive]
  split
  · simp only [childSteps]
    omega
  · split
    · simp only [childSteps]
      omega
    · split
      · simp only [childSteps]
        omega
      · split
        · simp only [childSteps]
          omega
        · simp only [childSteps]
          omega

theorem child_falls (answers : Answers args s) (inv : Inv args s) {i : Nat} (stepped : child room i s = some t) :
    parentSteps args t = parentSteps args s ∧ i < args.n ∧
      ∃ pc, t.child = update s.child i pc ∧ childSteps args pc < childSteps args (s.child i) := by
  cases here : s.child i with
  | absent => simp [child, here] at stepped
  | exited => simp [child, here] at stepped
  | failed => simp [child, here] at stepped
  | reading r c =>
    have inside := answers.created i (by simp [here])
    have where_now := (inv.kids i inside).place
    rw [here] at where_now
    simp only [child, here] at stepped
    split at stepped
    · cases stepped
    · obtain rfl := Option.some.inj stepped
      exact ⟨rfl, inside, _, rfl, receive_falls r c _ where_now.2.1⟩
  | answering p c =>
    have inside := answers.created i (by simp [here])
    simp only [child, here] at stepped
    split at stepped
    · obtain rfl := Option.some.inj stepped
      exact ⟨rfl, inside, _, rfl, Nat.zero_lt_one⟩
    · cases stepped

theorem rank_falls (answers : Answers args s) (inv : Inv args s) (stepped : correct args room act s = some t) :
    rank args t < rank args s := by
  rcases correct_cases stepped with ⟨_, moved⟩ | ⟨i, _, moved⟩
  · obtain ⟨lower, children⟩ := parent_falls answers inv moved
    exact Nat.add_lt_add_of_lt_of_le lower
      (Finset.sum_le_sum fun j member => children j (Finset.mem_range.mp member))
  · obtain ⟨same, inside, pc, children, lower⟩ := child_falls answers inv moved
    rw [rank, rank, same, children]
    refine Nat.add_lt_add_left (Finset.sum_lt_sum (fun j _ => ?_) ⟨i, Finset.mem_range.mpr inside, ?_⟩) _
    · by_cases other : j = i
      · subst other
        simpa using Nat.le_of_lt lower
      · simp [other]
    · simpa using lower

theorem summed_loop (summed : Summed s) : Summed (packetLoop s) := by
  rw [packetLoop]
  split <;> exact summed

theorem summed_step (summed : Summed s) (stepped : correct args room act s = some t) : Summed t := by
  rcases correct_cases stepped with ⟨_, moved⟩ | ⟨i, _, moved⟩
  · cases place : s.parent with
    | build =>
      simp only [parent, place] at moved
      obtain rfl := Option.some.inj moved
      refine ⟨?_, ?_⟩
      · dsimp only
        rw [summed.1]
        exact (BitVec.ofNat_add s.packets_sent 1).symm
      · dsimp only
        rw [summed.1, summed.2]
        rfl
    | fork =>
      simp only [parent, place] at moved
      split at moved
      · exact Option.some.inj moved ▸ summed
      · exact Option.some.inj moved ▸ summed_loop summed
    | send =>
      simp only [parent, place, writeChild] at moved
      split at moved
      · split at moved
        · exact Option.some.inj moved ▸ summed
        · split at moved
          · exact Option.some.inj moved ▸ summed
          · cases moved
      · exact Option.some.inj moved ▸ summed_loop summed
    | last =>
      simp only [parent, place, writeChild] at moved
      split at moved
      · split at moved
        · exact Option.some.inj moved ▸ summed
        · split at moved
          · exact Option.some.inj moved ▸ summed
          · cases moved
      · exact Option.some.inj moved ▸ summed
    | answer =>
      simp only [parent, place] at moved
      split at moved
      · split at moved
        · cases moved
        · exact Option.some.inj moved ▸ summed
      · split at moved
        · exact Option.some.inj moved ▸ summed
        · exact Option.some.inj moved ▸ summed
    | wait =>
      simp only [parent, place] at moved
      split at moved
      · split at moved
        · cases moved
        · exact Option.some.inj moved ▸ summed
      · exact Option.some.inj moved ▸ summed
    | success => simp [parent, place] at moved
    | failed => simp [parent, place] at moved
  · cases here : s.child i with
    | reading r c =>
      simp only [child, here] at moved
      split at moved
      · cases moved
      · exact Option.some.inj moved ▸ summed
    | answering p c =>
      simp only [child, here] at moved
      split at moved
      · exact Option.some.inj moved ▸ summed
      · cases moved
    | absent | exited | failed => simp [child, here] at moved

structure Kept (args : Args) (s : State) : Prop where
  answers : Answers args s
  inv : Inv args s
  summed : Summed s

theorem kept_step (some_packet : 0 < args.num_packets) (act : Act) (s t : State) (kept : Kept args s)
    (stepped : correct args room act s = some t) : Kept args t := by
  refine ⟨answers_step act s t kept.answers (correct_step stepped).1, ?_, summed_step kept.summed stepped⟩
  rcases correct_cases stepped with ⟨_, moved⟩ | ⟨i, _, moved⟩
  · exact inv_parent kept.inv some_packet moved
  · exact inv_child kept.answers kept.inv some_packet moved

theorem kept_initial : Kept args (initial args) := ⟨answers_initial, inv_initial, rfl, rfl⟩

theorem indices_inside (vars : Vars args s) (below : args.n < MAXCHILD) : ∀ k ∈ indices args s, k < MAXCHILD := by
  intro k member
  cases place : s.parent with
  | build =>
    simp only [Vars, place] at vars
    simp only [indices, place, List.mem_singleton] at member
    omega
  | success | failed | answer => simp [indices, place] at member
  | fork | send | last | wait =>
    simp only [indices, place] at member
    split at member
    · rw [List.mem_singleton.mp member]
      omega
    · cases member

theorem sound_run (some_packet : 0 < args.num_packets) (some_room : 0 < room) (below : args.n < MAXCHILD)
    {acts : List Act} (ran : run (correct args room) acts (initial args) = some s) :
    Sound args room acts s := by
  have kept := run_invariant (kept_step some_packet) kept_initial ran
  have inv := kept.inv
  have bounded := run_bounded_of (Kept args) (kept_step some_packet)
    (fun act s t kept stepped => rank_falls kept.answers kept.inv stepped) kept_initial ran
  have created : ∀ j, s.child j ≠ .absent → Place args s j (s.child j) := fun j exists_j =>
    (inv.kids j (kept.answers.created j exists_j)).place
  refine ⟨⟨fun failed => ?_, fun j failed => ?_⟩, fun j inside => ?_, fun j r c reads => ?_, kept.summed.2,
    fun success => ⟨answered_all kept.answers success, fun j => ended inv (.inr success)⟩,
    indices_inside inv.vars below, goes_on inv some_room, by omega⟩
  · have vars := inv.vars
    simp [Vars, failed] at vars
  · have where_now := created j (by simp [failed])
    rw [failed] at where_now
    exact where_now
  · have whole := (inv.kids j inside).pipe
    have front : s.received j <+: (stream args.num_packets).take (count args s j) := ⟨_, whole⟩
    exact front.trans (List.take_prefix _ _)
  · have where_now := created j (by simp [reads])
    rw [reads] at where_now
    exact ⟨where_now.1, where_now.2.2.1⟩

theorem forks (args : Args) (room k : Nat) (low : k ≤ args.n) : ∃ s,
    run (correct args room) (List.replicate k .parent) (initial args) = some s ∧
      s.parent = .fork ∧ s.i = k ∧ s.num_packets = args.num_packets := by
  induction k with
  | zero => exact ⟨initial args, rfl, rfl, rfl, rfl⟩
  | succ k ih =>
    obtain ⟨s, ran, place, rfl, total⟩ := ih (Nat.le_of_succ_le low)
    refine ⟨{ s with i := s.i + 1, child := update s.child s.i (.reading 0 0) }, ?_, place, rfl, total⟩
    rw [List.replicate_succ', run_append ran]
    have stepped : parent args room s = some { s with i := s.i + 1, child := update s.child s.i (.reading 0 0) } := by
      simp only [parent, place, if_pos (Nat.lt_of_succ_le low)]
    simp only [run, correct, step, move, stepped, place]
    rfl

theorem builds (args : Args) (room : Nat) (some_packet : 0 < args.num_packets) : ∃ acts s,
    run (correct args room) acts (initial args) = some s ∧ args.n ∈ indices args s := by
  obtain ⟨s, ran, place, i, total⟩ := forks args room args.n (Nat.le_refl _)
  have some_left : 0 < s.num_packets := total ▸ some_packet
  have stepped : parent args room s =
      some { s with parent := .build, packet := { s.packet with last := 0, valid := VALID_PACKET } } := by
    simp only [parent, place, packetLoop, if_neg (Nat.not_lt.mpr (Nat.le_of_eq i.symm)), if_pos some_left]
  refine ⟨List.replicate args.n .parent ++ [.parent],
    { s with parent := .build, packet := { s.packet with last := 0, valid := VALID_PACKET } }, ?_, ?_⟩
  · rw [run_append ran]
    simp only [run, correct, step, move, stepped, place]
    rfl
  · simp [indices, i]

theorem failed_run {acts : List Act} (ran : run (step args room) acts (initial args) = some s)
    (failed : ∃ j, s.child j = .failed) : s.parent ≠ .success := by
  obtain ⟨j, failed⟩ := failed
  exact failed_child (run_invariant answers_step answers_initial ran) failed

end correct

theorem setup_packets {o : Options} {args : Args} (accepted : setup o = some args) :
    0 < args.num_packets ∧ args.num_children ≤ MAXCHILD := by
  rw [setup] at accepted
  split at accepted
  · cases accepted
  · rename_i usual
    obtain rfl := Option.some.inj accepted
    simp only [not_or] at usual
    exact ⟨Nat.pos_of_ne_zero usual.1, by simpa using usual.2.2⟩

/-- The protocol keeps its promises except for the index of `pid`, which `MAXCHILD` children take past its end. -/
theorem pipe_test_02_sound {o : Options} {args : Args} (accepted : setup o = some args) {room : Nat}
    (some_room : 0 < room) : Protocol args room ↔ args.num_children < MAXCHILD := by
  obtain ⟨some_packet, _⟩ := setup_packets accepted
  have below : args.n < MAXCHILD ↔ args.num_children < MAXCHILD := by
    simp only [Args.n, MAXCHILD]
    omega
  constructor
  · rintro ⟨sound, _⟩
    obtain ⟨acts, s, ran, member⟩ := builds args room some_packet
    exact below.mp ((sound acts s ran).inside args.n member)
  · intro few
    exact ⟨fun acts s ran => sound_run some_packet some_room (below.mpr few) ran, fun acts s => failed_run⟩

theorem pipe_test_02_sound_two :
    setup ⟨2, none, some 120⟩ = some ⟨2, 3⟩ ∧ Protocol ⟨2, 3⟩ 1 := by
  have accepted : setup ⟨2, none, some 120⟩ = some ⟨2, 3⟩ := rfl
  exact ⟨accepted, (pipe_test_02_sound accepted (by decide)).mpr (by decide)⟩

/-- With the 126 children that are allowed, the first packet is built with `pid[126]`. -/
theorem pid_past : setup ⟨126, none, none⟩ = some ⟨126, 1024⟩ ∧ ¬ Protocol ⟨126, 1024⟩ 1 := by
  refine ⟨rfl, fun protocol => ?_⟩
  obtain ⟨acts, s, ran, member⟩ := builds ⟨126, 1024⟩ 1 (by decide)
  exact absurd ((protocol.1 acts s ran).inside _ member) (by decide)

end PipeTest
