import Vte.Lib.Checkpoint

/-!
When the checkpoints synchronise: every interleaving keeps the bytes and the waits in step and
ends. It is shown for the sequences for which the state space is finite and sound, and every other
sequence has two neighbours at which one process overtakes the other.
-/
namespace VteCheckpoint
open Machine

def Pc.rank : Pc → Nat
  | .opening => 0
  | .blocked => 1
  | .opened => 2
  | .polled => 3
  | .closing => 4
  | .failed _ => 5

def Process.rank (total : Nat) (q : Process) : Nat := 6 * (total - q.index) - q.pc.rank

def rank (cs : List Checkpoint) (s : State) : Nat :=
  s.parent.rank cs.length + s.child.rank cs.length

section rank
variable {policy : Discard} {cs : List Checkpoint} {p : Party} {s t : State}

theorem update_rank (q : Process) :
    rank cs (s.update p q) + (s.process p).rank cs.length = rank cs s + q.rank cs.length := by
  cases p with
  | parent =>
    simp only [rank, State.update, State.process]
    omega
  | child =>
    simp only [rank, State.update, State.process]
    omega

theorem set_pc_rank {pc : Pc} (here : (s.process p).index < cs.length) (small : pc.rank ≤ 5)
    (later : (s.process p).pc.rank < pc.rank) : rank cs (s.setPc p pc) < rank cs s := by
  have updated := @update_rank cs p s { s.process p with pc := pc }
  simp only [Process.rank] at updated
  simp only [State.setPc]
  omega

theorem opened_rank {mode : Access} (here : (s.process p).index < cs.length)
    (early : (s.process p).pc.rank < 2) : rank cs (opened s p mode) < rank cs s := by
  have updated := @update_rank cs p s ⟨(s.process p).index, .opened, some mode⟩
  have two : Pc.opened.rank = 2 := rfl
  simp only [Process.rank, two] at updated
  have same : rank cs (opened s p mode) = rank cs (s.update p ⟨(s.process p).index, .opened, some mode⟩) := rfl
  omega

theorem opened_other (mode : Access) : (opened s p mode).process p.other = s.process p.other := by
  cases p with
  | parent => rfl
  | child => rfl

theorem blocked_here {mode : Access} (blocked : isBlocked cs s p mode = true) :
    (s.process p).pc = .blocked ∧ (s.process p).index < cs.length := by
  simp only [isBlocked, decide_eq_true_eq, Option.map_eq_some_iff] at blocked
  obtain ⟨pc, c, there, _⟩ := blocked
  exact ⟨pc, (List.getElem?_eq_some_iff.mp there).1⟩

theorem open_rank {mode : Access} {nonblock : Bool} (here : (s.process p).index < cs.length)
    (pc : (s.process p).pc = .opening) : rank cs (openFifo cs p mode nonblock s) < rank cs s := by
  have early : (s.process p).pc.rank = 0 := by rw [pc, Pc.rank]
  unfold openFifo
  split
  · rename_i waits
    obtain ⟨blocked, there⟩ := blocked_here waits
    have first : rank cs (opened s p mode) < rank cs s := opened_rank here (by omega)
    have second : rank cs (opened (opened s p mode) p.other mode.opposite) < rank cs (opened s p mode) := by
      apply opened_rank
      · rwa [opened_other]
      · rw [opened_other, blocked]
        decide
    omega
  · split
    · exact opened_rank here (by omega)
    · have one : Pc.blocked.rank = 1 := rfl
      exact set_pc_rank here (by omega) (by omega)

theorem close_process (q : Party) : ((closeFd policy p s).process q).index = (s.process q).index ∧
    ((closeFd policy p s).process q).pc = (s.process q).pc := by
  unfold closeFd
  dsimp only
  split <;> cases p <;> cases q <;> exact ⟨rfl, rfl⟩

theorem close_rank : rank cs (closeFd policy p s) = rank cs s := by
  have parent := @close_process policy p s .parent
  have child := @close_process policy p s .child
  simp only [State.process] at parent child
  simp only [rank, Process.rank, parent, child]

theorem fail_rank {why : Failure} (here : (s.process p).index < cs.length)
    (early : (s.process p).pc.rank < 5) : rank cs (fail policy p why s) < rank cs s := by
  obtain ⟨index, pc⟩ := @close_process policy p s p
  rw [← @close_rank policy cs p s]
  apply set_pc_rank
  · rwa [index]
  · exact Nat.le_refl 5
  · rw [pc]
    exact early

theorem finish_rank (here : (s.process p).index < cs.length)
    (pc : (s.process p).pc = .closing) : rank cs (finish policy p s) < rank cs s := by
  obtain ⟨index, samePc⟩ := @close_process policy p s p
  have updated := @update_rank cs p (closeFd policy p s)
    ⟨((closeFd policy p s).process p).index + 1, .opening, none⟩
  rw [close_rank] at updated
  have four : Pc.closing.rank = 4 := rfl
  have zero : Pc.opening.rank = 0 := rfl
  simp only [Process.rank, index, samePc, pc, four, zero] at updated
  simp only [finish, index]
  omega

theorem read_rank {b : Byte} {rest : List Byte} (here : (s.process p).index < cs.length)
    (early : (s.process p).pc.rank < 4) :
    rank cs (readByte policy p b rest s) < rank cs s := by
  let taken : State := { s with
    buffer := rest
    received := s.received ++ [((s.process p).index, b.sent)] }
  have same : taken.process p = s.process p := by cases p <;> rfl
  unfold readByte
  dsimp only
  split
  · exact @set_pc_rank cs p taken .closing (by rwa [same]) (by decide) (by rw [same]; exact early)
  · exact @fail_rank policy cs p taken .wrongData (by rwa [same]) (by rw [same]; omega)

theorem parent_wait_rank (here : (s.process .parent).index < cs.length)
    (taken : parentWait policy cs s = some t) : rank cs t < rank cs s := by
  unfold parentWait at taken
  split at taken
  · rename_i pc
    cases taken
    exact open_rank here pc
  · rename_i pc
    split at taken
    · cases taken
      exact set_pc_rank here (by decide) (by change s.parent.pc.rank < _; rw [pc]; decide)
    · cases taken
  · rename_i pc
    split at taken
    · cases taken
      exact read_rank here (by change s.parent.pc.rank < _; rw [pc]; decide)
    · split at taken
      · cases taken
        exact fail_rank here (by change s.parent.pc.rank < _; rw [pc]; decide)
      · cases taken
        exact fail_rank here (by change s.parent.pc.rank < _; rw [pc]; decide)
  · rename_i pc
    cases taken
    exact finish_rank here pc
  · cases taken
  · cases taken

theorem child_wait_rank (here : (s.process .child).index < cs.length)
    (taken : childWait policy cs s = some t) : rank cs t < rank cs s := by
  unfold childWait at taken
  split at taken
  · rename_i pc
    cases taken
    exact open_rank here pc
  · rename_i pc
    split at taken
    · cases taken
      exact read_rank here (by change s.child.pc.rank < _; rw [pc]; decide)
    · split at taken
      · cases taken
      · cases taken
        exact fail_rank here (by change s.child.pc.rank < _; rw [pc]; decide)
  · rename_i pc
    cases taken
    exact finish_rank here pc
  · cases taken
  · cases taken
  · cases taken

theorem signal_rank (here : (s.process p).index < cs.length)
    (taken : signal policy cs p s = some t) : rank cs t < rank cs s := by
  unfold signal at taken
  split at taken
  · rename_i pc
    cases taken
    exact open_rank here pc
  · rename_i pc
    split at taken
    · cases taken
      let written : State := { s with
        buffer := s.buffer ++ [⟨p.other.byte, (s.process p).index⟩]
        issued := s.issued ++ [(s.process p).index] }
      have same : written.process p = s.process p := by cases p <;> rfl
      have one_more : rank cs (written.setPc p .closing) < rank cs written := by
        apply set_pc_rank
        · rwa [same]
        · decide
        · rw [same, pc]
          decide
      exact one_more
    · cases taken
      exact fail_rank here (by rw [pc]; decide)
  · rename_i pc
    cases taken
    exact finish_rank here pc
  · cases taken
  · cases taken
  · cases taken

theorem step_rank (taken : step policy cs p s = some t) : rank cs t < rank cs s := by
  unfold step at taken
  split at taken
  · cases taken
  · rename_i there
    exact parent_wait_rank (List.getElem?_eq_some_iff.mp there).1 taken
  · rename_i there
    exact child_wait_rank (List.getElem?_eq_some_iff.mp there).1 taken
  · rename_i there
    exact signal_rank (List.getElem?_eq_some_iff.mp there).1 taken
  · rename_i there
    exact signal_rank (List.getElem?_eq_some_iff.mp there).1 taken

end rank

/-- No wait has returned before its signal; every byte written is either in the FIFO or was read,
    in order, at its own checkpoint; and unless both processes are done, one can go on. -/
structure Sound (policy : Discard) (cs : List Checkpoint) (s : State) : Prop where
  returned : ∀ k, (inside : k < cs.length) → k < (s.process cs[k].waiter).index → k ∈ s.issued
  kept : s.issued = s.received.map Prod.snd ++ s.buffer.map Byte.sent
  own : ∀ r ∈ s.received, r.1 = r.2
  live : (s.parent.index = cs.length ∧ s.child.index = cs.length) ∨
    (step policy cs .parent s).isSome ∨ (step policy cs .child s).isSome

instance (policy : Discard) (cs : List Checkpoint) (s : State) : Decidable (Sound policy cs s) :=
  decidable_of_iff
    ((∀ k, (inside : k < cs.length) → k < (s.process cs[k].waiter).index → k ∈ s.issued) ∧
      s.issued = s.received.map Prod.snd ++ s.buffer.map Byte.sent ∧
      (∀ r ∈ s.received, r.1 = r.2) ∧
      ((s.parent.index = cs.length ∧ s.child.index = cs.length) ∨
        (step policy cs .parent s).isSome ∨ (step policy cs .child s).isSome))
    ⟨fun ⟨returned, kept, own, live⟩ => ⟨returned, kept, own, live⟩,
      fun ⟨returned, kept, own, live⟩ => ⟨returned, kept, own, live⟩⟩

def CallsSucceed (s : State) : Prop :=
  ∀ p, (s.process p).pc ≠ .failed .readFailed ∧ (s.process p).pc ≠ .failed .brokenPipe

/-- Every interleaving without a failing system call is sound throughout, and none goes on for
    ever. -/
def Synchronised (policy : Discard) (cs : List Checkpoint) : Prop :=
  ∀ schedule s, run (step policy cs) schedule init = some s → CallsSucceed s →
    Sound policy cs s ∧ schedule.length ≤ 12 * cs.length

def Apart (cs : List Checkpoint) : Prop :=
  cs ∈ [[], [.parentWaits], [.childWaits], [.parentWaits, .childWaits]]

theorem run_length {policy : Discard} {cs : List Checkpoint} {schedule : List Party} {s : State}
    (ran : run (step policy cs) schedule init = some s) : schedule.length ≤ 12 * cs.length := by
  have bound := run_bounded (fun _ _ _ taken => step_rank taken) ran
  have start : rank cs init = 12 * cs.length := by
    simp only [rank, Process.rank, Pc.rank, init]
    omega
  omega

def parties : List Party := [.parent, .child]

def states (policy : Discard) (cs : List Checkpoint) : List State :=
  explore parties (step policy cs) 100 [init] [init]

theorem apart_explored (policy : Discard) {cs : List Checkpoint} (apart : Apart cs) :
    init ∈ states policy cs ∧ Closed parties (step policy cs) (states policy cs) ∧
      ∀ s ∈ states policy cs, Sound policy cs s := by
  have explored : ∀ cs ∈ [[], [.parentWaits], [.childWaits], [.parentWaits, .childWaits]],
      ∀ policy ∈ [Discard.lastReader, .lastDescriptor],
      init ∈ states policy cs ∧ Closed parties (step policy cs) (states policy cs) ∧
        ∀ s ∈ states policy cs, Sound policy cs s := by
    decide +kernel
  refine explored cs apart policy ?_
  cases policy <;> simp

theorem apart_synchronised (policy : Discard) {cs : List Checkpoint} (apart : Apart cs) :
    Synchronised policy cs := by
  intro schedule s ran _
  obtain ⟨start, closed, sound⟩ := apart_explored policy apart
  have all : ∀ p, p ∈ parties := by
    intro p
    cases p <;> decide
  exact ⟨sound s (run_closed parties all closed start ran), run_length ran⟩

/-- Both processes are about to begin the checkpoint `k`, with the FIFO closed and empty. -/
def met (k : Nat) (writerSeen : Bool) (issued : List Nat) (received : List (Nat × Nat)) : State :=
  ⟨⟨k, .opening, none⟩, ⟨k, .opening, none⟩, [], writerSeen, issued, received⟩

def Lost (s : State) : Prop :=
  CallsSucceed s ∧ (s.received.length + s.buffer.length < s.issued.length ∨ ∃ r ∈ s.received, r.1 ≠ r.2)

section close
variable {policy : Discard} {s : State}

theorem close_parent_held (reads : s.child.fd = some .rdOnly) :
    closeFd policy .parent s = { s with parent := { s.parent with fd := none } } := by
  cases policy <;> simp [closeFd, isHeld, State.update, State.process, reads]

theorem close_child_held (reads : s.parent.fd = some .rdOnly) :
    closeFd policy .child s = { s with child := { s.child with fd := none } } := by
  cases policy <;> simp [closeFd, isHeld, State.update, State.process, reads]

theorem close_parent_empty (empty : s.buffer = []) :
    closeFd policy .parent s = { s with parent := { s.parent with fd := none } } := by
  simp [closeFd, State.update, State.process, empty]

theorem close_child_empty (empty : s.buffer = []) :
    closeFd policy .child s = { s with child := { s.child with fd := none } } := by
  simp [closeFd, State.update, State.process, empty]

theorem close_parent_last (closed : s.child.fd = none) :
    closeFd policy .parent s = { s with parent := { s.parent with fd := none }, buffer := [] } := by
  cases policy <;> simp [closeFd, isHeld, State.update, State.process, closed]

theorem close_child_last (closed : s.parent.fd = none) :
    closeFd policy .child s = { s with child := { s.child with fd := none }, buffer := [] } := by
  cases policy <;> simp [closeFd, isHeld, State.update, State.process, closed]

end close

section schedules
variable {cs : List Checkpoint} {k : Nat}

attribute [local simp] run step parentWait childWait signal openFifo State.process State.update
  State.setPc opened isBlocked Party.other Party.byte Access.opposite access Checkpoint.waiter
  finish close_parent_held close_child_held close_parent_empty close_child_empty close_parent_last
  close_child_last readByte fail met

theorem parent_waits_meets (policy : Discard) (here : cs[k]? = some .parentWaits) (seen : Bool)
    (issued : List Nat) (received : List (Nat × Nat)) :
    run (step policy cs) [.parent, .child, .child, .child, .parent, .parent, .parent]
      (met k seen issued received) =
      some (met (k + 1) true (issued ++ [k]) (received ++ [(k, k)])) := by
  simp [here]

theorem child_waits_meets (policy : Discard) (here : cs[k]? = some .childWaits) (seen : Bool)
    (issued : List Nat) (received : List (Nat × Nat)) :
    run (step policy cs) [.parent, .child, .parent, .child, .parent, .child]
      (met k seen issued received) =
      some (met (k + 1) true (issued ++ [k]) (received ++ [(k, k)])) := by
  simp [here]

theorem succeed_iff {s : State} : CallsSucceed s ↔
    (s.parent.pc ≠ .failed .readFailed ∧ s.parent.pc ≠ .failed .brokenPipe) ∧
      s.child.pc ≠ .failed .readFailed ∧ s.child.pc ≠ .failed .brokenPipe := by
  constructor
  · intro succeed
    exact ⟨succeed .parent, succeed .child⟩
  · rintro ⟨parent, child⟩ p
    cases p with
    | parent => exact parent
    | child => exact child

/-- The child signals twice while the parent still has its end open from the first wait, and the
    parent closes it last: the second byte is discarded. -/
theorem second_signal_lost (policy : Discard) (here : cs[k]? = some .parentWaits)
    (next : cs[k + 1]? = some .parentWaits) (seen : Bool) {issued : List Nat}
    {received : List (Nat × Nat)} (sofar : issued.length = received.length) :
    ∃ schedule s, run (step policy cs) schedule (met k seen issued received) = some s ∧ Lost s := by
  refine ⟨[.parent, .child, .child, .parent, .parent, .child, .child, .child, .child, .parent], ?_⟩
  simp [here, next, Lost, succeed_iff, sofar]

theorem second_release_lost (policy : Discard) (here : cs[k]? = some .childWaits)
    (next : cs[k + 1]? = some .childWaits) (seen : Bool) {issued : List Nat}
    {received : List (Nat × Nat)} (sofar : issued.length = received.length) :
    ∃ schedule s, run (step policy cs) schedule (met k seen issued received) = some s ∧ Lost s := by
  refine ⟨[.parent, .child, .parent, .child, .parent, .parent, .parent, .parent, .child], ?_⟩
  simp [here, next, Lost, succeed_iff, sofar]

theorem own_byte_read (policy : Discard) (here : cs[k]? = some .childWaits)
    (next : cs[k + 1]? = some .parentWaits) (seen : Bool) (issued : List Nat)
    (received : List (Nat × Nat)) :
    ∃ schedule s, run (step policy cs) schedule (met k seen issued received) = some s ∧ Lost s := by
  refine ⟨[.parent, .child, .parent, .parent, .parent, .parent, .parent], ?_⟩
  simp [here, next, Lost, succeed_iff]
  exact Or.inr ⟨k + 1, k, Or.inr ⟨rfl, rfl⟩, by omega⟩

end schedules

theorem lost_not_sound {policy : Discard} {cs : List Checkpoint} {s : State} (lost : Lost s) :
    ¬ Sound policy cs s := by
  intro sound
  rcases lost.2 with short | ⟨r, mem, other⟩
  · have kept := congrArg List.length sound.kept
    rw [List.length_append, List.length_map, List.length_map] at kept
    omega
  · exact other (sound.own r mem)

theorem meets (policy : Discard) {cs : List Checkpoint} (k : Nat) (inside : k ≤ cs.length) :
    ∃ schedule seen issued received, run (step policy cs) schedule init =
      some (met k seen issued received) ∧ issued.length = received.length := by
  induction k with
  | zero => exact ⟨[], false, [], [], rfl, rfl⟩
  | succ k ih =>
    obtain ⟨schedule, seen, issued, received, ran, sofar⟩ := ih (by omega)
    have together : (issued ++ [k]).length = (received ++ [(k, k)]).length := by simp [sofar]
    cases here : cs[k]? with
    | none =>
      have outside := List.getElem?_eq_none_iff.mp here
      omega
    | some c =>
      cases c with
      | parentWaits =>
        exact ⟨_, _, _, _, (run_append ran).trans (parent_waits_meets policy here _ _ _), together⟩
      | childWaits =>
        exact ⟨_, _, _, _, (run_append ran).trans (child_waits_meets policy here _ _ _), together⟩

theorem apart_or_close (cs : List Checkpoint) : Apart cs ∨ ∃ k c c', cs[k]? = some c ∧
    cs[k + 1]? = some c' ∧ (c = .parentWaits → c' = .parentWaits) := by
  match cs with
  | [] => exact Or.inl (by simp [Apart])
  | [.parentWaits] => exact Or.inl (by simp [Apart])
  | [.childWaits] => exact Or.inl (by simp [Apart])
  | [.parentWaits, .childWaits] => exact Or.inl (by simp [Apart])
  | .parentWaits :: .parentWaits :: _ => exact Or.inr ⟨0, _, _, rfl, rfl, fun _ => rfl⟩
  | .childWaits :: c :: _ => exact Or.inr ⟨0, .childWaits, c, rfl, rfl, nofun⟩
  | .parentWaits :: .childWaits :: c :: _ => exact Or.inr ⟨1, .childWaits, c, rfl, rfl, nofun⟩

theorem close_lost (policy : Discard) {cs : List Checkpoint} {k : Nat} {c c' : Checkpoint}
    (here : cs[k]? = some c) (next : cs[k + 1]? = some c')
    (close : c = .parentWaits → c' = .parentWaits) :
    ∃ schedule s, run (step policy cs) schedule init = some s ∧ Lost s := by
  have inside : k ≤ cs.length := Nat.le_of_lt (List.getElem?_eq_some_iff.mp here).1
  obtain ⟨before, seen, issued, received, ran, sofar⟩ := meets policy k inside
  have overtakes : ∃ schedule s, run (step policy cs) schedule (met k seen issued received) = some s ∧ Lost s := by
    cases c with
    | parentWaits =>
      rw [close rfl] at next
      exact second_signal_lost policy here next seen sofar
    | childWaits =>
      cases c' with
      | parentWaits => exact own_byte_read policy here next seen issued received
      | childWaits => exact second_release_lost policy here next seen sofar
  obtain ⟨schedule, s, after, lost⟩ := overtakes
  exact ⟨before ++ schedule, s, (run_append ran).trans after, lost⟩

/-- The checkpoints synchronise exactly when they are apart, whenever the FIFO discards bytes. -/
theorem synchronised_iff_apart (policy : Discard) (cs : List Checkpoint) :
    Synchronised policy cs ↔ Apart cs := by
  constructor
  · intro synchronised
    rcases apart_or_close cs with apart | ⟨k, c, c', here, next, close⟩
    · exact apart
    · obtain ⟨schedule, s, ran, lost⟩ := close_lost policy here next close
      exact absurd (synchronised schedule s ran lost.1).1 (lost_not_sound lost)
  · exact apart_synchronised policy

/-- Two waits of the parent: the child is done, and the parent waits for ever for its second
    byte. -/
theorem second_wait_hangs :
    ¬ Synchronised .lastReader [.parentWaits, .parentWaits] ∧
    ∃ schedule s, run (step .lastReader [.parentWaits, .parentWaits]) schedule init = some s ∧
      s.issued = [0, 1] ∧ s.received = [(0, 0)] ∧ s.child.index = 2 ∧ s.parent.index = 1 ∧
      step .lastReader [.parentWaits, .parentWaits] .parent s = none ∧
      step .lastReader [.parentWaits, .parentWaits] .child s = none := by
  constructor
  · intro synchronised
    obtain ⟨schedule, s, ran, lost⟩ := @close_lost .lastReader [.parentWaits, .parentWaits] 0 _ _
      rfl rfl (fun same => same)
    exact lost_not_sound lost (synchronised schedule s ran lost.1).1
  · exact ⟨[.parent, .child, .child, .parent, .parent, .child, .child, .child, .child, .parent,
      .parent], _, rfl, rfl, rfl, rfl, rfl, rfl, rfl⟩

end VteCheckpoint
