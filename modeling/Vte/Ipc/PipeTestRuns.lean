import Vte.Ipc.PipeTest

/-!
Runs of pipe_test_02 on pipes that keep what is written to them: what every child has received, the answers, and
that the parent comes to its end.
-/
namespace PipeTest
open CInt Function Machine

section streams
variable {k n : Nat}

theorem stream_length (n : Nat) : (stream n).length = n + 1 := by simp [stream]

theorem stream_get (low : k < n) : (stream n)[k]? = some (sent k) := by
  rw [stream, List.getElem?_append_left (by simpa using low)]
  simp [low]

theorem stream_last (n : Nat) : (stream n)[n]? = some (lastPacket n) := by
  rw [stream, List.getElem?_append_right (by simp)]
  simp

theorem stream_take (low : k < n) : (stream n).take (k + 1) = (stream n).take k ++ [sent k] := by
  rw [List.take_add_one, stream_get low]
  rfl

theorem stream_whole (n : Nat) : (stream n).take n ++ [lastPacket n] = stream n := by
  have next : (stream n).take (n + 1) = (stream n).take n ++ [lastPacket n] := by
    rw [List.take_add_one, stream_last]
    rfl
  rw [← next, List.take_of_length_le (Nat.le_of_eq (stream_length n))]

theorem last_packet (some_packet : 0 < n) : lastPacket n = { sent (n - 1) with last := 1 } ∧
    (lastPacket n).valid = VALID_PACKET ∧ (lastPacket n).checksum = cksum n := by
  refine ⟨rfl, rfl, ?_⟩
  rw [lastPacket, sent, Nat.sub_add_cancel some_packet]

theorem receive_sent (r : Nat) : receive r (cksum r) (sent r) = .reading (r + 1) (cksum (r + 1)) := by
  simp [receive, sent, cksum]

theorem receive_last (some_packet : 0 < n) (r : Nat) (c : BitVec 64) :
    receive r c (lastPacket n) = .answering (lastPacket n) c := by
  rw [receive, if_neg (by simp [(last_packet some_packet).2.1]), if_pos (by simp [lastPacket])]

end streams

/-- The parent has the answer of child `j`. -/
def Done (s : State) (j : Nat) : Prop :=
  match s.parent with
  | .last => j < s.i
  | .answer => j < s.i
  | .wait => True
  | .success => True
  | _ => False

/-- The number of packets written to child `j`. -/
def count (args : Args) (s : State) (j : Nat) : Nat :=
  match s.parent with
  | .fork => 0
  | .build => s.packets_sent
  | .send => if j < s.i then s.packets_sent else s.packets_sent - 1
  | .last => if j < s.i then args.num_packets + 1 else args.num_packets
  | .answer => if j ≤ s.i then args.num_packets + 1 else args.num_packets
  | _ => args.num_packets + 1

def Place (args : Args) (s : State) (j : Nat) : ChildPc → Prop
  | .absent => s.parent = .fork ∧ s.i ≤ j ∧ s.received j = []
  | .reading r c => r = (s.received j).length ∧ r ≤ args.num_packets ∧ c = cksum r ∧ ¬ Done s j ∧
      (s.parent = .fork → j < s.i)
  | .answering p c => s.received j = stream args.num_packets ∧ p = lastPacket args.num_packets ∧
      c = cksum args.num_packets ∧ s.parent = .answer ∧ s.i = j ∧ s.p2parent = []
  | .exited => s.received j = stream args.num_packets ∧ (Done s j ∨ (s.parent = .answer ∧ s.i = j ∧ s.p2parent ≠ []))
  | .failed => False

structure Kid (args : Args) (s : State) (j : Nat) : Prop where
  pipe : s.received j ++ s.p2child j = (stream args.num_packets).take (count args s j)
  place : Place args s j (s.child j)

def Sent (s : State) (k : Nat) : Prop :=
  s.packets_sent = k ∧ s.data = BitVec.ofNat 8 k ∧ s.cksum_parent = cksum k

def Vars (args : Args) (s : State) : Prop :=
  match s.parent with
  | .fork => s.i ≤ args.n ∧ s.num_packets = args.num_packets ∧ Sent s 0 ∧ s.p2parent = []
  | .build => s.i = args.n ∧ 0 < s.num_packets ∧ s.packets_sent + s.num_packets = args.num_packets ∧
      Sent s s.packets_sent ∧ s.packet.last = 0 ∧ s.packet.valid = VALID_PACKET ∧ s.p2parent = []
  | .send => s.i ≤ args.n ∧ 0 < s.num_packets ∧ 0 < s.packets_sent ∧
      s.packets_sent + s.num_packets = args.num_packets + 1 ∧
      Sent s s.packets_sent ∧ s.packet = sent (s.packets_sent - 1) ∧ s.p2parent = []
  | .last => s.i ≤ args.n ∧ s.cksum_parent = cksum args.num_packets ∧
      s.packet = lastPacket args.num_packets ∧ s.p2parent = []
  | .answer => s.i < args.n ∧ s.cksum_parent = cksum args.num_packets ∧
      (s.p2parent = [] ∨ (s.child s.i = .exited ∧ s.p2parent = [(s.i, lastPacket args.num_packets)]))
  | .wait => s.i ≤ args.n
  | .success => True
  | .failed => False

structure Inv (args : Args) (s : State) : Prop where
  vars : Vars args s
  kids : ∀ j < args.n, Kid args s j

section kids
variable {args : Args} {room : Nat} {s t : State} {j : Nat}

theorem place_later {pc : ChildPc} (place : Place args s j pc) (inside : j < args.n)
    (received : t.received = s.received) (forked : s.parent = .fork → s.i = args.n)
    (later : t.parent ≠ .fork) (done : Done t j ↔ Done s j) (before : s.parent ≠ .answer) :
    Place args t j pc := by
  cases pc with
  | absent =>
    have all := forked place.1
    have low := place.2.1
    omega
  | reading r c =>
    obtain ⟨length, low, sum, waiting, _⟩ := place
    exact ⟨by rw [received, length], low, sum, fun ends => waiting (done.mp ends), fun fork => absurd fork later⟩
  | answering p c => exact absurd place.2.2.2.1 before
  | exited =>
    obtain ⟨all, ended⟩ := place
    refine ⟨by rw [received, all], .inl (done.mpr ?_)⟩
    rcases ended with ends | answer
    · exact ends
    · exact absurd answer.1 before
  | failed => exact place

theorem kid_later (kid : Kid args s j) (inside : j < args.n)
    (received : t.received = s.received) (children : t.child = s.child) (pipes : t.p2child = s.p2child)
    (forked : s.parent = .fork → s.i = args.n) (later : t.parent ≠ .fork) (done : Done t j ↔ Done s j)
    (before : s.parent ≠ .answer) (same : count args t j = count args s j) : Kid args t j := by
  refine ⟨?_, ?_⟩
  · rw [received, pipes, same]
    exact kid.pipe
  · rw [children]
    exact place_later kid.place inside received forked later done before

theorem kid_other (kid : Kid args s j) (parent : t.parent = s.parent) (i : t.i = s.i)
    (packets_sent : t.packets_sent = s.packets_sent) (child : t.child j = s.child j)
    (received : t.received j = s.received j) (pipe : t.p2child j = s.p2child j)
    (answers : t.p2parent = s.p2parent ∨ s.i ≠ j) : Kid args t j := by
  have done : Done t j ↔ Done s j := by simp only [Done, parent, i]
  have same : count args t j = count args s j := by simp only [count, parent, i, packets_sent]
  refine ⟨by rw [received, pipe, same, kid.pipe], ?_⟩
  have place := kid.place
  rw [child]
  cases here : s.child j with
  | absent =>
    rw [here] at place
    exact ⟨parent ▸ place.1, i ▸ place.2.1, received ▸ place.2.2⟩
  | reading r c =>
    rw [here] at place
    obtain ⟨length, low, sum, waiting, forked⟩ := place
    exact ⟨by rw [received, length], low, sum, fun ends => waiting (done.mp ends),
      fun fork => i ▸ forked (parent ▸ fork)⟩
  | answering p c =>
    rw [here] at place
    obtain ⟨all, packet, sum, answer, mine, none_yet⟩ := place
    refine ⟨received ▸ all, packet, sum, parent ▸ answer, i ▸ mine, ?_⟩
    rcases answers with same | other
    · rw [same, none_yet]
    · exact absurd mine other
  | exited =>
    rw [here] at place
    obtain ⟨all, ended⟩ := place
    refine ⟨received ▸ all, ended.imp done.mpr fun answer => ⟨parent ▸ answer.1, i ▸ answer.2.1, ?_⟩⟩
    rcases answers with same | other
    · rw [same]
      exact answer.2.2
    · exact absurd answer.2.1 other
  | failed =>
    rw [here] at place
    exact place

theorem kid_reading (kid : Kid args s j) {r : Nat} {c : BitVec 64} (here : s.child j = .reading r c)
    {packet : Packet} {rest : List Packet} (pipe : s.p2child j = packet :: rest) :
    r < count args s j ∧ (stream args.num_packets)[r]? = some packet := by
  have place := kid.place
  rw [here] at place
  have whole := kid.pipe
  rw [pipe] at whole
  have here_now : (s.received j ++ packet :: rest)[r]? = some packet := by
    rw [place.1, List.getElem?_append_right (Nat.le_refl _), Nat.sub_self]
    rfl
  rw [whole, List.getElem?_take] at here_now
  split at here_now
  · rename_i before
    exact ⟨before, here_now⟩
  · cases here_now

theorem count_last (vars : Vars args s) (waiting : ¬ Done s j) (all : args.num_packets < count args s j) :
    s.parent = .answer ∧ s.i = j := by
  cases place : s.parent with
  | fork => simp [count, place] at all
  | build =>
    simp only [Vars, place] at vars
    simp only [count, place] at all
    omega
  | send =>
    simp only [Vars, place] at vars
    simp only [count, place] at all
    split at all <;> omega
  | last =>
    simp only [Done, place] at waiting
    simp only [count, place, if_neg waiting] at all
    omega
  | answer =>
    simp only [Done, place] at waiting
    simp only [count, place] at all
    split at all
    · exact ⟨rfl, by omega⟩
    · omega
  | wait => simp [Done, place] at waiting
  | success => simp [Done, place] at waiting
  | failed => simp [Vars, place] at vars

theorem kid_read (inv : Inv args s) (some_packet : 0 < args.num_packets) (inside : j < args.n) {r : Nat}
    {c : BitVec 64} (here : s.child j = .reading r c) {packet : Packet} {rest : List Packet}
    (pipe : s.p2child j = packet :: rest) :
    Kid args { s with
      p2child := update s.p2child j rest
      received := update s.received j (s.received j ++ [packet])
      child := update s.child j (receive r c packet) } j := by
  have kid := inv.kids j inside
  obtain ⟨before, next⟩ := kid_reading kid here pipe
  have place := kid.place
  rw [here] at place
  obtain ⟨length, low, rfl, waiting, forked⟩ := place
  have whole := kid.pipe
  rw [pipe, List.append_cons] at whole
  refine ⟨?_, ?_⟩
  · simp only [update_self]
    exact whole
  simp only [update_self]
  rcases Nat.lt_or_eq_of_le low with inner | rfl
  · obtain rfl : sent r = packet := by rwa [stream_get inner, Option.some.injEq] at next
    rw [receive_sent]
    exact ⟨by simp [length], inner, rfl, waiting, forked⟩
  · obtain rfl : lastPacket _ = packet := by rwa [stream_last, Option.some.injEq] at next
    obtain ⟨answer, mine⟩ := count_last inv.vars waiting before
    have vars := inv.vars
    simp only [Vars, answer] at vars
    have none_yet : s.p2parent = [] := by
      rcases vars.2.2 with empty | ⟨exited, _⟩
      · exact empty
      · rw [mine, here] at exited
        cases exited
    rw [receive_last some_packet]
    refine ⟨?_, rfl, rfl, answer, mine, none_yet⟩
    have all : s.received j = (stream args.num_packets).take args.num_packets := by
      have front := congrArg (List.take (s.received j).length) kid.pipe
      rw [List.take_left, List.take_take, ← length, Nat.min_eq_left (Nat.le_of_lt before)] at front
      exact front
    simp only [update_self]
    rw [all, stream_whole]

theorem inv_read (inv : Inv args s) (some_packet : 0 < args.num_packets) (inside : j < args.n) {r : Nat}
    {c : BitVec 64} (here : s.child j = .reading r c) {packet : Packet} {rest : List Packet}
    (pipe : s.p2child j = packet :: rest) :
    Inv args { s with
      p2child := update s.p2child j rest
      received := update s.received j (s.received j ++ [packet])
      child := update s.child j (receive r c packet) } := by
  refine ⟨?_, fun k inside' => ?_⟩
  · have vars := inv.vars
    cases place : s.parent with
    | answer =>
      simp only [Vars, place] at vars ⊢
      refine ⟨vars.1, vars.2.1, vars.2.2.imp id fun ended => ⟨?_, ended.2⟩⟩
      have other : s.i ≠ j := by
        rintro rfl
        rw [here] at ended
        cases ended.1
      rw [update_of_ne other]
      exact ended.1
    | fork | build | send | last | wait =>
      simp only [Vars, place] at vars ⊢
      exact vars
    | success => simp only [Vars]
    | failed => simp [Vars, place] at vars
  · by_cases same : k = j
    · subst same
      exact kid_read inv some_packet inside here pipe
    · exact kid_other (inv.kids k inside') rfl rfl rfl (by simp [same]) (by simp [same])
        (by simp [same]) (.inl rfl)

theorem inv_answer (inv : Inv args s) (some_packet : 0 < args.num_packets) (inside : j < args.n) {p : Packet}
    {c : BitVec 64} (here : s.child j = .answering p c) :
    Inv args { s with
      p2parent := s.p2parent ++ [(j, { p with valid := VALID_PACKET, checksum := c })]
      child := update s.child j .exited } := by
  have kid := inv.kids j inside
  have place := kid.place
  rw [here] at place
  obtain ⟨all, rfl, rfl, answer, mine, none_yet⟩ := place
  have echo : ({ lastPacket args.num_packets with
      valid := VALID_PACKET, checksum := cksum args.num_packets } : Packet) =
      lastPacket args.num_packets := by
    obtain ⟨_, valid, checksum⟩ := last_packet some_packet
    rw [← valid, ← checksum]
  rw [echo, none_yet, List.nil_append]
  refine ⟨?_, fun k inside' => ?_⟩
  · have vars := inv.vars
    simp only [Vars, answer] at vars ⊢
    exact ⟨vars.1, vars.2.1, .inr ⟨by simp [mine], by rw [mine]⟩⟩
  · by_cases same : k = j
    · subst same
      refine ⟨kid.pipe, ?_⟩
      simp only [update_self]
      exact ⟨all, .inr ⟨answer, mine, by simp⟩⟩
    · exact kid_other (inv.kids k inside') rfl rfl rfl (by simp [same]) rfl rfl
        (.inr fun other => same (other.symm.trans mine))

theorem inv_child (answers : Answers args s) (inv : Inv args s) (some_packet : 0 < args.num_packets)
    (stepped : child room j s = some t) : Inv args t := by
  cases here : s.child j with
  | absent => simp [child, here] at stepped
  | exited => simp [child, here] at stepped
  | failed => simp [child, here] at stepped
  | reading r c =>
    have inside := answers.created j (by simp [here])
    simp only [child, here] at stepped
    split at stepped
    · cases stepped
    · rename_i packet rest pipe
      obtain rfl := Option.some.inj stepped
      exact inv_read inv some_packet inside here pipe
  | answering p c =>
    have inside := answers.created j (by simp [here])
    simp only [child, here] at stepped
    split at stepped
    · obtain rfl := Option.some.inj stepped
      exact inv_answer inv some_packet inside here
    · cases stepped

theorem kid_reads (kid : Kid args s j) (forked : s.parent ≠ .fork) (waiting : ¬ Done s j)
    (before : s.parent ≠ .answer) : ∃ r c, s.child j = .reading r c := by
  have place := kid.place
  cases here : s.child j with
  | reading r c => exact ⟨r, c, rfl⟩
  | absent =>
    rw [here] at place
    exact absurd place.1 forked
  | answering p c =>
    rw [here] at place
    exact absurd place.2.2.2.1 before
  | exited =>
    rw [here] at place
    exact (place.2.elim waiting fun answer => before answer.1).elim
  | failed =>
    rw [here] at place
    exact place.elim

theorem write_child {after : State} (kid : Kid args s j) (forked : s.parent ≠ .fork) (waiting : ¬ Done s j)
    (before : s.parent ≠ .answer) : writeChild room j s after =
      if (s.p2child j).length < room then
        some { after with p2child := update s.p2child j (s.p2child j ++ [s.packet]) }
      else none := by
  obtain ⟨r, c, reads⟩ := kid_reads kid forked waiting before
  rw [writeChild, if_neg]
  simp [readable, reads]

theorem kid_written {pc : ParentPc} (kid : Kid args s j) (inside : j < args.n) (later : pc ≠ .fork)
    (forked : s.parent ≠ .fork) (before : s.parent ≠ .answer) (i : Nat)
    (done : Done { s with parent := pc, i } j ↔ Done s j)
    (more : (stream args.num_packets).take (count args { s with parent := pc, i } j) =
      (stream args.num_packets).take (count args s j) ++ if j = s.i then [s.packet] else []) :
    Kid args { s with
      parent := pc, i, p2child := update s.p2child s.i (s.p2child s.i ++ [s.packet]) } j := by
  refine ⟨?_, ?_⟩
  · refine Eq.trans ?_ more.symm
    rw [← kid.pipe]
    by_cases same : j = s.i
    · subst same
      simp
    · simp [same]
  · exact place_later kid.place inside rfl (fun fork => absurd fork forked) later done before

theorem inv_fork (inv : Inv args s) (place : s.parent = .fork) (more : s.i < args.n) :
    Inv args { s with i := s.i + 1, child := update s.child s.i (.reading 0 0) } := by
  have vars := inv.vars
  simp only [Vars, place] at vars
  refine ⟨?_, fun j inside => ?_⟩
  · simp only [Vars, place]
    exact ⟨more, vars.2⟩
  · have kid := inv.kids j inside
    have where_now := kid.place
    have pipe := kid.pipe
    simp only [count, place, List.take_zero] at pipe
    have nothing : s.received j = [] := (List.append_eq_nil_iff.mp pipe).1
    refine ⟨?_, ?_⟩
    · simp only [count, place, List.take_zero]
      exact pipe
    · by_cases same : j = s.i
      · subst same
        simp only [update_self]
        exact ⟨by simp [nothing], Nat.zero_le _, rfl, by simp [Done, place], fun _ => Nat.lt_succ_self _⟩
      · simp only [update_of_ne same]
        cases here : s.child j with
        | absent =>
          rw [here] at where_now
          obtain ⟨_, later, empty⟩ := where_now
          exact ⟨place, by dsimp only; omega, empty⟩
        | reading r c =>
          rw [here] at where_now
          obtain ⟨length, low, sum, _, forked⟩ := where_now
          have before := forked place
          exact ⟨length, low, sum, by simp [Done, place], fun _ => Nat.lt_succ_of_lt before⟩
        | answering p c =>
          rw [here] at where_now
          exact absurd where_now.2.2.2.1 (by simp [place])
        | exited =>
          rw [here] at where_now
          obtain ⟨_, ends | answer⟩ := where_now
          · simp [Done, place] at ends
          · exact absurd answer.1 (by simp [place])
        | failed =>
          rw [here] at where_now
          exact where_now

theorem inv_loop (some_packet : 0 < args.num_packets) {packet : Packet} {num_packets : Nat}
    (inv : Inv args s) (forked : s.i = args.n) (place : s.parent = .fork ∨ s.parent = .send)
    (sent_all : ∀ j < args.n, count args s j = s.packets_sent) (values : Sent s s.packets_sent)
    (pending : s.p2parent = []) (total : s.packets_sent + num_packets = args.num_packets)
    (ready : packet.last = 0 ∧ packet.valid = VALID_PACKET)
    (same : 0 < s.packets_sent → packet = sent (s.packets_sent - 1)) :
    Inv args (packetLoop { s with packet, num_packets }) := by
  have before : s.parent ≠ .answer := by
    rcases place with fork | send
    · simp [fork]
    · simp [send]
  have waiting : ∀ j, ¬ Done s j := by
    intro j ends
    rcases place with fork | send
    · simp [Done, fork] at ends
    · simp [Done, send] at ends
  rw [packetLoop]
  split
  · rename_i more
    refine ⟨⟨forked, more, total, values, ready.1, ready.2, pending⟩, fun j inside => ?_⟩
    refine kid_later (inv.kids j inside) inside rfl rfl rfl (fun _ => forked) (by simp) ?_ before ?_
    · exact ⟨fun ends => ends.elim, fun ends => (waiting j ends).elim⟩
    · exact (sent_all j inside).symm
  · rename_i past
    dsimp only at past
    have all : s.packets_sent = args.num_packets := by omega
    refine ⟨⟨Nat.zero_le _, all ▸ values.2.2, ?_, pending⟩, fun j inside => ?_⟩
    · dsimp only
      rw [same (by omega), all]
      rfl
    · refine kid_later (inv.kids j inside) inside rfl rfl rfl (fun _ => forked) (by simp) ?_ before ?_
      · exact ⟨fun ends => absurd ends (Nat.not_lt_zero j), fun ends => (waiting j ends).elim⟩
      · rw [sent_all j inside, all]
        rfl

theorem inv_build (inv : Inv args s) (place : s.parent = .build) :
    Inv args { s with
      parent := .send, i := 0, packets_sent := s.packets_sent + 1, data := s.data + 1,
      cksum_parent := s.cksum_parent + s.data.setWidth 64,
      packet := { s.packet with
        seq_number := s.packets_sent + 1, data := s.data,
        checksum := s.cksum_parent + s.data.setWidth 64 } } := by
  have vars := inv.vars
  simp only [Vars, place] at vars
  obtain ⟨_, more, total, ⟨_, data, checksum⟩, last, valid, pending⟩ := vars
  have next : s.cksum_parent + s.data.setWidth 64 = cksum (s.packets_sent + 1) := by
    rw [checksum, data]
    rfl
  refine ⟨⟨Nat.zero_le _, more, Nat.succ_pos _, by dsimp only; omega, ⟨rfl, ?_, next⟩, ?_, pending⟩,
    fun j inside => ?_⟩
  · dsimp only
    rw [data]
    exact (BitVec.ofNat_add s.packets_sent 1).symm
  · dsimp only
    rw [next, last, valid, data]
    rfl
  · refine kid_later (inv.kids j inside) inside rfl rfl rfl (by simp [place]) (by simp) ?_ (by simp [place]) ?_
    · simp [Done, place]
    · simp only [count, place, Nat.not_lt_zero, if_false]
      omega

theorem inv_send (inv : Inv args s) (place : s.parent = .send) (more : s.i < args.n) :
    Inv args { s with i := s.i + 1, p2child := update s.p2child s.i (s.p2child s.i ++ [s.packet]) } := by
  have vars := inv.vars
  simp only [Vars, place] at vars
  obtain ⟨_, left, some_sent, total, values, packet, pending⟩ := vars
  refine ⟨?_, fun j inside => ?_⟩
  · simp only [Vars, place]
    exact ⟨more, left, some_sent, total, values, packet, pending⟩
  · refine kid_written (inv.kids j inside) inside (by simp [place]) (by simp [place]) (by simp [place]) (s.i + 1)
      (by simp [Done, place]) ?_
    simp only [count, place]
    by_cases same : j = s.i
    · rw [if_pos (by omega), if_neg (by omega), if_pos same, packet, ← stream_take (by omega),
        Nat.sub_add_cancel some_sent]
    · have low : j < s.i + 1 ↔ j < s.i := by omega
      simp only [low, if_neg same, List.append_nil]

theorem inv_last (inv : Inv args s) (place : s.parent = .last) (more : s.i < args.n) :
    Inv args { s with
      parent := .answer, p2child := update s.p2child s.i (s.p2child s.i ++ [s.packet]) } := by
  have vars := inv.vars
  simp only [Vars, place] at vars
  obtain ⟨_, checksum, packet, pending⟩ := vars
  refine ⟨⟨more, checksum, .inl pending⟩, fun j inside => ?_⟩
  refine kid_written (inv.kids j inside) inside (by simp) (by simp [place]) (by simp [place]) s.i
    (by simp [Done, place]) ?_
  simp only [count, place]
  by_cases same : j = s.i
  · rw [if_pos (by omega), if_neg (by omega), if_pos same, packet, stream_whole,
      List.take_of_length_le (Nat.le_of_eq (stream_length _))]
  · have low : j ≤ s.i ↔ j < s.i := by omega
    simp only [low, if_neg same, List.append_nil]

theorem inv_answered (inv : Inv args s) (place : s.parent = .answer)
    (exited : s.child s.i = .exited) (answered : List Nat) :
    Inv args { s with
      parent := .last, i := s.i + 1, packet := lastPacket args.num_packets, p2parent := [], answered } := by
  have vars := inv.vars
  simp only [Vars, place] at vars
  refine ⟨⟨vars.1, vars.2.1, rfl, rfl⟩, fun j inside => ?_⟩
  have kid := inv.kids j inside
  have where_now := kid.place
  refine ⟨?_, ?_⟩
  · have same : count args s j = if j < s.i + 1 then args.num_packets + 1 else args.num_packets := by
      simp only [count, place, Nat.lt_succ_iff]
    refine kid.pipe.trans ?_
    rw [same]
    rfl
  · dsimp only
    cases here : s.child j with
    | absent =>
      rw [here] at where_now
      exact absurd where_now.1 (by simp [place])
    | reading r c =>
      rw [here] at where_now
      obtain ⟨length, low, sum, waiting, _⟩ := where_now
      have other : j ≠ s.i := by
        rintro rfl
        rw [here] at exited
        cases exited
      simp only [Done, place] at waiting
      exact ⟨length, low, sum, by simp only [Done]; omega, fun fork => by cases fork⟩
    | answering p c =>
      rw [here] at where_now
      rw [where_now.2.2.2.2.1, here] at exited
      cases exited
    | exited =>
      rw [here] at where_now
      refine ⟨where_now.1, .inl ?_⟩
      rcases where_now.2 with ends | answer
      · simp only [Done, place] at ends
        exact Nat.lt_succ_of_lt ends
      · exact answer.2.1 ▸ Nat.lt_succ_self _
    | failed =>
      rw [here] at where_now
      exact where_now

theorem awaited (inv : Inv args s) (place : s.parent = .answer) (pending : s.p2parent = []) :
    (s.child s.i).alive = true := by
  have vars := inv.vars
  simp only [Vars, place] at vars
  have where_now := (inv.kids s.i vars.1).place
  cases here : s.child s.i with
  | reading r c => rfl
  | answering p c => rfl
  | absent =>
    rw [here] at where_now
    exact absurd where_now.1 (by simp [place])
  | exited =>
    rw [here] at where_now
    rcases where_now.2 with ends | answer
    · simp [Done, place] at ends
    · exact absurd pending answer.2.2
  | failed =>
    rw [here] at where_now
    exact where_now.elim

theorem inv_parent (inv : Inv args s) (some_packet : 0 < args.num_packets)
    (stepped : parent args room s = some t) : Inv args t := by
  have vars := inv.vars
  cases place : s.parent with
  | success => simp [parent, place] at stepped
  | failed => simp [parent, place] at stepped
  | fork =>
    simp only [parent, place] at stepped
    split at stepped
    · rename_i more
      obtain rfl := Option.some.inj stepped
      have after := inv_fork inv place more
      rw [place] at after
      exact after
    · obtain rfl := Option.some.inj stepped
      simp only [Vars, place] at vars
      obtain ⟨low, total, values, pending⟩ := vars
      have none_sent := values.1
      refine inv_loop some_packet inv (by omega) (.inl place) (fun j _ => ?_) (none_sent ▸ values) pending
        (by omega) ⟨rfl, rfl⟩ (by omega)
      simp only [count, place, none_sent]
  | build =>
    simp only [parent, place] at stepped
    obtain rfl := Option.some.inj stepped
    exact inv_build inv place
  | send =>
    simp only [Vars, place] at vars
    obtain ⟨low, left, some_sent, total, values, packet, pending⟩ := vars
    simp only [parent, place] at stepped
    split at stepped
    · rename_i more
      rw [write_child (inv.kids s.i more) (by simp [place]) (by simp [Done, place]) (by simp [place])] at stepped
      split at stepped
      · obtain rfl := Option.some.inj stepped
        have after := inv_send inv place more
        rw [place] at after
        exact after
      · cases stepped
    · obtain rfl := Option.some.inj stepped
      refine inv_loop some_packet inv (by omega) (.inr place) (fun j inside => ?_) values pending
        (by omega) ?_ (fun _ => packet)
      · simp only [count, place]
        exact if_pos (by omega)
      · rw [packet]
        exact ⟨rfl, rfl⟩
  | last =>
    simp only [Vars, place] at vars
    simp only [parent, place] at stepped
    split at stepped
    · rename_i more
      rw [write_child (inv.kids s.i more) (by simp [place]) (by simp [Done, place]) (by simp [place])] at stepped
      split at stepped
      · obtain rfl := Option.some.inj stepped
        have after := inv_last inv place more
        exact after
      · cases stepped
    · obtain rfl := Option.some.inj stepped
      refine ⟨Nat.zero_le _, fun j inside => ?_⟩
      have done : j < s.i := by omega
      refine kid_later (inv.kids j inside) inside rfl rfl rfl (by simp [place]) (by simp) ?_ (by simp [place]) ?_
      · simp [Done, place, done]
      · simp [count, place, done]
  | answer =>
    simp only [Vars, place] at vars
    simp only [parent, place] at stepped
    obtain ⟨more, checksum, pending | ⟨exited, pending⟩⟩ := vars
    · have some_alive : (List.range args.n).any (fun j => (s.child j).alive) = true :=
        List.any_eq_true.mpr ⟨s.i, List.mem_range.mpr more, awaited inv place pending⟩
      simp [pending, some_alive] at stepped
    · obtain ⟨_, valid, sum⟩ := last_packet some_packet
      rw [pending] at stepped
      simp only [valid, sum, checksum, ne_eq, not_true_eq_false, or_self, if_false] at stepped
      obtain rfl := Option.some.inj stepped
      have after := inv_answered inv place exited (s.answered ++ [s.i])
      rw [checksum] at *
      exact after
  | wait =>
    simp only [Vars, place] at vars
    simp only [parent, place] at stepped
    split at stepped
    · rename_i more
      split at stepped
      · cases stepped
      · obtain rfl := Option.some.inj stepped
        refine ⟨more, fun j inside => ?_⟩
        refine kid_later (inv.kids j inside) inside rfl rfl rfl (by simp [place]) (by simp) ?_ (by simp [place]) ?_
        · simp [Done, place]
        · simp [count, place]
    · obtain rfl := Option.some.inj stepped
      refine ⟨trivial, fun j inside => ?_⟩
      refine kid_later (inv.kids j inside) inside rfl rfl rfl (by simp [place]) (by simp) ?_ (by simp [place]) ?_
      · simp [Done, place]
      · simp [count, place]

theorem inv_initial : Inv args (initial args) :=
  ⟨⟨Nat.zero_le _, rfl, ⟨rfl, rfl, rfl⟩, rfl⟩, fun j _ => ⟨rfl, rfl, Nat.zero_le j, rfl⟩⟩

end kids

end PipeTest
