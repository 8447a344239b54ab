import Mathlib.Data.List.Nodup
import Mathlib.Data.List.Perm.Subperm
import Mathlib.Logic.Function.Basic
import Vte.Base.CInt
import Vte.Base.Machine

/-!
kernel/ipc/ipc_stress/pipe_test_02.c: a parent that sends the same packets to all children, a last one to each in
turn, and reads one answer after each of these from the pipe that the children share. A write that finds no room
and a read that finds no data wait; with `O_NONBLOCK` they are tried again, which changes nothing.
-/
namespace PipeTest
open CInt Function Machine

def MB : Int := 1048576
def MAXCHILD : Nat := 126
def VALID_PACKET : Int := 0xabcdef01

def packetSize : Nat := 40

structure Options where
  num_children : Int
  megabytes : Option Int
  bytes : Option Int

structure Args where
  num_children : Int
  num_packets : Nat

def DEFAULT_PACKETS_TO_SEND : Nat := 1024

/-- The product is an `int`, the quotient that of an `unsigned long`. -/
def packets (o : Options) : Nat :=
  match o.megabytes with
  | some megabytes => u64 (int32 (megabytes * MB)) / packetSize
  | none =>
    match o.bytes with
    | some bytes => u64 bytes / packetSize
    | none => DEFAULT_PACKETS_TO_SEND

def setup (o : Options) : Option Args :=
  if packets o = 0 ∨ o.num_children = 0 ∨ o.num_children > MAXCHILD then none
  else some ⟨o.num_children, packets o⟩

def Args.n (args : Args) : Nat := args.num_children.toNat

/-- A packet without its `pid`, which is only printed. -/
structure Packet where
  last : Int
  valid : Int
  seq_number : Int
  checksum : BitVec 64
  data : BitVec 8
deriving DecidableEq

/-- Where the parent is: at the head of the loop over the children, in the loop that forks, at the start of a
packet, in the loop that writes it, at the write of a last packet and at the read after it, or at `waitpid`. -/
inductive ParentPc
  | fork
  | build
  | send
  | last
  | answer
  | wait
  | success
  | failed
deriving DecidableEq

/-- A child with the packets it has counted and `cksum_child`, and the packet to be sent back. -/
inductive ChildPc
  | absent
  | reading (packets_received : Nat) (cksum_child : BitVec 64)
  | answering (packet : Packet) (cksum_child : BitVec 64)
  | exited
  | failed
deriving DecidableEq

structure State where
  parent : ParentPc
  i : Nat
  num_packets : Nat
  packets_sent : Nat
  data : BitVec 8
  cksum_parent : BitVec 64
  packet : Packet
  child : Nat → ChildPc
  p2child : Nat → List Packet
  /-- the answers with their senders -/
  p2parent : List (Nat × Packet)
  /-- what each child has read -/
  received : Nat → List Packet
  /-- the senders of the answers that the parent has read and found right -/
  answered : List Nat

def initial (args : Args) : State where
  parent := .fork
  i := 0
  num_packets := args.num_packets
  packets_sent := 0
  data := 0
  cksum_parent := 0
  packet := ⟨0, 0, 0, 0, 0⟩
  child _ := .absent
  p2child _ := []
  p2parent := []
  received _ := []
  answered := []

inductive Act
  | parent
  | child (i : Nat)
  /-- the contents of the pipe to a child change by themselves -/
  | fault (i : Nat) (contents : List Packet)
deriving DecidableEq

def ChildPc.alive : ChildPc → Bool
  | .absent => false
  | .reading _ _ => true
  | .answering _ _ => true
  | .exited => false
  | .failed => false

section step
variable (args : Args) (room : Nat)

/-- Child `i` has the read end of its pipe until it answers, and so have the children before it, which were
forked when the parent still had it. -/
def readable (s : State) (i : Nat) : Bool :=
  (List.range i).any (fun j => (s.child j).alive) ||
    match s.child i with
    | .reading _ _ => true
    | _ => false

/-- A write to child `i`; `SIGPIPE` ends the parent when nobody can read. -/
def writeChild (i : Nat) (s after : State) : Option State :=
  if !readable s i then some { s with parent := .failed }
  else if (s.p2child i).length < room then
    some { after with p2child := update s.p2child i (s.p2child i ++ [s.packet]) }
  else none

def packetLoop (s : State) : State :=
  if 0 < s.num_packets then { s with parent := .build }
  else { s with parent := .last, i := 0, packet := { s.packet with last := 1 } }

def parent (s : State) : Option State :=
  match s.parent with
  | .fork =>
    if s.i < args.n then
      some { s with i := s.i + 1, child := update s.child s.i (.reading 0 0) }
    else some (packetLoop { s with packet := { s.packet with last := 0, valid := VALID_PACKET } })
  | .build =>
    let checksum := s.cksum_parent + s.data.setWidth 64
    some { s with
      parent := .send, i := 0, packets_sent := s.packets_sent + 1, data := s.data + 1,
      cksum_parent := checksum,
      packet := { s.packet with seq_number := s.packets_sent + 1, data := s.data, checksum } }
  | .send =>
    if s.i < args.n then writeChild room s.i s { s with i := s.i + 1 }
    else some (packetLoop { s with num_packets := s.num_packets - 1 })
  | .last =>
    if s.i < args.n then writeChild room s.i s { s with parent := .answer }
    else some { s with parent := .wait, i := 0 }
  | .answer =>
    match s.p2parent with
    | [] =>
      if (List.range args.n).any (fun j => (s.child j).alive) then none
      else some { s with parent := .failed }
    | (sender, packet) :: p2parent =>
      if packet.valid ≠ VALID_PACKET ∨ s.cksum_parent ≠ packet.checksum then
        some { s with parent := .failed, packet, p2parent }
      else some { s with
        parent := .last, i := s.i + 1, packet, p2parent, answered := s.answered ++ [sender] }
  | .wait =>
    if s.i < args.n then
      if (s.child s.i).alive then none else some { s with i := s.i + 1 }
    else some { s with parent := .success }
  | .success => none
  | .failed => none

def receive (packets_received : Nat) (cksum_child : BitVec 64) (packet : Packet) : ChildPc :=
  if packet.valid ≠ VALID_PACKET then .failed
  else if packet.last ≠ 0 then .answering packet cksum_child
  else if (packets_received + 1 : Int) ≠ packet.seq_number then .failed
  else if cksum_child + packet.data.setWidth 64 ≠ packet.checksum then .failed
  else .reading (packets_received + 1) (cksum_child + packet.data.setWidth 64)

def child (i : Nat) (s : State) : Option State :=
  match s.child i with
  | .reading packets_received cksum_child =>
    match s.p2child i with
    | [] => none
    | packet :: rest => some { s with
        p2child := update s.p2child i rest
        received := update s.received i (s.received i ++ [packet])
        child := update s.child i (receive packets_received cksum_child packet) }
  | .answering packet cksum_child =>
    if s.p2parent.length < room then some { s with
      p2parent := s.p2parent ++ [(i, { packet with valid := VALID_PACKET, checksum := cksum_child })]
      child := update s.child i .exited }
    else none
  | _ => none

def move (act : Act) (s : State) : Option State :=
  match act with
  | .parent => parent args room s
  | .child i => child room i s
  | .fault i contents => some { s with p2child := update s.p2child i contents }

def step (act : Act) (s : State) : Option State :=
  if s.parent = .success ∨ s.parent = .failed then none else move args room act s

end step

/-- The indices of `pid` and `p2child` that the parent's next step uses. -/
def indices (args : Args) (s : State) : List Nat :=
  match s.parent with
  | .build => [s.i]
  | .success => []
  | .failed => []
  | .answer => []
  | _ => if s.i < args.n then [s.i] else []

def cksum : Nat → BitVec 64
  | 0 => 0
  | k + 1 => cksum k + (BitVec.ofNat 8 k).setWidth 64

def sent (k : Nat) : Packet := ⟨0, VALID_PACKET, k + 1, cksum (k + 1), BitVec.ofNat 8 k⟩

def lastPacket (k : Nat) : Packet := { sent (k - 1) with last := 1 }

def stream (k : Nat) : List Packet := (List.range k).map sent ++ [lastPacket k]

/-- The answers come from children that have ended, one from each; this does not rest on the pipes to the children. -/
structure Answers (args : Args) (s : State) : Prop where
  created : ∀ j, s.child j ≠ .absent → j < args.n
  fresh : s.parent = .fork → s.i ≤ args.n ∧ ∀ j, s.i ≤ j → s.child j = .absent
  once : (s.answered ++ s.p2parent.map Prod.fst).Nodup
  ended : ∀ j ∈ s.answered ++ s.p2parent.map Prod.fst, s.child j = .exited
  /-- The parent has read an answer for each last packet before this one. -/
  count : match s.parent with
    | .last => s.answered.length = s.i ∧ s.i ≤ args.n
    | .answer => s.answered.length = s.i ∧ s.i < args.n
    | .wait => s.answered.length = args.n
    | .success => s.answered.length = args.n
    | .failed => True
    | _ => s.answered = []

section answers
variable {args : Args} {room : Nat} {s t : State}

theorem step_cases {act : Act} (stepped : step args room act s = some t) :
    s.parent ≠ .success ∧ s.parent ≠ .failed ∧ move args room act s = some t := by
  rw [step] at stepped
  split at stepped
  · cases stepped
  · rename_i runs
    rw [not_or] at runs
    exact ⟨runs.1, runs.2, stepped⟩

theorem answers_same (answers : Answers args s) (children : t.child = s.child)
    (pending : t.p2parent = s.p2parent) (read : t.answered = s.answered) (later : t.parent ≠ .fork)
    (count : match t.parent with
      | .last => t.answered.length = t.i ∧ t.i ≤ args.n
      | .answer => t.answered.length = t.i ∧ t.i < args.n
      | .wait => t.answered.length = args.n
      | .success => t.answered.length = args.n
      | .failed => True
      | _ => t.answered = []) : Answers args t := by
  refine ⟨?_, fun fork => absurd fork later, ?_, ?_, count⟩
  · rw [children]
    exact answers.created
  · rw [pending, read]
    exact answers.once
  · rw [pending, read, children]
    exact answers.ended

theorem answers_loop (answers : Answers args s) (none_read : s.answered = []) :
    Answers args (packetLoop s) := by
  rw [packetLoop]
  split
  · exact answers_same answers rfl rfl rfl (by simp) none_read
  · exact answers_same answers rfl rfl rfl (by simp) ⟨by simp [none_read], Nat.zero_le _⟩

theorem answers_parent (answers : Answers args s) (stepped : parent args room s = some t) :
    Answers args t := by
  have count := answers.count
  cases place : s.parent with
  | success => simp [parent, place] at stepped
  | failed => simp [parent, place] at stepped
  | fork =>
    simp only [place] at count
    simp only [parent, place] at stepped
    obtain ⟨low, absent⟩ := answers.fresh place
    split at stepped
    · rename_i more
      obtain rfl := Option.some.inj stepped
      have kept : ∀ j, s.child j = .exited → update s.child s.i (.reading 0 0) j = .exited := by
        intro j exited
        have other : j ≠ s.i := by
          rintro rfl
          rw [absent _ (Nat.le_refl _)] at exited
          cases exited
        rw [update_of_ne other, exited]
      refine ⟨fun j created => ?_, fun _ => ⟨more, fun j later => ?_⟩, answers.once,
        fun j member => kept j (answers.ended j member), count⟩
      · by_cases same : j = s.i
        · exact same ▸ more
        · exact answers.created j (by simpa [same] using created)
      · dsimp only at later
        have other : j ≠ s.i := by omega
        simp only [update_of_ne other]
        exact absent j (by omega)
    · obtain rfl := Option.some.inj stepped
      exact answers_loop ⟨answers.created, fun _ => answers.fresh place, answers.once, answers.ended, count⟩
        count
  | build =>
    simp only [place] at count
    simp only [parent, place] at stepped
    obtain rfl := Option.some.inj stepped
    exact answers_same answers rfl rfl rfl (by simp) count
  | send =>
    simp only [place] at count
    simp only [parent, place] at stepped
    split at stepped
    · simp only [writeChild] at stepped
      split at stepped
      · obtain rfl := Option.some.inj stepped
        exact answers_same answers rfl rfl rfl (by simp) trivial
      · split at stepped
        · obtain rfl := Option.some.inj stepped
          exact answers_same answers rfl rfl rfl (by simp) count
        · cases stepped
    · obtain rfl := Option.some.inj stepped
      exact answers_loop (answers_same answers rfl rfl rfl (by simp) count) count
  | last =>
    simp only [place] at count
    simp only [parent, place] at stepped
    split at stepped
    · rename_i more
      simp only [writeChild] at stepped
      split at stepped
      · obtain rfl := Option.some.inj stepped
        exact answers_same answers rfl rfl rfl (by simp) trivial
      · split at stepped
        · obtain rfl := Option.some.inj stepped
          exact answers_same answers rfl rfl rfl (by simp) ⟨count.1, more⟩
        · cases stepped
    · obtain rfl := Option.some.inj stepped
      exact answers_same answers rfl rfl rfl (by simp) (by dsimp only; omega)
  | answer =>
    simp only [place] at count
    simp only [parent, place] at stepped
    split at stepped
    · split at stepped
      · cases stepped
      · obtain rfl := Option.some.inj stepped
        exact answers_same answers rfl rfl rfl (by simp) trivial
    · rename_i sender packet rest pending
      have once := answers.once
      have ended := answers.ended
      rw [pending, List.map_cons] at once ended
      split at stepped
      · obtain rfl := Option.some.inj stepped
        refine ⟨answers.created, by simp, once.sublist ?_, fun j member => ended j ?_, trivial⟩
        · exact (List.sublist_cons_self _ _).append_left _
        · exact ((List.sublist_cons_self _ _).append_left _).mem member
      · obtain rfl := Option.some.inj stepped
        rw [List.append_cons] at once ended
        refine ⟨answers.created, by simp, once, ended, ?_⟩
        simp only [List.length_append, List.length_singleton]
        omega
  | wait =>
    simp only [place] at count
    simp only [parent, place] at stepped
    split at stepped
    · split at stepped
      · cases stepped
      · obtain rfl := Option.some.inj stepped
        exact answers_same answers rfl rfl rfl (by simp) count
    · obtain rfl := Option.some.inj stepped
      exact answers_same answers rfl rfl rfl (by simp) count

theorem answers_child (answers : Answers args s) {i : Nat} (stepped : child room i s = some t) :
    Answers args t := by
  have fresh : s.child i ≠ .absent → ∀ pc, s.parent = .fork → s.i ≤ args.n ∧
      ∀ j, s.i ≤ j → update s.child i pc j = .absent := by
    intro exists_i pc fork
    obtain ⟨low, absent⟩ := answers.fresh fork
    refine ⟨low, fun j later => ?_⟩
    have other : j ≠ i := by
      rintro rfl
      exact exists_i (absent j later)
    rw [update_of_ne other, absent j later]
  have created : s.child i ≠ .absent → ∀ pc j, update s.child i pc j ≠ .absent → j < args.n := by
    intro exists_i pc j exists_j
    by_cases same : j = i
    · exact same ▸ answers.created i exists_i
    · exact answers.created j (by simpa [same] using exists_j)
  cases here : s.child i with
  | absent => simp [child, here] at stepped
  | exited => simp [child, here] at stepped
  | failed => simp [child, here] at stepped
  | reading r c =>
    have exists_i : s.child i ≠ .absent := by simp [here]
    simp only [child, here] at stepped
    split at stepped
    · cases stepped
    · obtain rfl := Option.some.inj stepped
      refine ⟨created exists_i _, fresh exists_i _, answers.once, fun j member => ?_, answers.count⟩
      have exited := answers.ended j member
      have other : j ≠ i := by
        rintro rfl
        rw [here] at exited
        cases exited
      simp only [update_of_ne other, exited]
  | answering p c =>
    have exists_i : s.child i ≠ .absent := by simp [here]
    simp only [child, here] at stepped
    split at stepped
    · obtain rfl := Option.some.inj stepped
      have unanswered : i ∉ s.answered ++ s.p2parent.map Prod.fst := by
        intro member
        have exited := answers.ended i member
        rw [here] at exited
        cases exited
      refine ⟨created exists_i _, fresh exists_i _, ?_, fun j member => ?_, answers.count⟩
      · rw [List.map_append, ← List.append_assoc]
        simpa using answers.once.concat unanswered
      · by_cases same : j = i
        · subst same
          simp
        · rw [List.map_append, ← List.append_assoc] at member
          simp only [update_of_ne same]
          rcases List.mem_append.mp member with before | last
          · exact answers.ended j before
          · exact absurd (by simpa using last) same
    · cases stepped

theorem answers_step (act : Act) (s t : State) (answers : Answers args s)
    (stepped : step args room act s = some t) : Answers args t := by
  obtain ⟨_, _, moved⟩ := step_cases stepped
  cases act with
  | parent => exact answers_parent answers moved
  | child i => exact answers_child answers moved
  | fault i contents =>
    obtain rfl := Option.some.inj moved
    exact ⟨answers.created, answers.fresh, answers.once, answers.ended, answers.count⟩

theorem answers_initial : Answers args (initial args) :=
  ⟨fun _ exists_j => absurd rfl exists_j, fun _ => ⟨Nat.zero_le _, fun _ _ => rfl⟩, List.nodup_nil,
    fun _ member => (by cases member), rfl⟩

theorem answered_all (answers : Answers args s) (place : s.parent = .success) :
    s.answered.Perm (List.range args.n) := by
  have count := answers.count
  simp only [place] at count
  have nodup : s.answered.Nodup := (List.nodup_append.mp answers.once).1
  have subset : s.answered ⊆ List.range args.n := by
    intro j member
    have exited := answers.ended j (List.mem_append_left _ member)
    exact List.mem_range.mpr (answers.created j (by simp [exited]))
  exact (List.subperm_of_subset nodup subset).perm_of_length_le (by simp [count])

theorem failed_child (answers : Answers args s) {j : Nat} (failed : s.child j = .failed) :
    s.parent ≠ .success := by
  intro place
  have inside := answers.created j (by simp [failed])
  have member := (answered_all answers place).mem_iff.mpr (List.mem_range.mpr inside)
  have exited := answers.ended j (List.mem_append_left _ member)
  rw [failed] at exited
  cases exited

end answers

end PipeTest
