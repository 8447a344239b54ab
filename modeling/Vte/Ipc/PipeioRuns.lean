import Mathlib.Data.List.Perm.Subperm
import Vte.Base.Occurrences
import Vte.Base.Packets
import Vte.Ipc.Pipeio

/-!
Runs of pipeio: what is in the pipe and in the reader's buffer is the stream of the packets written less those
received, and the reader's loop ends with the last packet.
-/
namespace Pipeio
open Bytes CInt Function Machine Packets

/-- The conditions of `Suits` on the variables. -/
structure Good (args : Args) : Prop where
  some_writer : 0 < args.num_wrters
  words : 2 * NBPW ≤ args.size
  total : args.loop = true ∨ args.num_wrters * args.num_writes ≤ INT_MAX
  whole : args.size ≤ PIPE_BUF ∨ (args.num_wrters = 1 ∧ args.nonblocking = false)

def WriterPc.raised : WriterPc → Bool
  | .opening => false
  | .raise => false
  | _ => true

def sent (args : Args) : WriterPc → Nat
  | .opening => 0
  | .raise => 0
  | .pass j => j
  | .write j _ _ => j
  | .lower => args.num_writes
  | .exited => args.num_writes
  | .killed => args.num_writes

def WriterOk (args : Args) : WriterPc → Prop
  | .opening => True
  | .raise => True
  | .pass j => args.loop = true ∨ j ≤ args.num_writes
  | .write j io placed => (args.loop = true ∨ j < args.num_writes) ∧ io.buffer = 0 ∧ io.size = args.size ∧
      placed < args.size ∧ (args.size ≤ PIPE_BUF → placed = 0)
  | .lower => args.loop = false
  | .exited => args.loop = false
  | .killed => False

structure Written (args : Args) (writer : Nat → WriterPc) (written : List (Nat × Nat)) : Prop where
  place : ∀ w, WriterOk args (writer w)
  member : ∀ w j, (w, j) ∈ written ↔ w < args.num_wrters ∧ j < sent args (writer w)
  nodup : written.Nodup

/-- The part of a packet that is in the pipe before the rest; only a writer that is alone places parts. -/
def part (args : Args) (pid : Nat → Int) (writer : Nat → WriterPc) : List Byte :=
  match writer 0 with
  | .write j _ placed => (packet args.size (pid 0) j).take placed
  | _ => []

def buffered (s : State) : List Byte :=
  match s.reader with
  | .read io => s.readbuf.take io.buffer
  | _ => []

structure Stream (args : Args) (pid : Nat → Int) (s : State) : Prop where
  bytes : s.received.flatten ++ (buffered s ++ s.pipe) = (contents args pid s.written).flatten ++ part args pid s.writer
  sized : Sized args.size s.received
  readbuf : s.readbuf.length = args.size
  io : ∀ io, s.reader = .read io →
    io.buffer + io.size = args.size ∧ 0 < io.size ∧ (args.size ≤ PIPE_BUF → io.buffer = 0)

structure Counted (args : Args) (writer : Nat → WriterPc) (sem0 Nchildcomplete : Nat) : Prop where
  raised : sem0 ≤ (List.range args.num_wrters).countP fun w => (writer w).raised
  ended : Nchildcomplete ≤ (List.range args.num_wrters).countP fun w => (writer w).ended

def Raised (args : Args) (writer : Nat → WriterPc) : Prop := ∀ w < args.num_wrters, (writer w).raised = true

def ReaderOk (args : Args) (s : State) : Prop :=
  match s.reader with
  | .head => Raised args s.writer ∧ (args.loop = true ∨ s.i + s.received.length = args.num_wrters * args.num_writes)
  | .read _ => Raised args s.writer ∧
      (args.loop = true ∨ (0 < s.i ∧ s.i + s.received.length = args.num_wrters * args.num_writes))
  | .output => args.loop = false ∧ s.received.length = args.num_wrters * args.num_writes
  | .done => args.loop = false ∧ s.received.length = args.num_wrters * args.num_writes
  | _ => s.received = []

structure Calm (args : Args) (s : State) : Prop where
  silent : s.reports = []
  error : s.error = 0
  empty_read : s.empty_read = 0
  inside : ∀ store ∈ s.stores, store.1 + store.2 ≤ args.size

structure Inv (args : Args) (pid : Nat → Int) (s : State) : Prop where
  written : Written args s.writer s.written
  stream : Stream args pid s
  counted : Counted args s.writer s.sem0 s.Nchildcomplete
  reader : ReaderOk args s
  calm : Calm args s

section writers
variable {args : Args} {pid : Nat → Int} {writer : Nat → WriterPc} {written : List (Nat × Nat)} {w j : Nat}
  {pc : WriterPc}

theorem written_update (ok : Written args writer written) (place : WriterOk args pc)
    (same : sent args pc = sent args (writer w)) : Written args (update writer w pc) written := by
  refine ⟨fun v => ?_, fun v j => ?_, ok.nodup⟩
  · by_cases here : v = w
    · rwa [here, update_self]
    · rw [update_of_ne here]
      exact ok.place v
  · rw [ok.member v j]
    by_cases here : v = w
    · rw [here, update_self, same]
    · rw [update_of_ne here]

theorem written_snoc (ok : Written args writer written) (inside : w < args.num_wrters)
    (place : WriterOk args (.pass (j + 1))) (before : sent args (writer w) = j) :
    Written args (update writer w (.pass (j + 1))) (written ++ [(w, j)]) := by
  have fresh : (w, j) ∉ written := by
    rw [ok.member w j, before]
    exact fun member => Nat.lt_irrefl j member.2
  refine ⟨fun v => ?_, fun v k => ?_, by simpa using ok.nodup.concat fresh⟩
  · by_cases here : v = w
    · rwa [here, update_self]
    · rw [update_of_ne here]
      exact ok.place v
  · rw [List.mem_append, List.mem_singleton, ok.member v k, Prod.mk.injEq]
    by_cases here : v = w
    · subst here
      rw [update_self, before]
      simp only [sent, true_and]
      omega
    · rw [update_of_ne here]
      simp [here]

theorem counted_update {sem0 Nchildcomplete : Nat} (ok : Counted args writer sem0 Nchildcomplete)
    (raised : (writer w).raised = true → pc.raised = true) (ended : (writer w).ended = true → pc.ended = true) :
    Counted args (update writer w pc) sem0 Nchildcomplete := by
  refine ⟨Nat.le_trans ok.raised (List.countP_mono_left fun v _ before => ?_),
    Nat.le_trans ok.ended (List.countP_mono_left fun v _ before => ?_)⟩
  · by_cases here : v = w
    · rw [here] at before ⊢
      rw [update_self]
      exact raised before
    · rwa [update_of_ne here]
  · by_cases here : v = w
    · rw [here] at before ⊢
      rw [update_self]
      exact ended before
    · rwa [update_of_ne here]

theorem raised_update (all : Raised args writer) (raised : pc.raised = true) :
    Raised args (update writer w pc) := by
  intro v inside
  by_cases here : v = w
  · rwa [here, update_self]
  · rw [update_of_ne here]
    exact all v inside

theorem part_update (unwritten : ∀ j io placed, writer w ≠ .write j io placed)
    (start : ∀ j io placed, pc = .write j io placed → placed = 0) :
    part args pid (update writer w pc) = part args pid writer := by
  by_cases first : w = 0
  · subst first
    have before : part args pid writer = [] := by
      rw [part]
      split
      · rename_i here
        exact absurd here (unwritten _ _ _)
      · rfl
    rw [before, part, update_self]
    split
    · rw [start _ _ _ rfl, List.take_zero]
    · rfl
  · rw [part, part, update_of_ne (Ne.symm first)]

theorem part_short (words : 2 * NBPW ≤ args.size) (ok : ∀ w, WriterOk args (writer w)) :
    (part args pid writer).length < args.size := by
  rw [part]
  split
  · rename_i here
    have place := ok 0
    rw [here] at place
    exact Nat.lt_of_le_of_lt (List.length_take_le _ _) place.2.2.2.1
  · exact Nat.lt_of_lt_of_le (by decide) words

theorem part_none (ok : ∀ w, WriterOk args (writer w)) (small : args.size ≤ PIPE_BUF) :
    part args pid writer = [] := by
  rw [part]
  split
  · rename_i here
    have place := ok 0
    rw [here] at place
    rw [place.2.2.2.2 small, List.take_zero]
  · rfl

theorem contents_sized (words : 2 * NBPW ≤ args.size) (ps : List (Nat × Nat)) :
    Sized args.size (contents args pid ps) := by
  intro p member
  obtain ⟨q, _, rfl⟩ := List.mem_map.mp member
  exact packet_length words (pid q.1) q.2

theorem packets_length (args : Args) : (packets args).length = args.num_wrters * args.num_writes := by
  rw [packets, List.length_product, List.length_range, List.length_range]

theorem mem_packets : (w, j) ∈ packets args ↔ w < args.num_wrters ∧ j < args.num_writes := by
  refine List.pair_mem_product.trans ?_
  rw [List.mem_range, List.mem_range]

theorem sent_le (place : WriterOk args pc) (ends : args.loop = false) : sent args pc ≤ args.num_writes := by
  cases pc with
  | opening => exact Nat.zero_le _
  | raise => exact Nat.zero_le _
  | pass j => exact place.resolve_left (by simp [ends])
  | write j io placed => exact Nat.le_of_lt (place.1.resolve_left (by simp [ends]))
  | lower => exact Nat.le_refl _
  | exited => exact Nat.le_refl _
  | killed => exact Nat.le_refl _

theorem written_subset (ok : Written args writer written) (ends : args.loop = false) :
    written ⊆ packets args := by
  rintro ⟨w, j⟩ member
  obtain ⟨inside, before⟩ := (ok.member w j).mp member
  exact mem_packets.mpr ⟨inside, Nat.lt_of_lt_of_le before (sent_le (ok.place w) ends)⟩

theorem written_length (ok : Written args writer written) (ends : args.loop = false) :
    written.length ≤ args.num_wrters * args.num_writes := by
  rw [← packets_length args]
  exact (List.subperm_of_subset ok.nodup (written_subset ok ends)).length_le

theorem written_perm (ok : Written args writer written) (ends : args.loop = false)
    (all : args.num_wrters * args.num_writes ≤ written.length) : written.Perm (packets args) := by
  rw [← packets_length args] at all
  exact (List.subperm_of_subset ok.nodup (written_subset ok ends)).perm_of_length_le all

end writers

section streams
variable {args : Args} {pid : Nat → Int} {s : State}

theorem received_front (good : Good args) (inv : Inv args pid s) :
    s.received <+: contents args pid s.written ∧ buffered s ++ s.pipe =
      ((contents args pid s.written).drop s.received.length).flatten ++ part args pid s.writer :=
  taken inv.stream.sized (contents_sized good.words s.written) (part_short good.words inv.written.place)
    inv.stream.bytes

theorem received_length (good : Good args) (inv : Inv args pid s) : s.received.length ≤ s.written.length := by
  have front := (received_front good inv).1.length_le
  rwa [contents, List.length_map] at front

theorem all_received (good : Good args) (inv : Inv args pid s) (ends : args.loop = false)
    (all : args.num_wrters * args.num_writes ≤ s.received.length) :
    s.written.Perm (packets args) ∧ s.received = contents args pid s.written := by
  have low := received_length good inv
  have high := written_length inv.written ends
  have front := (received_front good inv).1
  refine ⟨written_perm inv.written ends (by omega), front.eq_of_length_le ?_⟩
  rw [contents, List.length_map]
  omega

theorem pipe_whole (good : Good args) (inv : Inv args pid s) (small : args.size ≤ PIPE_BUF)
    (filled : s.pipe ≠ []) : args.size ≤ s.pipe.length := by
  have left := (received_front good inv).2
  have empty : buffered s = [] := by
    rw [buffered]
    split
    · rename_i io here
      rw [(inv.stream.io io here).2.2 small, List.take_zero]
    · rfl
  rw [part_none inv.written.place small, empty, List.nil_append, List.append_nil] at left
  have sized : Sized args.size ((contents args pid s.written).drop s.received.length) := fun p member =>
    contents_sized good.words s.written p (List.mem_of_mem_drop member)
  rw [left] at filled ⊢
  exact left_whole sized filled

theorem open_writer (good : Good args) (inv : Inv args pid s) {io : VteLioSync.State} (place : s.reader = .read io)
    (empty : s.pipe = []) : hasWriter args s = true := by
  have reader := inv.reader
  simp only [ReaderOk, place] at reader
  obtain ⟨raised, more⟩ := reader
  by_contra closed
  have ended : ∀ w < args.num_wrters, (s.writer w).ended = true := by
    intro w inside
    by_contra going
    refine closed (List.any_eq_true.mpr ⟨w, List.mem_range.mpr inside, ?_⟩)
    have past := raised w inside
    cases here : s.writer w with
    | opening | raise => simp [here, WriterPc.raised] at past
    | pass | write | lower => simp [WriterPc.opened, WriterPc.ended]
    | exited | killed => simp [here, WriterPc.ended] at going
  have exited : ∀ w < args.num_wrters, s.writer w = .exited := by
    intro w inside
    have ok := inv.written.place w
    have past := ended w inside
    cases here : s.writer w with
    | exited => rfl
    | killed =>
      rw [here] at ok
      exact ok.elim
    | opening | raise | pass | write | lower => simp [here, WriterPc.ended] at past
  have ends : args.loop = false := by
    have ok := inv.written.place 0
    rw [exited 0 good.some_writer] at ok
    exact ok
  have all : packets args ⊆ s.written := by
    rintro ⟨w, j⟩ member
    obtain ⟨inside, low⟩ := mem_packets.mp member
    rw [inv.written.member w j, exited w inside]
    exact ⟨inside, low⟩
  have nodup : (packets args).Nodup := List.nodup_range.product List.nodup_range
  have count := (List.subperm_of_subset nodup all).length_le
  rw [packets_length] at count
  -- the reader's buffer alone holds less than a packet
  have left := congrArg List.length (received_front good inv).2
  have sized : Sized args.size ((contents args pid s.written).drop s.received.length) := fun p member =>
    contents_sized good.words s.written p (List.mem_of_mem_drop member)
  have short : (buffered s).length < args.size := by
    have ok := inv.stream.io io place
    rw [buffered, place]
    exact Nat.lt_of_le_of_lt (List.length_take_le _ _) (by omega)
  rw [empty, List.append_nil, List.length_append, flatten_length sized, List.length_drop, contents,
    List.length_map] at left
  have none_left : s.written.length - s.received.length = 0 := by
    by_contra some_left
    have large := Nat.le_mul_of_pos_left args.size (Nat.pos_of_ne_zero some_left)
    omega
  rcases more with loop | ⟨positive, counter⟩
  · simp [ends] at loop
  · omega

end streams

section writing
variable {args : Args} {pid : Nat → Int} {capacity : Nat} {s t : State} {w k j : Nat}

theorem inv_move (inv : Inv args pid s) {pc : WriterPc} (ok : WriterOk args pc)
    (same : sent args pc = sent args (s.writer w)) (raised : (s.writer w).raised = true → pc.raised = true)
    (ended : (s.writer w).ended = true → pc.ended = true)
    (unwritten : ∀ j io placed, s.writer w ≠ .write j io placed)
    (start : ∀ j io placed, pc = .write j io placed → placed = 0) :
    Inv args pid { s with writer := update s.writer w pc } := by
  refine ⟨written_update inv.written ok same, ⟨?_, inv.stream.sized, inv.stream.readbuf, inv.stream.io⟩,
    counted_update inv.counted raised ended, ?_,
    ⟨inv.calm.silent, inv.calm.error, inv.calm.empty_read, inv.calm.inside⟩⟩
  · dsimp only
    rw [part_update unwritten start]
    exact inv.stream.bytes
  · have reader := inv.reader
    have all : Raised args s.writer → Raised args (update s.writer w pc) := by
      intro all v inside
      by_cases here : v = w
      · rw [here, update_self]
        exact raised (all w (here ▸ inside))
      · rw [update_of_ne here]
        exact all v inside
    cases place : s.reader with
    | head | read =>
      simp only [ReaderOk, place] at reader ⊢
      exact ⟨all reader.1, reader.2⟩
    | start | opening | raise | wait | output | done =>
      simp only [ReaderOk, place] at reader ⊢
      exact reader

theorem inv_sems (inv : Inv args pid s) (sem0 sem1 : Nat) {Nchildcomplete : Nat}
    (counted : Counted args s.writer sem0 Nchildcomplete) :
    Inv args pid { s with sem0, sem1, Nchildcomplete } :=
  ⟨inv.written, ⟨inv.stream.bytes, inv.stream.sized, inv.stream.readbuf, inv.stream.io⟩, counted, inv.reader,
    ⟨inv.calm.silent, inv.calm.error, inv.calm.empty_read, inv.calm.inside⟩⟩

theorem inv_stores (inv : Inv args pid s) (words : 2 * NBPW ≤ args.size) :
    Inv args pid { s with stores := s.stores ++ [(NBPW, NBPW), (0, NBPW)] } := by
  refine ⟨inv.written, ⟨inv.stream.bytes, inv.stream.sized, inv.stream.readbuf, inv.stream.io⟩, inv.counted,
    inv.reader, ⟨inv.calm.silent, inv.calm.error, inv.calm.empty_read, fun store member => ?_⟩⟩
  rcases List.mem_append.mp member with before | last
  · exact inv.calm.inside store before
  · simp only [NBPW, List.mem_cons, List.not_mem_nil, or_false] at last words
    rcases last with rfl | rfl <;> dsimp only <;> omega

theorem inv_raise (inv : Inv args pid s) (inside : w < args.num_wrters) (place : s.writer w = .raise) :
    Inv args pid { s with writer := update s.writer w (.pass 0), sem0 := s.sem0 + 1 } := by
  have moved : Inv args pid { s with writer := update s.writer w (.pass 0) } :=
    inv_move inv (.inr (Nat.zero_le _)) (by rw [place]; rfl) (fun _ => rfl) (by simp [place, WriterPc.ended])
      (by simp [place]) (by simp)
  refine inv_sems moved _ s.sem1 ⟨?_, moved.counted.ended⟩
  have one_more : (List.range args.num_wrters).countP (fun v => (update s.writer w (.pass 0) v).raised) =
      (List.range args.num_wrters).countP (fun v => (s.writer v).raised) + 1 := by
    refine Occurrences.countP_succ List.nodup_range (List.mem_range.mpr inside) ?_ ?_ fun v _ other => ?_
    · simp [place, WriterPc.raised]
    · simp [WriterPc.raised]
    · rw [update_of_ne other]
  dsimp only
  rw [one_more]
  exact Nat.succ_le_succ inv.counted.raised

theorem round_whole (io : VteLioSync.State) : VteLioSync.round false io (.moved io.size) =
    .returned io.size (io.moves ++ [(io.buffer, io.size)]) := by
  simp [VteLioSync.round]

theorem inv_written (inv : Inv args pid s) (inside : w < args.num_wrters) {io : VteLioSync.State}
    {placed : Nat} (place : s.writer w = .write j io placed) {bytes : List Byte}
    (rest : part args pid s.writer ++ bytes = packet args.size (pid w) j)
    (nothing : part args pid (update s.writer w (.pass (j + 1))) = []) :
    Inv args pid (afterWrite args w j io io.size { s with pipe := s.pipe ++ bytes }) := by
  have ok := inv.written.place w
  rw [place] at ok
  obtain ⟨more, _, size, _, _⟩ := ok
  have ok : WriterOk args (.pass (j + 1)) := more.imp id Nat.succ_le_of_lt
  have before : sent args (s.writer w) = j := by rw [place]; rfl
  have raised : (s.writer w).raised = true := by rw [place]; rfl
  rw [afterWrite, round_whole]
  dsimp only
  rw [if_neg (by rw [size]; simp), List.append_nil]
  refine ⟨written_snoc inv.written inside ok before, ⟨?_, inv.stream.sized, inv.stream.readbuf, inv.stream.io⟩,
    counted_update inv.counted (fun _ => rfl) (by simp [place, WriterPc.ended]), ?_,
    ⟨inv.calm.silent, inv.calm.error, inv.calm.empty_read, inv.calm.inside⟩⟩
  · have stream := inv.stream.bytes
    have buffer : ∀ pipe reports written writer, buffered { s with pipe, reports, written, writer } = buffered s :=
      fun _ _ _ _ => rfl
    dsimp only
    rw [buffer, nothing, List.append_nil, contents, List.map_append, List.flatten_append, List.map_singleton,
      List.flatten_singleton, ← rest, ← List.append_assoc, ← List.append_assoc, ← List.append_assoc]
    rw [← List.append_assoc] at stream
    rw [stream]
    rfl
  · have reader := inv.reader
    cases here : s.reader with
    | head | read =>
      simp only [ReaderOk, here] at reader ⊢
      exact ⟨raised_update reader.1 rfl, reader.2⟩
    | start | opening | raise | wait | output | done =>
      simp only [ReaderOk, here] at reader ⊢
      exact reader

theorem inv_placed (inv : Inv args pid s) (large : PIPE_BUF < args.size) {io : VteLioSync.State} {placed : Nat}
    (place : s.writer 0 = .write j io placed) (more : placed + k < args.size) :
    Inv args pid { s with
      pipe := s.pipe ++ ((packet args.size (pid 0) j).drop placed).take k
      writer := update s.writer 0 (.write j io (placed + k)) } := by
  have ok := inv.written.place 0
  rw [place] at ok
  obtain ⟨going, buffer, size, _, _⟩ := ok
  have ok : WriterOk args (.write j io (placed + k)) :=
    ⟨going, buffer, size, more, fun small => absurd large (Nat.not_lt.mpr small)⟩
  refine ⟨written_update inv.written ok (by rw [place]; rfl), ⟨?_, inv.stream.sized, inv.stream.readbuf, inv.stream.io⟩,
    counted_update inv.counted (fun _ => rfl) (by simp [place, WriterPc.ended]), ?_,
    ⟨inv.calm.silent, inv.calm.error, inv.calm.empty_read, inv.calm.inside⟩⟩
  · have stream := inv.stream.bytes
    have before : part args pid s.writer = (packet args.size (pid 0) j).take placed := by rw [part, place]
    have after : part args pid (update s.writer 0 (.write j io (placed + k))) =
        (packet args.size (pid 0) j).take (placed + k) := by rw [part, update_self]
    have same : ∀ pipe writer, buffered { s with pipe, writer } = buffered s := fun _ _ => rfl
    dsimp only
    rw [same, after, List.take_add, ← List.append_assoc, ← List.append_assoc, ← List.append_assoc]
    rw [before, ← List.append_assoc] at stream
    rw [stream]
  · have reader := inv.reader
    cases here : s.reader with
    | head | read =>
      simp only [ReaderOk, here] at reader ⊢
      exact ⟨raised_update reader.1 rfl, reader.2⟩
    | start | opening | raise | wait | output | done =>
      simp only [ReaderOk, here] at reader ⊢
      exact reader

theorem still_reading (good : Good args) (inv : Inv args pid s) (inside : w < args.num_wrters)
    {io : VteLioSync.State} {placed : Nat} (place : s.writer w = .write j io placed) : s.reader ≠ .done := by
  intro done
  have reader := inv.reader
  simp only [ReaderOk, done] at reader
  obtain ⟨ends, all⟩ := reader
  have ok := inv.written.place w
  rw [place] at ok
  have low : j < args.num_writes := ok.1.resolve_left (by simp [ends])
  have perm := (all_received good inv ends (Nat.le_of_eq all.symm)).1
  have member := perm.mem_iff.mpr (mem_packets.mpr ⟨inside, low⟩)
  rw [inv.written.member w j, place] at member
  exact Nat.lt_irrefl j member.2

theorem write_running (going : s.reader ≠ .done) (io : VteLioSync.State) (placed : Nat) :
    write args pid capacity w k j io placed s =
      if io.size ≤ PIPE_BUF then
        if s.pipe.length + io.size ≤ capacity then
          some (afterWrite args w j io io.size { s with
            pipe := s.pipe ++ ((packet args.size (pid w) j).drop (io.buffer + placed)).take io.size })
        else none
      else if 0 < k ∧ placed + k ≤ io.size ∧ s.pipe.length + k ≤ capacity then
        if args.nonblocking then
          some (afterWrite args w j io k { s with
            pipe := s.pipe ++ ((packet args.size (pid w) j).drop (io.buffer + placed)).take k })
        else if placed + k = io.size then
          some (afterWrite args w j io io.size { s with
            pipe := s.pipe ++ ((packet args.size (pid w) j).drop (io.buffer + placed)).take k })
        else some { s with
          pipe := s.pipe ++ ((packet args.size (pid w) j).drop (io.buffer + placed)).take k
          writer := update s.writer w (.write j io (placed + k)) }
      else none := by
  rw [write]
  cases here : s.reader with
  | done => exact absurd here going
  | start | opening | raise | wait | head | read | output => rfl

theorem inv_write (good : Good args) (inv : Inv args pid s) (inside : w < args.num_wrters)
    {io : VteLioSync.State} {placed : Nat} (place : s.writer w = .write j io placed)
    (stepped : write args pid capacity w k j io placed s = some t) : Inv args pid t := by
  have ok := inv.written.place w
  rw [place] at ok
  obtain ⟨more, buffer, size, short, at_once⟩ := ok
  have length := packet_length good.words (pid w) j
  have nothing : part args pid (update s.writer w (.pass (j + 1))) = [] ∨ w ≠ 0 := by
    by_cases first : w = 0
    · subst first
      exact .inl (by rw [part, update_self])
    · exact .inr first
  rw [write_running (still_reading good inv inside place)] at stepped
  rw [buffer, Nat.zero_add] at stepped
  split at stepped
  · rename_i small
    rw [size] at small
    split at stepped
    · obtain rfl := Option.some.inj stepped
      rw [at_once small, List.drop_zero, List.take_of_length_le (by rw [length, size])]
      have ok : ∀ v, WriterOk args (update s.writer w (.pass (j + 1)) v) :=
        (written_snoc inv.written inside (more.imp id Nat.succ_le_of_lt) (by rw [place]; rfl)).place
      refine inv_written inv inside place ?_ (part_none ok small)
      rw [part_none inv.written.place small, List.nil_append]
    · cases stepped
  · rename_i large
    rw [size] at large
    obtain ⟨alone, waits⟩ := good.whole.resolve_left large
    obtain rfl : w = 0 := by omega
    have before : part args pid s.writer = (packet args.size (pid 0) j).take placed := by rw [part, place]
    split at stepped
    · rename_i fits
      rw [if_neg (by simp [waits])] at stepped
      split at stepped
      · rename_i last
        obtain rfl := Option.some.inj stepped
        refine inv_written inv inside place ?_ (nothing.resolve_right (by simp))
        rw [before, ← List.take_add, last, size, List.take_of_length_le (Nat.le_of_eq length)]
      · rename_i unfinished
        obtain rfl := Option.some.inj stepped
        exact inv_placed inv (Nat.lt_of_not_le large) place (by omega)
    · cases stepped

theorem inv_writer (good : Good args) (inv : Inv args pid s) (inside : w < args.num_wrters)
    (stepped : writer args pid capacity w k s = some t) : Inv args pid t := by
  have ok := inv.written.place w
  cases place : s.writer w with
  | exited => simp [writer, place] at stepped
  | killed => simp [writer, place] at stepped
  | opening =>
    have moved : Inv args pid { s with writer := update s.writer w .raise } :=
      inv_move inv trivial (by rw [place]; rfl) (by simp [place, WriterPc.raised])
        (by simp [place, WriterPc.ended]) (by simp [place]) (by simp)
    simp only [writer, place] at stepped
    split at stepped
    · cases stepped
    · exact Option.some.inj stepped ▸ moved
  | raise =>
    simp only [writer, place] at stepped
    obtain rfl := Option.some.inj stepped
    exact inv_raise inv inside place
  | pass j =>
    rw [place] at ok
    simp only [writer, place] at stepped
    split at stepped
    · rename_i more
      obtain rfl := Option.some.inj stepped
      have some_size : 0 < args.size := Nat.lt_of_lt_of_le (by decide) good.words
      have moved : Inv args pid { s with writer := update s.writer w (.write j ⟨0, args.size, []⟩ 0) } :=
        inv_move inv ⟨more.symm, rfl, rfl, some_size, fun _ => rfl⟩ (by rw [place]; rfl) (fun _ => rfl)
          (by simp [place, WriterPc.ended]) (by simp [place]) (by simp)
      exact inv_stores moved good.words
    · rename_i last
      obtain rfl := Option.some.inj stepped
      rw [not_or, Bool.not_eq_true] at last
      have all : j = args.num_writes := Nat.le_antisymm (ok.resolve_left (by simp [last.2])) (Nat.le_of_not_lt last.1)
      exact inv_move inv last.2 (by rw [place, all]; rfl) (fun _ => rfl)
        (by simp [place, WriterPc.ended]) (by simp [place]) (by simp)
  | write j io placed =>
    simp only [writer, place] at stepped
    exact inv_write good inv inside place stepped
  | lower =>
    rw [place] at ok
    simp only [writer, place] at stepped
    split at stepped
    · obtain rfl := Option.some.inj stepped
      have moved : Inv args pid { s with writer := update s.writer w .exited } :=
        inv_move inv ok (by rw [place]; rfl) (fun _ => rfl) (fun _ => rfl) (by simp [place]) (by simp)
      exact inv_sems moved _ _ moved.counted
    · cases stepped

end writing

end Pipeio
