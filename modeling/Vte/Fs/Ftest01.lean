import Vte.Base.Bitmap
import Vte.Base.CInt
import Vte.Base.Ensures
import Vte.Base.SparseFile

/-!
`dotest` and `domisc` of ftest01.c for one child and its own file, on a file system where every
call succeeds: a hole reads as zero, a write stores all its bytes, a truncation drops the bytes from
the new size on. A step of the loops takes the values of `rand()` that it needs.
-/
namespace VteFtest01
open Bitmap Bytes CInt Patterned SparseFile Stopping

structure Child where
  testers : Nat
  me : Nat
  csize : Nat
  maxSize : Nat
  miscIntvl : Nat
  iterations : Nat
  meInside : me < testers
  csizePos : 0 < csize
  oneChunk : csize ≤ maxSize
  maxInt : maxSize < 2147483648
  miscPos : 0 < miscIntvl

def Child.nchunks (c : Child) : Nat := c.maxSize / c.csize

def Child.nbytes (c : Child) : Nat := (c.nchunks + 7) / 8

def Child.chunkAt (c : Child) (i : Nat) : Nat := i * c.csize

/-- `enum m_type`, and the value that `++type` gives after the last one -/
inductive MType
  | fsync
  | trunc
  | sync
  | fstat
  | past
deriving DecidableEq

def MType.next : MType → MType
  | .fsync => .trunc
  | .trunc => .sync
  | .sync => .fstat
  | .fstat => .past
  | .past => .past

inductive Place
  | iteration
  | random
  | finish
  | returned
deriving DecidableEq

structure State where
  place : Place
  iterations : Nat
  file : List Byte
  fileMax : Nat
  bits : List Byte
  holdBits : List Byte
  val : Byte
  count : Int
  collide : Int
  whenmisc : Int
  type : MType
  trFlag : Bool
deriving DecidableEq

/-- The values of `rand()` for the chunk, for the chunk to truncate to and for `NEXTMISC`. -/
structure Draws where
  chunk : Nat
  trunc : Nat
  misc : Nat

inductive Fault
  | lseek0
  | zeroShort
  | zeroVerify
  | valShort
  | valVerify
  | lseek1
  | fstatMismatch
  | divByZero
  | outsideBits
deriving DecidableEq

section code
variable (c : Child)

def nextMisc (draw : Nat) : Except Fault Int := do
  let r ← remainder .divByZero draw c.miscIntvl
  .ok (int32 (r + 5))

def clearBits : Nat → Nat → List Byte → Option (Nat × List Byte)
  | 0, _, _ => none
  | fuel + 1, chunk, bits =>
    if chunk % 8 ≠ 0 then do
      let bits ← clearBit bits chunk
      clearBits fuel (chunk + 1) bits
    else some (chunk, bits)

/-- `for (; chunk < nchunks; chunk += 8)` -/
def clearBytes (nchunks : Nat) : Nat → Nat → List Byte → Option (List Byte)
  | 0, _, _ => none
  | fuel + 1, chunk, bits =>
    if chunk < nchunks then do
      let bits ← clearByte bits chunk
      clearBytes nchunks fuel (chunk + 8) bits
    else some bits

def clearFrom (chunk : Nat) (bits : List Byte) : Option (List Byte) := do
  let (chunk, bits) ← clearBits 8 chunk bits
  clearBytes c.nchunks (c.nchunks + 1) chunk bits

/-- The case `m_trunc`; `ftruncate` and `truncate`, taken in turn, do the same to the file. -/
def truncCase (draw : Nat) (s : State) : Except Fault State := do
  let below ← quotient .divByZero s.fileMax c.csize
  let chunk ← remainder .divByZero draw below
  let bits ← orStop .outsideBits (clearFrom c chunk s.bits)
  .ok { s with
    fileMax := c.chunkAt chunk
    file := resize 0 s.file (c.chunkAt chunk)
    trFlag := !s.trFlag
    bits := bits }

def miscCase (draw : Nat) (s : State) : MType → Except Fault State
  | .trunc => truncCase c draw s
  | .fstat => if s.file.length ≠ s.fileMax then .error .fstatMismatch else .ok s
  | .fsync | .sync | .past => .ok s

def domisc (draw : Nat) (s : State) : Except Fault State := do
  let type := if s.type = .past then .fsync else s.type
  let s ← miscCase c draw s type
  .ok { s with type := type.next }

/-- `if (misc_intvl && --whenmisc <= 0)` -/
def atMiscInterval (d : Draws) (s : State) : Except Fault State :=
  let whenmisc := int32 (s.whenmisc - 1)
  if whenmisc ≤ 0 then do
    let holdBits ← orStop .outsideBits (orBits c.nbytes s.holdBits s.bits)
    let s ← domisc c d.trunc { s with holdBits }
    let whenmisc ← nextMisc c d.misc
    .ok { s with whenmisc }
  else .ok { s with whenmisc }

/-- `bits[chunk / 8] |= (1 << (chunk % 8)); ++count;` -/
def seenFirst (chunk : Nat) (s : State) : Except Fault State := do
  let bits ← orStop .outsideBits (setBit s.bits chunk)
  .ok { s with bits, count := int32 (s.count + 1) }

/-- The three cases for the bytes read: the chunk is at or beyond the end, its bit is off, its bit is
    on. -/
def verify (chunk : Nat) (buf : List Byte) (s : State) : Except Fault State :=
  if s.fileMax ≤ c.chunkAt chunk then seenFirst chunk s
  else do
    let seen ← orStop .outsideBits (testBit s.bits chunk)
    if !seen then
      if buf.length ≠ c.csize then .error .zeroShort
      else if buf ≠ List.replicate c.csize 0 then .error .zeroVerify
      else seenFirst chunk s
    else if buf.length ≠ c.csize then .error .valShort
    else if buf ≠ List.replicate c.csize s.val then .error .valVerify
    else .ok { s with collide := int32 (s.collide + 1) }

/-- The write of `val_buf`, and the end of the file that the program keeps. -/
def writeChunk (chunk pos : Nat) (s : State) : State :=
  { s with
    file := writeAt 0 s.file pos (List.replicate c.csize s.val)
    fileMax := if c.chunkAt chunk + c.csize > s.fileMax then c.chunkAt chunk + c.csize
      else s.fileMax }

/-- One turn of `while (count < nchunks)`. -/
def pass (d : Draws) (s : State) : Except Fault State := do
  let chunk ← remainder .divByZero d.chunk c.nchunks
  let pos ← orStop .lseek0 (seek (c.chunkAt chunk))
  let buf := readAt s.file pos c.csize
  let xfr := buf.length
  let s ← verify c chunk buf s
  let pos ← orStop .lseek1 (seek ((pos + xfr : Nat) - (xfr : Int)))
  let s ← atMiscInterval c d (writeChunk c chunk pos s)
  if int32 (s.count + s.collide) > int32 (2 * c.nchunks) then .ok { s with place := .finish }
  else .ok s

/-- `iterations-- > 0`, and the start of an iteration. -/
def startIteration (s : State) : State :=
  { s with
    place := .random
    iterations := s.iterations - 1
    file := resize 0 s.file 0
    fileMax := 0
    bits := List.replicate c.nbytes 0
    holdBits := List.replicate c.nbytes 0
    count := 0
    collide := 0 }

def step (s : State) (d : Draws) : Except Fault State :=
  match s.place with
  | .iteration =>
    if s.iterations > 0 then .ok (startIteration c s) else .ok { s with place := .returned }
  | .random => if s.count < c.nchunks then pass c d s else .ok { s with place := .finish }
  | .finish => .ok { s with place := .iteration, val := s.val + 1 }
  | .returned => .ok s

/-- What is done before the loops. The file has just been opened with `O_TRUNC`. Where `nchunks + 7`
    is no int, the size that `calloc` is asked for is one of no array: the test is broken. -/
def initial (draw : Nat) : Except Fault (Option State) :=
  if c.nchunks + 7 < 2147483648 then do
    let whenmisc ← nextMisc c draw
    let perChild ← quotient .divByZero 64 c.testers
    .ok (some
      { place := .iteration
        iterations := c.iterations
        file := []
        fileMax := 0
        bits := List.replicate c.nbytes 0
        holdBits := List.replicate c.nbytes 0
        val := BitVec.ofNat 8 (perChild * c.me + 1)
        count := 0
        collide := 0
        whenmisc := whenmisc
        type := .fsync
        trFlag := false })
  else .ok none

def dotest (first : Nat) (draws : List Draws) : Except Fault (Option State) := do
  match ← initial c first with
  | some s => do
    let t ← draws.foldlM (step c) s
    .ok (some t)
  | none => .ok none

end code

section bounds
variable {c : Child} {i : Nat}

theorem nchunks_pos (c : Child) : 0 < c.nchunks := Nat.div_pos c.oneChunk c.csizePos

theorem chunk_end (inside : i < c.nchunks) : c.chunkAt i + c.csize ≤ c.nchunks * c.csize :=
  block_before inside c.csize

theorem chunk_in_bits {bits : List Byte} (bytes : bits.length = c.nbytes) (inside : i < c.nchunks) :
    i / 8 < bits.length := by
  rw [bytes, Child.nbytes]
  omega

end bounds

section clearing
variable {c : Child}

theorem clear_bits_some (fuel : Nat) {chunk : Nat} {bits : List Byte}
    (enough : (8 - chunk % 8) % 8 < fuel) (inside : chunk ≤ 8 * bits.length) :
    ∃ next after, clearBits fuel chunk bits = some (next, after) ∧ next % 8 = 0 ∧
      chunk ≤ next ∧ after.length = bits.length ∧
      ∀ k, marked after k = (marked bits k && decide (k < chunk ∨ next ≤ k)) := by
  induction fuel generalizing chunk bits with
  | zero => omega
  | succ fuel ih =>
    rw [clearBits]
    split
    · rename_i within
      have byte : chunk / 8 < bits.length := by omega
      obtain ⟨once, cleared, same, bit⟩ := clear_bit_some byte
      have enough' : (8 - (chunk + 1) % 8) % 8 < fuel := by omega
      have inside' : chunk + 1 ≤ 8 * once.length := by omega
      obtain ⟨next, after, rest, whole, more, length, bits_after⟩ := ih enough' inside'
      refine ⟨next, after, ?_, whole, by omega, length.trans same, fun k => ?_⟩
      · rw [cleared]
        exact rest
      · rw [bits_after k, bit k, Bool.and_assoc, ← Bool.decide_and]
        congr 2
        exact propext (by omega)
    · rename_i whole
      refine ⟨chunk, bits, rfl, by omega, Nat.le_refl _, rfl, fun k => ?_⟩
      have all : k < chunk ∨ chunk ≤ k := by omega
      simp [all]

theorem clear_bytes_some {nchunks : Nat} (fuel : Nat) {chunk : Nat} {bits : List Byte}
    (enough : nchunks - chunk < fuel) (whole : chunk % 8 = 0)
    (bytes : bits.length = (nchunks + 7) / 8) :
    ∃ after, clearBytes nchunks fuel chunk bits = some after ∧ after.length = bits.length ∧
      ∀ k, marked after k = (marked bits k && decide (k < chunk)) := by
  induction fuel generalizing chunk bits with
  | zero => omega
  | succ fuel ih =>
    rw [clearBytes]
    split
    · rename_i below
      have inside : chunk / 8 < bits.length := by omega
      obtain ⟨once, cleared, same, byte⟩ := clear_byte_some inside
      have enough' : nchunks - (chunk + 8) < fuel := by omega
      have whole' : (chunk + 8) % 8 = 0 := by omega
      obtain ⟨after, rest, length, bits_after⟩ := ih enough' whole' (same.trans bytes)
      refine ⟨after, ?_, length.trans same, fun k => ?_⟩
      · rw [cleared]
        exact rest
      · rw [bits_after k, byte k, Bool.and_assoc, ← Bool.decide_and]
        congr 2
        exact propext (by omega)
    · rename_i past
      refine ⟨bits, rfl, rfl, fun k => ?_⟩
      by_cases low : k < chunk
      · simp [low]
      · rw [marked_beyond (by omega)]
        simp

theorem clear_from_some {chunk : Nat} {bits : List Byte} (bytes : bits.length = c.nbytes)
    (inside : chunk < c.nchunks) :
    ∃ after, clearFrom c chunk bits = some after ∧ after.length = c.nbytes ∧
      ∀ k, marked after k = (marked bits k && decide (k < chunk)) := by
  rw [Child.nbytes] at bytes ⊢
  have enough : (8 - chunk % 8) % 8 < 8 := by omega
  have within : chunk ≤ 8 * bits.length := by omega
  obtain ⟨next, partly, toByte, whole, more, same, bits_partly⟩ := clear_bits_some 8 enough within
  have enough' : c.nchunks - next < c.nchunks + 1 := by omega
  obtain ⟨after, toEnd, length, bits_after⟩ :=
    clear_bytes_some (c.nchunks + 1) enough' whole (same.trans bytes)
  refine ⟨after, ?_, by omega, fun k => ?_⟩
  · rw [clearFrom, toByte]
    exact toEnd
  · rw [bits_after k, bits_partly k, Bool.and_assoc, ← Bool.decide_and]
    congr 2
    exact propext (by omega)

end clearing

section spec
variable (c : Child)

structure Tracks (s : State) : Prop where
  size : s.file.length = s.fileMax
  whole : c.csize ∣ s.fileMax
  inside : s.fileMax ≤ c.nchunks * c.csize
  bytes : s.bits.length = c.nbytes
  holdBytes : s.holdBits.length = c.nbytes

structure Marks (s : State) : Prop where
  on : ∀ i < c.nchunks, marked s.bits i = true → c.chunkAt i < s.fileMax ∧
    readAt s.file (c.chunkAt i) c.csize = List.replicate c.csize s.val
  off : ∀ i < c.nchunks, marked s.bits i = false → s.fileMax ≤ c.chunkAt i ∨
    readAt s.file (c.chunkAt i) c.csize = List.replicate c.csize 0

def Sound (s : State) : Prop :=
  Tracks c s ∧ (s.place = .random ∨ s.place = .finish → Marks c s)

end spec

section proofs
variable {c : Child} {s t : State}

def ChunkMarks (c : Child) (s : State) (i : Nat) : Prop :=
  if marked s.bits i then c.chunkAt i < s.fileMax ∧ Filled s.file (c.chunkAt i) c.csize s.val
  else Filled s.file (c.chunkAt i) c.csize 0

theorem marks_iff (tracks : Tracks c s) : Marks c s ↔ ∀ i < c.nchunks, ChunkMarks c s i := by
  have read (i : Nat) (v : Byte) (below : c.chunkAt i < s.fileMax) :
      readAt s.file (c.chunkAt i) c.csize = List.replicate c.csize v ↔ Filled s.file (c.chunkAt i) c.csize v := by
    apply read_filled
    rw [tracks.size]
    exact block_whole tracks.whole below
  constructor
  · intro marks i inside
    unfold ChunkMarks
    split
    · rename_i on
      obtain ⟨below, same⟩ := marks.on i inside on
      exact ⟨below, (read i _ below).mp same⟩
    · rename_i off
      rcases Nat.lt_or_ge (c.chunkAt i) s.fileMax with below | beyond
      · rcases marks.off i inside (Bool.eq_false_of_not_eq_true off) with past | same
        · omega
        · exact (read i _ below).mp same
      · exact filled_beyond (by rwa [tracks.size]) c.csize
  · intro all
    constructor
    · intro i inside on
      have here := all i inside
      rw [ChunkMarks, if_pos on] at here
      exact ⟨here.1, (read i _ here.1).mpr here.2⟩
    · intro i inside off
      have here := all i inside
      rw [ChunkMarks, off, if_neg Bool.false_ne_true] at here
      rcases Nat.lt_or_ge (c.chunkAt i) s.fileMax with below | beyond
      · exact .inr ((read i _ below).mpr here)
      · exact .inl beyond

structure Good (c : Child) (s : State) : Prop where
  tracks : Tracks c s
  chunks : ∀ i < c.nchunks, ChunkMarks c s i

theorem good_sound (good : Good c s) : Sound c s :=
  ⟨good.tracks, fun _ => (marks_iff good.tracks).mpr good.chunks⟩

structure Seen (c : Child) (chunk : Nat) (s t : State) : Prop where
  file : t.file = s.file
  fileMax : t.fileMax = s.fileMax
  holdBits : t.holdBits = s.holdBits
  val : t.val = s.val
  bytes : t.bits.length = c.nbytes
  marks : ∀ k, marked t.bits k = (marked s.bits k || decide (k = chunk))

theorem seen_first_seen {chunk : Nat} (tracks : Tracks c s) (inside : chunk < c.nchunks) :
    Ensures (Seen c chunk s) Never (seenFirst chunk s) := by
  obtain ⟨bits, set, same, after⟩ := set_bit_some (chunk_in_bits tracks.bytes inside)
  rw [seenFirst, set]
  exact ⟨rfl, rfl, rfl, rfl, same.trans tracks.bytes, after⟩

theorem verify_seen {chunk : Nat} (good : Good c s) (inside : chunk < c.nchunks) :
    Ensures (Seen c chunk s) Never (verify c chunk (readAt s.file (c.chunkAt chunk) c.csize) s) := by
  obtain ⟨tracks, chunks⟩ := good
  have here := chunks chunk inside
  unfold verify
  split
  · exact seen_first_seen tracks inside
  · rename_i below
    have reach : c.chunkAt chunk + c.csize ≤ s.file.length := by
      rw [tracks.size]
      exact block_whole tracks.whole (Nat.lt_of_not_le below)
    have long : (readAt s.file (c.chunkAt chunk) c.csize).length = c.csize := by
      rw [read_length]
      omega
    have no_short : ¬ (readAt s.file (c.chunkAt chunk) c.csize).length ≠ c.csize :=
      not_not_intro long
    rw [test_bit_some (chunk_in_bits tracks.bytes inside)]
    unfold ChunkMarks at here
    cases bit : marked s.bits chunk with
    | false =>
      rw [bit, if_neg Bool.false_ne_true, ← read_filled reach] at here
      change Ensures _ _ (if _ then _ else _)
      rw [if_neg no_short, if_neg (not_not_intro here)]
      exact seen_first_seen tracks inside
    | true =>
      rw [bit, if_pos rfl, ← read_filled reach] at here
      change Ensures _ _ (if _ then _ else _)
      rw [if_neg no_short, if_neg (not_not_intro here.2)]
      refine ⟨rfl, rfl, rfl, rfl, tracks.bytes, fun k => ?_⟩
      by_cases same : k = chunk
      · simp [same, bit]
      · simp [same]

theorem write_good {chunk : Nat} (good : Good c s) (inside : chunk < c.nchunks)
    (seen : Seen c chunk s t) :
    Good c (writeChunk c chunk (c.chunkAt chunk) t) ∧ c.csize ≤ (writeChunk c chunk (c.chunkAt chunk) t).fileMax := by
  obtain ⟨tracks, chunks⟩ := good
  have limit := chunk_end inside
  have grown : (writeChunk c chunk (c.chunkAt chunk) t).fileMax = max s.fileMax (c.chunkAt chunk + c.csize) := by
    simp only [writeChunk, seen.fileMax, Nat.max_def]
    split <;> split <;> omega
  have kept : Tracks c (writeChunk c chunk (c.chunkAt chunk) t) := by
    constructor
    · rw [grown]
      change (writeAt 0 t.file _ _).length = _
      rw [write_at_length, List.length_replicate, seen.file, tracks.size]
    · rw [grown]
      exact grown_whole tracks.whole chunk
    · have old := tracks.inside
      omega
    · exact seen.bytes
    · change t.holdBits.length = _
      rw [seen.holdBits, tracks.holdBytes]
  refine ⟨⟨kept, fun i low => ?_⟩, by omega⟩
  have before := chunks i low
  unfold ChunkMarks at before ⊢
  rw [grown]
  change if marked t.bits i then _ ∧ Filled (writeAt 0 t.file _ _) _ _ t.val
    else Filled (writeAt 0 t.file _ _) _ _ 0
  rw [seen.marks, seen.file, seen.val]
  by_cases same : i = chunk
  · subst same
    rw [if_pos (by simp)]
    have positive := c.csizePos
    exact ⟨by omega, filled_write s.file _ _ _⟩
  · have apart := blocks_apart same c.csize
    have unmarked : (marked s.bits i || decide (i = chunk)) = marked s.bits i := by simp [same]
    rw [unmarked, filled_write_apart (by rwa [List.length_replicate]),
      filled_write_apart (by rwa [List.length_replicate])]
    split
    · rename_i on
      rw [if_pos on] at before
      exact ⟨by omega, before.2⟩
    · rename_i off
      rw [if_neg off] at before
      exact before

theorem trunc_good (draw : Nat) (good : Good c s) (some_chunk : c.csize ≤ s.fileMax) :
    Ensures (Good c) Never (truncCase c draw s) := by
  obtain ⟨tracks, chunks⟩ := good
  have positive := c.csizePos
  have below : 0 < s.fileMax / c.csize := Nat.div_pos some_chunk positive
  have bound : s.fileMax / c.csize ≤ c.nchunks := by
    rw [← Nat.mul_div_cancel c.nchunks positive]
    exact Nat.div_le_div_right tracks.inside
  refine ensures_bind (quotient_value _ s.fileMax positive) fun _ same => ?_
  subst same
  refine ensures_bind (remainder_low _ draw below) fun chunk low => ?_
  obtain ⟨bits, cleared, bytes, after⟩ := clear_from_some tracks.bytes (Nat.lt_of_lt_of_le low bound)
  have shorter : c.chunkAt chunk ≤ s.fileMax := by
    have whole : s.fileMax / c.csize * c.csize ≤ s.fileMax := Nat.div_mul_le_self _ _
    exact Nat.le_trans (Nat.mul_le_mul_right _ (Nat.le_of_lt low)) whole
  rw [cleared]
  refine ⟨⟨resize_length 0 _ _, Nat.dvd_mul_left _ _, ?_, bytes, tracks.holdBytes⟩, fun i inside => ?_⟩
  · exact Nat.le_trans shorter tracks.inside
  · have before := chunks i inside
    unfold ChunkMarks at before ⊢
    change if marked bits i then _ < c.chunkAt chunk ∧ Filled (resize 0 s.file _) _ _ s.val
      else Filled (resize 0 s.file _) _ _ 0
    rw [after]
    by_cases kept : i < chunk
    · have inside : c.chunkAt i + c.csize ≤ c.chunkAt chunk := block_before kept c.csize
      rw [filled_resize_below inside, filled_resize_below inside]
      have same : (marked s.bits i && decide (i < chunk)) = marked s.bits i := by simp [kept]
      rw [same]
      split
      · rename_i on
        rw [if_pos on] at before
        exact ⟨by omega, before.2⟩
      · rename_i off
        rwa [if_neg off] at before
    · rw [if_neg (by simp [kept])]
      apply filled_beyond
      rw [resize_length]
      exact Nat.mul_le_mul_right _ (Nat.le_of_not_lt kept)

theorem good_congr (good : Good c s) (file : t.file = s.file) (fileMax : t.fileMax = s.fileMax)
    (bits : t.bits = s.bits) (val : t.val = s.val) (hold : t.holdBits.length = c.nbytes) :
    Good c t := by
  obtain ⟨⟨size, whole, inside, bytes, _⟩, chunks⟩ := good
  refine ⟨⟨?_, ?_, ?_, ?_, hold⟩, fun i low => ?_⟩
  · rw [file, fileMax, size]
  · rw [fileMax]
    exact whole
  · rw [fileMax]
    exact inside
  · rw [bits, bytes]
  · have here := chunks i low
    unfold ChunkMarks at here ⊢
    rwa [file, fileMax, bits, val]

theorem misc_case_good (draw : Nat) (type : MType) (good : Good c s)
    (some_chunk : c.csize ≤ s.fileMax) : Ensures (Good c) Never (miscCase c draw s type) := by
  cases type with
  | trunc => exact trunc_good draw good some_chunk
  | fstat =>
    rw [miscCase, if_neg (not_not_intro good.tracks.size)]
    exact good
  | fsync => exact good
  | sync => exact good
  | past => exact good

theorem domisc_good (draw : Nat) (good : Good c s) (some_chunk : c.csize ≤ s.fileMax) :
    Ensures (Good c) Never (domisc c draw s) := by
  refine ensures_bind (misc_case_good draw _ good some_chunk) fun t kept => ?_
  exact good_congr kept rfl rfl rfl rfl kept.tracks.holdBytes

theorem next_misc_some (c : Child) (draw : Nat) :
    Ensures (fun _ => True) Never (nextMisc c draw) :=
  ensures_bind (remainder_low _ draw c.miscPos) fun _ _ => trivial

theorem misc_good (d : Draws) (good : Good c s) (some_chunk : c.csize ≤ s.fileMax) :
    Ensures (Good c) Never (atMiscInterval c d s) := by
  have hold := good.tracks.holdBytes
  unfold atMiscInterval
  dsimp only
  split
  · obtain ⟨held, ored, same⟩ := or_bits_some c.nbytes (Nat.le_of_eq hold.symm)
      (Nat.le_of_eq good.tracks.bytes.symm)
    rw [ored]
    have ready : Good c { s with holdBits := held } :=
      good_congr good rfl rfl rfl rfl (same.trans hold)
    refine ensures_rest _ ?_
    refine ensures_bind (domisc_good d.trunc ready some_chunk) fun t kept => ?_
    refine ensures_bind (next_misc_some c d.misc) fun n _ => ?_
    exact good_congr kept rfl rfl rfl rfl kept.tracks.holdBytes
  · exact good_congr good rfl rfl rfl rfl hold

theorem pass_good (d : Draws) (good : Good c s) : Ensures (Good c) Never (pass c d s) := by
  refine ensures_bind (remainder_low _ d.chunk (nchunks_pos c)) fun chunk inside => ?_
  have back (xfr : Nat) : ((c.chunkAt chunk + xfr : Nat) : Int) - xfr = c.chunkAt chunk := by omega
  rw [seek_nat]
  refine ensures_rest _ ?_
  refine ensures_bind (verify_seen good inside) fun t seen => ?_
  rw [back, seek_nat]
  refine ensures_rest _ ?_
  obtain ⟨written, some_chunk⟩ := write_good good inside seen
  refine ensures_bind (misc_good d written some_chunk) fun u kept => ?_
  split
  · exact good_congr kept rfl rfl rfl rfl kept.tracks.holdBytes
  · exact kept

theorem start_good (c : Child) (s : State) : Good c (startIteration c s) := by
  refine ⟨⟨resize_length 0 _ _, Nat.dvd_zero _, Nat.zero_le _, List.length_replicate,
    List.length_replicate⟩, fun i _ => ?_⟩
  unfold ChunkMarks
  have off : marked (startIteration c s).bits i = false := marked_zeros c.nbytes i
  rw [off, if_neg Bool.false_ne_true]
  apply filled_beyond
  change (resize 0 s.file 0).length ≤ _
  rw [resize_length]
  exact Nat.zero_le _

theorem step_sound (s : State) (d : Draws) (sound : Sound c s) :
    Ensures (Sound c) Never (step c s d) := by
  obtain ⟨tracks, marks⟩ := sound
  have moved {place : Place} (val : Byte) (out : ¬ (place = .random ∨ place = .finish)) :
      Sound c { s with place, val } :=
    ⟨⟨tracks.size, tracks.whole, tracks.inside, tracks.bytes, tracks.holdBytes⟩,
      fun within => absurd within out⟩
  unfold step
  split
  · split
    · exact good_sound (start_good c s)
    · exact moved s.val (by decide)
  · rename_i place
    have good : Good c s := ⟨tracks, (marks_iff tracks).mp (marks (.inl place))⟩
    split
    · exact ensures_mono (pass_good d good) (fun _ => good_sound) fun _ => id
    · exact good_sound (good_congr good rfl rfl rfl rfl tracks.holdBytes)
  · exact moved (s.val + 1) (by decide)
  · exact ⟨tracks, marks⟩

theorem initial_sound (c : Child) (first : Nat) :
    Ensures (fun o => (o = none ↔ 2147483648 ≤ c.nchunks + 7) ∧ ∀ s ∈ o, Sound c s) Never
      (initial c first) := by
  unfold initial
  split
  · rename_i fits
    refine ensures_bind (next_misc_some c first) fun n _ => ?_
    refine ensures_bind (quotient_value _ 64 (Nat.zero_lt_of_lt c.meInside)) fun perChild _ => ?_
    refine ⟨by simp; omega, fun s found => ?_⟩
    obtain rfl := Option.some.inj found
    exact ⟨⟨rfl, Nat.dvd_zero _, Nat.zero_le _, List.length_replicate, List.length_replicate⟩,
      fun within => absurd within (by simp)⟩
  · rename_i large
    exact ⟨by simp; omega, fun s found => by cases found⟩

/-- No check fails, no division is by zero and no index leaves the bits, whatever `rand()` gives; at
    every loop head the end of the file is the one kept, and the bits say what the chunks hold. -/
theorem dotest_no_alarm (c : Child) (first : Nat) (draws : List Draws) :
    ∃ o, dotest c first draws = .ok o ∧ (o = none ↔ 2147483648 ≤ c.nchunks + 7) ∧ ∀ s ∈ o, Sound c s := by
  apply ensures_never
  refine ensures_bind (initial_sound c first) fun o started => ?_
  cases o with
  | none => exact started
  | some s =>
    obtain ⟨broken, sound⟩ := started
    refine ensures_bind (ensures_fold step_sound draws (sound s rfl)) fun t kept => ?_
    refine ⟨by simpa using broken, fun u found => ?_⟩
    obtain rfl := Option.some.inj found
    exact kept

end proofs
end VteFtest01
