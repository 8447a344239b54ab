import Mathlib.Logic.Function.Basic
import Mathlib.Data.Fintype.Defs
import Vte.Base.Bitmap
import Vte.Base.Ensures
import Vte.Base.SparseFile

/-!
`dotest` of ftest04.c for all children on the one file they share. A step is what one child does up to
its next call of `readv` or `writev`; the children take their steps in any order. `domisc` calls
`fsync`, which changes nothing here, so the counter that decides when it is called is left out.
-/
namespace VteFtest04
open Bitmap Bytes SparseFile Stopping

def maxIovCnt : Nat := 16

structure Conditions where
  testers : Nat
  csize : Nat
  maxSize : Nat
  iterations : Nat
  csizePos : 0 < csize
  divisible : maxIovCnt ∣ csize
  oneChunk : testers * csize ≤ maxSize
  maxInt : maxSize < 2147483648

def Conditions.nchunks (t : Conditions) : Nat := t.maxSize / (t.testers * t.csize)

def Conditions.nbytes (t : Conditions) : Nat := (t.nchunks + 7) / 8

def Conditions.chunkAt (t : Conditions) (me i : Nat) : Nat := (i * t.testers + me) * t.csize

def Conditions.ioveclen (t : Conditions) : Nat := t.csize / maxIovCnt

/-- The outer loop, the inner loop before a `readv` and before the `writev`, the loop behind it, the
    end of the iteration and the return. -/
inductive Place
  | iteration
  | random
  | write (chunk xfr pos : Nat)
  | fill (i : Nat)
  | finish
  | returned
deriving DecidableEq

structure Child where
  place : Place
  iterations : Nat
  bits : List Byte
  val : Byte
  val0 : Byte
  count : Nat
  collide : Nat
  /-- the turns of the inner loop in this iteration, which the program does not count -/
  turns : Nat
deriving DecidableEq

structure System (testers : Nat) where
  file : List Byte
  child : Fin testers → Child

inductive Fault
  | lseek0
  | zeroShort
  | zeroVerify
  | valShort
  | valVerify
  | lseek1
  | writeShort
  | fillLseek
  | fillWrite
  | divByZero
  | outsideBits
deriving DecidableEq

section code
variable (t : Conditions)

/-- The bytes in the buffers of `readv`, one buffer after the other. -/
def readv (file : List Byte) (pos : Nat) : List Byte := readAt file pos (maxIovCnt * t.ioveclen)

def iovec (buf : List Byte) (i : Nat) : List Byte := (buf.drop (i * t.ioveclen)).take t.ioveclen

/-- The loop over `memcmp` with buffers filled with `v`. -/
def iovecsEqual (buf : List Byte) (v : Byte) : Bool :=
  (List.range maxIovCnt).all fun i => decide (iovec t buf i = List.replicate t.ioveclen v)

/-- What `writev` gathers from the buffers `val_iovec`. -/
def gathered (v : Byte) : List Byte :=
  (List.replicate maxIovCnt (List.replicate t.ioveclen v)).flatten

/-- `bits[chunk / 8] |= (1 << (chunk % 8));` -/
def mark (chunk : Nat) (c : Child) : Except Fault Child := do
  let bits ← orStop .outsideBits (setBit c.bits chunk)
  .ok { c with bits }

def verify (chunk : Nat) (buf : List Byte) (c : Child) : Except Fault Child :=
  if buf.length = 0 then mark chunk c
  else do
    let seen ← orStop .outsideBits (testBit c.bits chunk)
    if !seen then
      if buf.length ≠ t.csize then .error .zeroShort
      else if !iovecsEqual t buf c.val0 then .error .zeroVerify
      else do
        let c ← mark chunk c
        .ok { c with count := c.count + 1 }
    else if buf.length ≠ t.csize then .error .valShort
    else if !iovecsEqual t buf c.val then .error .valVerify
    else .ok { c with collide := c.collide + 1 }

/-- `while (count < nchunks)`, up to the cases for what `readv` gave. -/
def readTurn (me draw : Nat) (file : List Byte) (c : Child) : Except Fault Child := do
  let chunk ← remainder .divByZero draw t.nchunks
  let pos ← orStop .lseek0 (seek (t.chunkAt me chunk))
  let buf := readv t file pos
  let c ← verify t chunk buf c
  .ok { c with place := .write chunk buf.length (pos + buf.length), turns := c.turns + 1 }

def leaveRandom (c : Child) : Child :=
  { c with place := if c.count < t.nchunks then .fill 0 else .finish }

/-- From the `writev` of a turn to the end of the turn. -/
def writeTurn (xfr pos : Nat) (file : List Byte) (c : Child) : Except Fault (List Byte × Child) := do
  let pos ← orStop .lseek1 (seek ((pos : Int) - xfr))
  if (gathered t c.val).length < t.csize then .error .writeShort
  else
    let file := writeAt 0 file pos (gathered t c.val)
    if c.count + c.collide > 2 * t.nchunks then .ok (file, leaveRandom t c)
    else .ok (file, { c with place := .random })

/-- A turn of `for (i = 0; i < nchunks; i++)`. -/
def fillTurn (me i : Nat) (file : List Byte) (c : Child) : Except Fault (List Byte × Child) :=
  if i < t.nchunks then do
    let seen ← orStop .outsideBits (testBit c.bits i)
    if !seen then do
      let pos ← orStop .fillLseek (seek (t.chunkAt me i))
      if (gathered t c.val).length ≠ t.csize then .error .fillWrite
      else .ok (writeAt 0 file pos (gathered t c.val), { c with place := .fill (i + 1) })
    else .ok (file, { c with place := .fill (i + 1) })
  else .ok (file, { c with place := .finish })

def startIteration (c : Child) : Child :=
  { c with
    place := .random
    iterations := c.iterations - 1
    bits := List.replicate t.nbytes 0
    count := 0
    collide := 0
    turns := 0 }

def childStep (me draw : Nat) (file : List Byte) (c : Child) : Except Fault (List Byte × Child) :=
  match c.place with
  | .iteration =>
    if c.iterations > 0 then .ok (file, startIteration t c)
    else .ok (file, { c with place := .returned })
  | .random =>
    if c.count < t.nchunks then do
      let c ← readTurn t me draw file c
      .ok (file, c)
    else .ok (file, leaveRandom t c)
  | .write _ xfr pos => writeTurn t xfr pos file c
  | .fill i => fillTurn t me i file c
  | .finish => .ok (file, { c with place := .iteration, val0 := c.val, val := c.val + 1 })
  | .returned => .ok (file, c)

def step (s : System t.testers) (a : Fin t.testers × Nat) : Except Fault (System t.testers) := do
  let (file, c) ← childStep t a.1 a.2 s.file (s.child a.1)
  .ok { file, child := Function.update s.child a.1 c }

def initial : System t.testers :=
  { file := []
    child := fun me =>
      { place := .iteration
        iterations := t.iterations
        bits := List.replicate t.nbytes 0
        val := BitVec.ofNat 8 (64 / t.testers * me + 1)
        val0 := 0
        count := 0
        collide := 0
        turns := 0 } }

/-- The children and their values of `rand()` in the order of the steps. -/
def run (schedule : List (Fin t.testers × Nat)) : Except Fault (System t.testers) :=
  schedule.foldlM (step t) (initial t)

end code

section layout
variable {t : Conditions} {me other i j : Nat}

theorem nchunks_pos (t : Conditions) (child : me < t.testers) : 0 < t.nchunks :=
  Nat.div_pos t.oneChunk (Nat.mul_pos (Nat.zero_lt_of_lt child) t.csizePos)

theorem iovecs_whole (t : Conditions) : maxIovCnt * t.ioveclen = t.csize :=
  Nat.mul_div_cancel' t.divisible

theorem gathered_eq (t : Conditions) (v : Byte) : gathered t v = List.replicate t.csize v := by
  rw [gathered, List.flatten_replicate_replicate, iovecs_whole]

theorem iovecs_equal (t : Conditions) (v : Byte) :
    iovecsEqual t (List.replicate t.csize v) v = true := by
  rw [iovecsEqual, List.all_eq_true]
  intro i low
  have next : (i + 1) * t.ioveclen ≤ maxIovCnt * t.ioveclen :=
    Nat.mul_le_mul_right _ (List.mem_range.mp low)
  rw [Nat.succ_mul, iovecs_whole] at next
  apply decide_eq_true
  rw [iovec, List.drop_replicate, List.take_replicate]
  congr 1
  omega

theorem slot_unique (child : me < t.testers) (child' : other < t.testers)
    (same : i * t.testers + me = j * t.testers + other) : me = other ∧ i = j := by
  have place := congrArg (· % t.testers) same
  simp only [Nat.mul_add_mod_self_right, Nat.mod_eq_of_lt child, Nat.mod_eq_of_lt child'] at place
  subst place
  have positive : 0 < t.testers := Nat.zero_lt_of_lt child
  exact ⟨rfl, Nat.eq_of_mul_eq_mul_right positive (Nat.add_right_cancel same)⟩

end layout

structure Wrote (t : Conditions) (me i : Nat) (v : Byte) (file after : List Byte) : Prop where
  whole : t.csize ∣ after.length
  longer : file.length ≤ after.length
  below : t.chunkAt me i < after.length
  filled : Filled after (t.chunkAt me i) t.csize v
  apart : ∀ other < t.testers, ∀ j, ¬ (other = me ∧ j = i) → ∀ w,
    Filled file (t.chunkAt other j) t.csize w → Filled after (t.chunkAt other j) t.csize w

theorem wrote_chunk {t : Conditions} {me : Nat} {file : List Byte} (child : me < t.testers)
    (whole : t.csize ∣ file.length) (i : Nat) (v : Byte) :
    Wrote t me i v file (writeAt 0 file (t.chunkAt me i) (gathered t v)) := by
  have positive := t.csizePos
  have length := write_at_length 0 file (t.chunkAt me i) (gathered t v)
  rw [gathered_eq, List.length_replicate] at length
  rw [gathered_eq]
  constructor
  · rw [length]
    exact grown_whole whole _
  · omega
  · omega
  · exact filled_write file _ _ v
  · intro other child' j different w before
    have slots : j * t.testers + other ≠ i * t.testers + me := by
      intro same
      obtain ⟨who, which⟩ := slot_unique child' child same
      exact different ⟨who, which⟩
    rw [filled_write_apart]
    · exact before
    · rw [List.length_replicate]
      exact blocks_apart slots t.csize

section invariant
variable (t : Conditions) (me : Nat) (file : List Byte) (c : Child)

/-- The chunk has been written with `v`. -/
structure Holds (j : Nat) (v : Byte) : Prop where
  below : t.chunkAt me j < file.length
  filled : Filled file (t.chunkAt me j) t.csize v

def MarkedRight (j : Nat) : Prop :=
  if marked c.bits j then Holds t me file j c.val
  else Filled file (t.chunkAt me j) t.csize c.val0

def ChunkOk (j : Nat) : Prop :=
  match c.place with
  | .iteration => Filled file (t.chunkAt me j) t.csize c.val0
  | .random => MarkedRight t me file c j
  | .write chunk _ _ => j = chunk ∨ MarkedRight t me file c j
  | .fill i => marked c.bits j = true ∨ j < i → Holds t me file j c.val
  | .finish => Holds t me file j c.val
  | .returned => Filled file (t.chunkAt me j) t.csize c.val0

structure Counts (limit : Nat) : Prop where
  turns : c.turns = c.collide + population c.bits t.nchunks
  count : c.count ≤ population c.bits t.nchunks
  seen : c.count + c.collide ≤ limit

structure Reads (chunk xfr pos : Nat) : Prop where
  inside : chunk < t.nchunks
  position : pos = t.chunkAt me chunk + xfr
  on : marked c.bits chunk = true

def TurnsOk : Prop :=
  match c.place with
  | .random => Counts t c (2 * t.nchunks)
  | .write chunk xfr pos => Reads t me c chunk xfr pos ∧ Counts t c (2 * t.nchunks + 1)
  | _ => c.turns ≤ 3 * t.nchunks + 1

structure ChildOk : Prop where
  bytes : c.bits.length = t.nbytes
  chunks : ∀ j < t.nchunks, ChunkOk t me file c j
  turns : TurnsOk t me c

end invariant

section rank
variable (t : Conditions)

def iterationSteps : Nat := 7 * t.nchunks + 7

def Child.phase (c : Child) : Nat :=
  match c.place with
  | .iteration => 1
  | .random => 2 * (3 * t.nchunks + 1 - c.turns) + t.nchunks + 5
  | .write _ _ _ => 2 * (3 * t.nchunks + 1 - c.turns) + t.nchunks + 6
  | .fill i => t.nchunks - i + 3
  | .finish => 2
  | .returned => 0

def Child.rank (c : Child) : Nat :=
  if c.place = .returned then 0 else c.iterations * iterationSteps t + c.phase t

end rank

section frame
variable {t : Conditions} {me : Nat} {file after : List Byte} {c : Child}

theorem holds_mono {other j : Nat} {v : Byte} (holds : Holds t other file j v)
    (longer : file.length ≤ after.length)
    (kept : Filled file (t.chunkAt other j) t.csize v → Filled after (t.chunkAt other j) t.csize v) :
    Holds t other after j v :=
  ⟨Nat.lt_of_lt_of_le holds.below longer, kept holds.filled⟩

theorem marked_right_mono {j : Nat} (right : MarkedRight t me file c j)
    (longer : file.length ≤ after.length)
    (kept : ∀ v, Filled file (t.chunkAt me j) t.csize v → Filled after (t.chunkAt me j) t.csize v) :
    MarkedRight t me after c j := by
  unfold MarkedRight at right ⊢
  split
  · rename_i on
    rw [if_pos on] at right
    exact holds_mono right longer (kept c.val)
  · rename_i off
    rw [if_neg off] at right
    exact kept c.val0 right

theorem chunk_ok_mono {j : Nat} (ok : ChunkOk t me file c j) (longer : file.length ≤ after.length)
    (kept : ∀ v, Filled file (t.chunkAt me j) t.csize v → Filled after (t.chunkAt me j) t.csize v) :
    ChunkOk t me after c j := by
  unfold ChunkOk at ok ⊢
  cases place : c.place with
  | iteration =>
    rw [place] at ok
    exact kept c.val0 ok
  | random =>
    rw [place] at ok
    exact marked_right_mono ok longer kept
  | write chunk xfr pos =>
    rw [place] at ok
    exact ok.imp_right fun right => marked_right_mono right longer kept
  | fill i =>
    rw [place] at ok
    exact fun within => holds_mono (ok within) longer (kept c.val)
  | finish =>
    rw [place] at ok
    exact holds_mono ok longer (kept c.val)
  | returned =>
    rw [place] at ok
    exact kept c.val0 ok

structure Grown (t : Conditions) (me : Nat) (file after : List Byte) : Prop where
  whole : t.csize ∣ after.length
  longer : file.length ≤ after.length
  others : ∀ other < t.testers, other ≠ me → ∀ j v,
    Filled file (t.chunkAt other j) t.csize v → Filled after (t.chunkAt other j) t.csize v

theorem grown_refl (whole : t.csize ∣ file.length) : Grown t me file file :=
  ⟨whole, Nat.le_refl _, fun _ _ _ _ _ filled => filled⟩

theorem wrote_grown {i : Nat} {v : Byte} (wrote : Wrote t me i v file after) :
    Grown t me file after :=
  ⟨wrote.whole, wrote.longer, fun other child different j w =>
    wrote.apart other child j (fun same => different same.1) w⟩

theorem other_ok {other : Nat} (grown : Grown t me file after) (child : other < t.testers)
    (different : other ≠ me) (ok : ChildOk t other file c) : ChildOk t other after c :=
  ⟨ok.bytes, fun j inside => chunk_ok_mono (ok.chunks j inside) grown.longer
    (grown.others other child different j), ok.turns⟩

end frame

section turns
variable {t : Conditions} {me chunk : Nat} {file : List Byte} {c d : Child}

theorem readv_length (t : Conditions) (file : List Byte) (pos : Nat) :
    (readv t file pos).length = min t.csize (file.length - pos) := by
  rw [readv, iovecs_whole, read_length]

/-- The chunk is marked, one of the two counts of a turn has grown, and the rest is as before. -/
structure Verified (t : Conditions) (chunk : Nat) (c d : Child) : Prop where
  iterations : d.iterations = c.iterations
  val : d.val = c.val
  val0 : d.val0 = c.val0
  turns : d.turns = c.turns
  bytes : d.bits.length = t.nbytes
  marks : ∀ k, marked d.bits k = (marked c.bits k || decide (k = chunk))
  one : d.collide + population d.bits t.nchunks = c.collide + population c.bits t.nchunks + 1
  count : d.count ≤ population d.bits t.nchunks
  seen : d.count + d.collide ≤ c.count + c.collide + 1

theorem chunk_in_bits {bits : List Byte} (bytes : bits.length = t.nbytes)
    (inside : chunk < t.nchunks) : chunk / 8 < bits.length := by
  rw [bytes, Conditions.nbytes]
  omega

theorem mark_some (bytes : c.bits.length = t.nbytes) (inside : chunk < t.nchunks)
    (fresh : marked c.bits chunk = false) :
    ∃ bits, mark chunk c = .ok { c with bits } ∧ bits.length = t.nbytes ∧
      (∀ k, marked bits k = (marked c.bits k || decide (k = chunk))) ∧
      population bits t.nchunks = population c.bits t.nchunks + 1 := by
  obtain ⟨bits, set, same, after⟩ := set_bit_some (chunk_in_bits bytes inside)
  have one := population_add after fresh t.nchunks
  rw [if_pos inside] at one
  refine ⟨bits, ?_, same.trans bytes, after, one⟩
  rw [mark, set]
  rfl

theorem verify_verified (whole : t.csize ∣ file.length) (bytes : c.bits.length = t.nbytes)
    (inside : chunk < t.nchunks) (right : MarkedRight t me file c chunk)
    (count : c.count ≤ population c.bits t.nchunks) :
    Ensures (Verified t chunk c) Never (verify t chunk (readv t file (t.chunkAt me chunk)) c) := by
  have positive := t.csizePos
  have length := readv_length t file (t.chunkAt me chunk)
  unfold verify
  split
  · rename_i none
    cases bit : marked c.bits chunk with
    | false =>
      obtain ⟨bits, marking, same, after, one⟩ := mark_some bytes inside bit
      rw [marking]
      exact ⟨rfl, rfl, rfl, rfl, same, after, by simp only; omega, by simp only; omega,
        by simp only; omega⟩
    | true =>
      rw [MarkedRight, if_pos bit] at right
      have below := right.below
      omega
  · rename_i some_bytes
    have below : t.chunkAt me chunk < file.length := by omega
    have reach : t.chunkAt me chunk + t.csize ≤ file.length := block_whole whole below
    have long : (readv t file (t.chunkAt me chunk)).length = t.csize := by omega
    have equal (v : Byte) (filled : Filled file (t.chunkAt me chunk) t.csize v) :
        iovecsEqual t (readv t file (t.chunkAt me chunk)) v = true := by
      rw [readv, iovecs_whole, (read_filled reach).mpr filled]
      exact iovecs_equal t v
    rw [test_bit_some (chunk_in_bits bytes inside)]
    refine ensures_rest _ ?_
    cases bit : marked c.bits chunk with
    | false =>
      rw [MarkedRight, bit, if_neg Bool.false_ne_true] at right
      rw [Bool.not_false, if_pos rfl, if_neg (not_not_intro long), equal c.val0 right]
      obtain ⟨bits, marking, same, after, one⟩ := mark_some bytes inside bit
      rw [marking]
      exact ⟨rfl, rfl, rfl, rfl, same, after, by simp only; omega, by simp only; omega,
        by simp only; omega⟩
    | true =>
      rw [MarkedRight, if_pos bit] at right
      rw [Bool.not_true, if_neg Bool.false_ne_true, if_neg (not_not_intro long), equal c.val right.filled]
      refine ⟨rfl, rfl, rfl, rfl, bytes, fun k => ?_, by simp only; omega, count, by simp only; omega⟩
      by_cases same : k = chunk
      · simp [same, bit]
      · simp [same]

structure Steps (t : Conditions) (me : Nat) (file : List Byte) (c : Child)
    (r : List Byte × Child) : Prop where
  ok : ChildOk t me r.1 r.2
  grown : Grown t me file r.1
  falls : r.2.rank t ≤ c.rank t - 1

theorem random_right (place : c.place = .random) (ok : ChildOk t me file c) :
    ∀ j < t.nchunks, MarkedRight t me file c j := by
  intro j inside
  have here := ok.chunks j inside
  rwa [ChunkOk, place] at here

theorem read_turn_ok (draw : Nat) (child : me < t.testers) (whole : t.csize ∣ file.length)
    (place : c.place = .random) (ok : ChildOk t me file c) :
    Ensures (fun d => Steps t me file c (file, d)) Never (readTurn t me draw file c) := by
  have right := random_right place ok
  obtain ⟨bytes, chunks, turns⟩ := ok
  rw [TurnsOk, place] at turns
  refine ensures_bind (remainder_low _ draw (nchunks_pos t child)) fun chunk inside => ?_
  rw [seek_nat]
  refine ensures_rest _ ?_
  refine ensures_bind (verify_verified whole bytes inside (right chunk inside) turns.count)
    fun d verified => ?_
  have bound := population_le c.bits t.nchunks
  have counted := turns.turns
  have seen := turns.seen
  have one := verified.one
  have fewer := verified.seen
  refine ⟨⟨verified.bytes, fun j low => ?_, ⟨⟨inside, rfl, ?_⟩, ?_⟩⟩, grown_refl whole, ?_⟩
  · by_cases same : j = chunk
    · exact .inl same
    · have before := right j low
      unfold MarkedRight at before
      refine .inr ?_
      change if marked d.bits j then Holds t me file j d.val
        else Filled file (t.chunkAt me j) t.csize d.val0
      rwa [verified.marks, decide_eq_false same, Bool.or_false, verified.val, verified.val0]
  · simp [verified.marks]
  · refine ⟨?_, verified.count, ?_⟩
    · change d.turns + 1 = d.collide + population d.bits t.nchunks
      rw [verified.turns]
      omega
    · change d.count + d.collide ≤ _
      omega
  · simp only [Child.rank, Child.phase, place, reduceCtorEq, if_false, verified.iterations, verified.turns]
    omega

theorem all_hold (right : ∀ j < t.nchunks, MarkedRight t me file c j)
    (counts : c.count ≤ population c.bits t.nchunks) (full : t.nchunks ≤ c.count) :
    ∀ j < t.nchunks, Holds t me file j c.val := by
  intro j inside
  have here := right j inside
  rwa [MarkedRight, if_pos (population_full (Nat.le_trans full counts) j inside)] at here

theorem leave_random_ok {limit : Nat} (bytes : c.bits.length = t.nbytes)
    (right : ∀ j < t.nchunks, MarkedRight t me file c j) (counts : Counts t c limit)
    (few : c.turns ≤ 3 * t.nchunks + 1) : ChildOk t me file (leaveRandom t c) := by
  unfold leaveRandom
  split
  · refine ⟨bytes, fun j inside => ?_, few⟩
    intro within
    rcases within with on | low
    · have here := right j inside
      rwa [MarkedRight, if_pos on] at here
    · omega
  · rename_i full
    refine ⟨bytes, fun j inside => ?_, few⟩
    exact all_hold right counts.count (Nat.le_of_not_lt full) j inside

theorem leave_random_rank (t : Conditions) (c : Child) :
    (leaveRandom t c).rank t ≤ c.iterations * iterationSteps t + t.nchunks + 3 := by
  unfold leaveRandom Child.rank Child.phase
  by_cases more : c.count < t.nchunks
  · simp only [more, if_true, reduceCtorEq, if_false]
    omega
  · simp only [more, reduceCtorEq, if_false]
    omega

theorem few_turns {limit : Nat} (counts : Counts t c limit) (low : limit ≤ 2 * t.nchunks + 1) :
    c.turns ≤ 3 * t.nchunks + 1 := by
  have bound := population_le c.bits t.nchunks
  have turns := counts.turns
  have seen := counts.seen
  omega

theorem write_turn_ok {xfr pos : Nat} (child : me < t.testers) (whole : t.csize ∣ file.length)
    (place : c.place = .write chunk xfr pos) (ok : ChildOk t me file c) :
    Ensures (Steps t me file c) Never (writeTurn t xfr pos file c) := by
  obtain ⟨bytes, chunks, turns⟩ := ok
  rw [TurnsOk, place] at turns
  obtain ⟨⟨inside, position, on⟩, counts⟩ := turns
  have wrote := wrote_chunk child whole chunk c.val
  have right : ∀ j < t.nchunks, MarkedRight t me (writeAt 0 file (t.chunkAt me chunk) (gathered t c.val)) c j := by
    intro j low
    by_cases same : j = chunk
    · subst same
      rw [MarkedRight, if_pos on]
      exact ⟨wrote.below, wrote.filled⟩
    · have before := chunks j low
      rw [ChunkOk, place] at before
      rcases before with here | here
      · exact absurd here same
      · exact marked_right_mono here wrote.longer
          (wrote.apart me child j fun both => same both.2)
  have few := few_turns counts (Nat.le_refl _)
  have back : (pos : Int) - xfr = t.chunkAt me chunk := by omega
  have long : ¬ (gathered t c.val).length < t.csize := by
    rw [gathered_eq, List.length_replicate]
    omega
  have before : c.rank t = c.iterations * iterationSteps t + (2 * (3 * t.nchunks + 1 - c.turns) + t.nchunks + 6) := by
    simp only [Child.rank, Child.phase, place, reduceCtorEq, if_false]
  unfold writeTurn
  rw [back, seek_nat]
  refine ensures_rest _ ?_
  rw [if_neg long]
  dsimp only
  split
  · refine ⟨leave_random_ok bytes right counts few, wrote_grown wrote, ?_⟩
    have after := leave_random_rank t c
    change (leaveRandom t c).rank t ≤ c.rank t - 1
    omega
  · rename_i going
    refine ⟨⟨bytes, right, counts.turns, counts.count, Nat.le_of_not_lt going⟩, wrote_grown wrote, ?_⟩
    simp only [Child.rank, Child.phase, place, reduceCtorEq, if_false]
    omega

theorem fill_turn_ok {i : Nat} (child : me < t.testers) (whole : t.csize ∣ file.length)
    (place : c.place = .fill i) (ok : ChildOk t me file c) :
    Ensures (Steps t me file c) Never (fillTurn t me i file c) := by
  obtain ⟨bytes, chunks, turns⟩ := ok
  rw [TurnsOk, place] at turns
  have filled : ∀ j < t.nchunks, marked c.bits j = true ∨ j < i → Holds t me file j c.val := by
    intro j inside
    have here := chunks j inside
    rwa [ChunkOk, place] at here
  unfold fillTurn
  split
  · rename_i inside
    rw [test_bit_some (chunk_in_bits bytes inside)]
    refine ensures_rest _ ?_
    cases bit : marked c.bits i with
    | false =>
      rw [Bool.not_false, if_pos rfl, seek_nat]
      refine ensures_rest _ ?_
      have long : (gathered t c.val).length = t.csize := by
        rw [gathered_eq, List.length_replicate]
      have wrote := wrote_chunk child whole i c.val
      rw [if_neg (not_not_intro long)]
      refine ⟨⟨bytes, fun j low => ?_, turns⟩, wrote_grown wrote, ?_⟩
      · intro within
        by_cases same : j = i
        · subst same
          exact ⟨wrote.below, wrote.filled⟩
        · have earlier : marked c.bits j = true ∨ j < i := within.imp_right fun low => by omega
          exact holds_mono (filled j low earlier) wrote.longer
            (wrote.apart me child j (fun both => same both.2) c.val)
      · simp only [Child.rank, Child.phase, place, reduceCtorEq, if_false]
        omega
    | true =>
      rw [Bool.not_true, if_neg Bool.false_ne_true]
      refine ⟨⟨bytes, fun j low => ?_, turns⟩, grown_refl whole, ?_⟩
      · intro within
        by_cases same : j = i
        · subst same
          exact filled j low (.inl bit)
        · exact filled j low (within.imp_right fun low => by omega)
      · simp only [Child.rank, Child.phase, place, reduceCtorEq, if_false]
        omega
  · rename_i past
    refine ⟨⟨bytes, fun j low => ?_, turns⟩, grown_refl whole, ?_⟩
    · exact filled j low (.inr (by omega))
    · simp only [Child.rank, Child.phase, place, reduceCtorEq, if_false]
      omega

theorem start_ok (place : c.place = .iteration) (ok : ChildOk t me file c) :
    ChildOk t me file (startIteration t c) := by
  refine ⟨List.length_replicate, fun j inside => ?_, ?_⟩
  · have before := ok.chunks j inside
    rw [ChunkOk, place] at before
    change if marked (List.replicate t.nbytes 0) j then _
      else Filled file (t.chunkAt me j) t.csize c.val0
    rwa [marked_zeros, if_neg Bool.false_ne_true]
  · have none : population (startIteration t c).bits t.nchunks = 0 := population_zeros _ _
    refine ⟨?_, ?_, Nat.zero_le _⟩
    · rw [none]
      rfl
    · exact Nat.zero_le _

theorem child_step_ok (draw : Nat) (child : me < t.testers) (whole : t.csize ∣ file.length)
    (ok : ChildOk t me file c) :
    Ensures (Steps t me file c) Never (childStep t me draw file c) := by
  unfold childStep
  split
  · rename_i place
    split
    · rename_i more
      refine ⟨start_ok place ok, grown_refl whole, ?_⟩
      obtain ⟨k, left⟩ : ∃ k, c.iterations = k + 1 := ⟨c.iterations - 1, by omega⟩
      simp only [Child.rank, Child.phase, place, startIteration, reduceCtorEq, if_false, left,
        Nat.add_sub_cancel, Nat.succ_mul, iterationSteps]
      omega
    · refine ⟨⟨ok.bytes, fun j inside => ?_, ?_⟩, grown_refl whole, Nat.zero_le _⟩
      · have here := ok.chunks j inside
        rwa [ChunkOk, place] at here
      · have turns := ok.turns
        rwa [TurnsOk, place] at turns
  · rename_i place
    split
    · refine ensures_bind (read_turn_ok draw child whole place ok) fun d steps => steps
    · have turns := ok.turns
      rw [TurnsOk, place] at turns
      refine ⟨leave_random_ok ok.bytes (random_right place ok) turns (few_turns turns (Nat.le_succ _)),
        grown_refl whole, ?_⟩
      have after := leave_random_rank t c
      simp only [Child.rank, Child.phase, place, reduceCtorEq, if_false] at after ⊢
      omega
  · rename_i chunk xfr pos place
    exact write_turn_ok child whole place ok
  · rename_i i place
    exact fill_turn_ok child whole place ok
  · rename_i place
    refine ⟨⟨ok.bytes, fun j inside => ?_, ?_⟩, grown_refl whole, ?_⟩
    · have here := ok.chunks j inside
      rw [ChunkOk, place] at here
      exact here.filled
    · have turns := ok.turns
      rwa [TurnsOk, place] at turns
    · simp only [Child.rank, Child.phase, place, reduceCtorEq, if_false]
      omega
  · rename_i place
    refine ⟨ok, grown_refl whole, ?_⟩
    simp [Child.rank, place]

end turns

section runs
variable {t : Conditions} {s : System t.testers}

structure Inv (t : Conditions) (s : System t.testers) : Prop where
  whole : t.csize ∣ s.file.length
  children : ∀ me : Fin t.testers, ChildOk t me s.file (s.child me)

theorem initial_inv (t : Conditions) : Inv t (initial t) :=
  ⟨Nat.dvd_zero _, fun _ =>
    ⟨List.length_replicate, fun _ _ => filled_beyond (Nat.zero_le _) _, Nat.zero_le _⟩⟩

structure Stepped (t : Conditions) (me : Fin t.testers) (s u : System t.testers) : Prop where
  inv : Inv t u
  falls : (u.child me).rank t ≤ (s.child me).rank t - 1
  others : ∀ other, other ≠ me → u.child other = s.child other

theorem step_ok (a : Fin t.testers × Nat) (inv : Inv t s) :
    Ensures (Stepped t a.1 s) Never (step t s a) := by
  refine ensures_bind (child_step_ok a.2 a.1.isLt inv.whole (inv.children a.1)) fun r steps => ?_
  obtain ⟨file, c⟩ := r
  refine ⟨⟨steps.grown.whole, fun (me : Fin t.testers) => ?_⟩, ?_, fun other different => ?_⟩
  · by_cases same : me = a.1
    · subst same
      change ChildOk t a.1 file (Function.update s.child a.1 c a.1)
      rw [Function.update_self]
      exact steps.ok
    · change ChildOk t me file (Function.update s.child a.1 c me)
      rw [Function.update_of_ne same]
      exact other_ok steps.grown me.isLt (fun eq => same (Fin.ext eq)) (inv.children me)
  · change (Function.update s.child a.1 c a.1).rank t ≤ _
    rw [Function.update_self]
    exact steps.falls
  · exact Function.update_of_ne different _ _

def stepsOf (me : Fin t.testers) (schedule : List (Fin t.testers × Nat)) : Nat :=
  schedule.countP fun a => a.1 = me

theorem run_from (schedule : List (Fin t.testers × Nat)) (inv : Inv t s) :
    Ensures (fun u => Inv t u ∧ ∀ me, (u.child me).rank t ≤ (s.child me).rank t - stepsOf me schedule) Never
      (schedule.foldlM (step t) s) := by
  induction schedule generalizing s with
  | nil => exact ⟨inv, fun me => Nat.le_refl _⟩
  | cons a schedule ih =>
    rw [List.foldlM_cons]
    refine ensures_bind (step_ok a inv) fun u stepped => ?_
    refine ensures_value (ih stepped.inv) fun v later => ⟨later.1, fun me => ?_⟩
    have rest := later.2 me
    unfold stepsOf at rest ⊢
    rw [List.countP_cons]
    by_cases same : a.1 = me
    · subst same
      have falls := stepped.falls
      simp only [decide_true, if_true]
      omega
    · have unchanged := stepped.others me (Ne.symm same)
      rw [unchanged] at rest
      simpa [same] using rest

theorem rank_zero {c : Child} (zero : c.rank t = 0) : c.place = .returned := by
  unfold Child.rank Child.phase at zero
  split at zero
  · assumption
  · split at zero
    all_goals omega

theorem turns_bound {me : Nat} {file : List Byte} {c : Child} (ok : ChildOk t me file c) :
    c.turns ≤ 3 * t.nchunks + 1 := by
  have turns := ok.turns
  unfold TurnsOk at turns
  split at turns
  · exact few_turns turns (Nat.le_succ _)
  · exact few_turns turns.2 (Nat.le_refl _)
  · exact turns

def LeavesVal (t : Conditions) (s : System t.testers) (me : Fin t.testers) : Prop :=
  (s.child me).place = .finish → ∀ i < t.nchunks,
    readAt s.file (t.chunkAt me i) t.csize = List.replicate t.csize (s.child me).val

theorem leaves_val (inv : Inv t s) (me : Fin t.testers) : LeavesVal t s me := by
  intro place i inside
  have here := (inv.children me).chunks i inside
  rw [ChunkOk, place] at here
  exact (read_filled (block_whole inv.whole here.below)).mpr here.filled

/-- No check fails, whatever the order of the steps and the values of `rand()`; an iteration takes a
    bounded number of turns and leaves the child's value in its chunks, and a child that has had its
    share of the steps has returned. -/
theorem run_no_alarm (t : Conditions) (schedule : List (Fin t.testers × Nat)) :
    ∃ s, run t schedule = .ok s ∧ ∀ me : Fin t.testers, (s.child me).turns ≤ 3 * t.nchunks + 1 ∧ LeavesVal t s me ∧
      ((s.child me).place = .returned ∨ stepsOf me schedule ≤ t.iterations * iterationSteps t) := by
  obtain ⟨s, done, inv, ranks⟩ := ensures_never (run_from schedule (initial_inv t))
  refine ⟨s, done, fun me => ⟨turns_bound (inv.children me), leaves_val inv me, ?_⟩⟩
  have falls := ranks me
  have start : ((initial t).child me).rank t = t.iterations * iterationSteps t + 1 := by
    simp only [initial, Child.rank, Child.phase, reduceCtorEq, if_false]
  by_cases few : stepsOf me schedule ≤ t.iterations * iterationSteps t
  · exact .inr few
  · have zero : (s.child me).rank t = 0 := by omega
    exact .inl (rank_zero zero)

end runs
end VteFtest04
