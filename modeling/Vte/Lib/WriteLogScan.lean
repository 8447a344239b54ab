import Vte.Base.Blocks
import Vte.Lib.WriteLogCodec

/-!
The backward scan of a well formed log. A frame is one record with its trailer; the scan
of a concatenation of frames hands the records to the callback newest first, however the
window boundaries cut the frames, and stops after the requested number of records.
-/
namespace VteWriteLog
open Bytes Blocks

structure Frame where
  body : List Byte
  high : Byte
  low : Byte
  record : WlogRec

def Frame.bytes (f : Frame) : List Byte := f.body ++ [f.high, f.low]

/-- The trailer decodes to the body length and the body unpacks to the record, whatever
    bytes of an earlier record follow it in `albuf`. -/
structure Frame.Valid (signedChar : Bool) (f : Frame) : Prop where
  small : f.body.length ≤ wlogRecMaxSize
  trailer : charVal signedChar f.high * 256 + charVal signedChar f.low = f.body.length
  unpacks : ∀ rest, wlogRecUnpack (f.body ++ rest) = some f.record

theorem frame_length (f : Frame) : f.bytes.length = f.body.length + 2 := by
  simp [Frame.bytes]

theorem trailer_bytes (pre : List Byte) (f : Frame) (post : List Byte) :
    byteAt (pre ++ f.bytes ++ post) (pre.length + f.body.length) = f.high ∧
      byteAt (pre ++ f.bytes ++ post) (pre.length + f.body.length + 1) = f.low := by
  have split : pre ++ f.bytes ++ post = (pre ++ f.body) ++ ([f.high, f.low] ++ post) := by
    simp [Frame.bytes]
  rw [split, ← List.length_append]
  exact ⟨byte_at_append (pre ++ f.body) _ 0, byte_at_append (pre ++ f.body) _ 1⟩

/-- The records the scan still has to deliver out of `outs`, newest first. -/
def wanted (nrecs recnum : Int) (outs : List WlogRec) : List WlogRec :=
  if nrecs = 0 then outs else outs.take (nrecs - recnum).toNat

theorem wanted_append (nrecs recnum : Int) (xs ys : List WlogRec) :
    wanted nrecs recnum (xs ++ ys) =
      wanted nrecs recnum xs ++ wanted nrecs (recnum + (wanted nrecs recnum xs).length) ys := by
  unfold wanted
  split
  · rfl
  · rw [List.take_append, List.length_take]
    congr 2
    omega

theorem wanted_closed {nrecs recnum : Int} (closed : ¬ (nrecs = 0 ∨ recnum < nrecs))
    (outs : List WlogRec) : wanted nrecs recnum outs = [] := by
  have none : (nrecs - recnum).toNat = 0 := by omega
  simp [wanted, not_or.mp closed, none]

theorem wanted_cons {nrecs recnum : Int} (wants : nrecs = 0 ∨ recnum < nrecs) (r : WlogRec)
    (outs : List WlogRec) :
    wanted nrecs recnum (r :: outs) = r :: wanted nrecs (recnum + 1) outs := by
  unfold wanted
  split
  · rfl
  · have next : (nrecs - recnum).toNat = (nrecs - (recnum + 1)).toNat + 1 := by omega
    rw [next, List.take_succ_cons]

section scan
variable {σ : Type} {signedChar : Bool} {nrecs : Int} {func : σ → WlogRec → σ × Int}

def deliver (func : σ → WlogRec → σ × Int) (s : σ) (outs : List WlogRec) : σ :=
  outs.foldl (fun s r => (func s r).1) s

theorem window_fragment {frames : List Frame} (valid : ∀ f ∈ frames, f.Valid signedChar)
    {frag post albuf : List Byte} (tail : Tail Frame.bytes frames frag) (fuel : Nat)
    (recnum : Int) (s : σ) :
    scanWindow signedChar nrecs func (frag ++ post) (fuel + 1) frag.length albuf recnum s =
      some (s, recnum, frag, albuf) := by
  have kept : (frag ++ post).take frag.length = frag := List.take_left
  by_cases short : frag.length < 2
  · rw [scanWindow, if_pos short, kept]
  · rcases tail with empty | ⟨init, last, split, suffix, proper⟩
    · simp [empty] at short
    · have lastValid := valid last (by simp [split])
      rw [frame_length] at proper
      obtain ⟨front, joined⟩ := suffix
      have sizes := congrArg List.length joined
      rw [frame_length, List.length_append] at sizes
      have cut : frag = last.body.drop front.length ++ [last.high, last.low] := by
        have dropped := congrArg (List.drop front.length) joined
        rw [List.drop_left, Frame.bytes, List.drop_append_of_le_length (by omega)] at dropped
        exact dropped
      obtain ⟨high, low⟩ := trailer_bytes [] ⟨last.body.drop front.length, last.high, last.low, last.record⟩ post
      simp only [Frame.bytes, ← cut, List.nil_append, List.length_nil, Nat.zero_add, List.length_drop] at high low
      have back2 : frag.length - 2 = last.body.length - front.length := by omega
      have back1 : frag.length - 1 = last.body.length - front.length + 1 := by omega
      have bigger : (frag.length : Int) < last.body.length + 2 := by omega
      rw [scanWindow, if_neg short, back2, back1, high, low, lastValid.trailer, if_pos bigger, kept]

theorem frame_copied {f : Frame} (valid : f.Valid signedChar) (pre post albuf : List Byte)
    (size : albuf.length = wlogRecMaxSize) :
    memcpy albuf 0 ((pre ++ f.bytes ++ post).drop pre.length) f.body.length =
      some (f.body ++ albuf.drop f.body.length) := by
  have small := valid.small
  rw [List.append_assoc, List.drop_left, Frame.bytes, List.append_assoc]
  have copy := memcpy_append [] albuf (f.body ++ ([f.high, f.low] ++ post)) f.body.length
    (by simp) (by omega)
  rwa [List.take_left] at copy

theorem window_frame (continues : ∀ s r, (func s r).2 ≠ wlogStopScan) {f : Frame}
    (valid : f.Valid signedChar) (pre post albuf : List Byte) (fuel : Nat) (recnum : Int) (s : σ)
    (size : albuf.length = wlogRecMaxSize) :
    scanWindow signedChar nrecs func (pre ++ f.bytes ++ post) (fuel + 1)
        (pre.length + f.body.length + 2) albuf recnum s =
      if nrecs ≠ 0 ∧ nrecs ≤ recnum + 1 then
        some ((func s f.record).1, recnum + 1, [], f.body ++ albuf.drop f.body.length)
      else scanWindow signedChar nrecs func (pre ++ f.bytes ++ post) fuel pre.length
        (f.body ++ albuf.drop f.body.length) (recnum + 1) (func s f.record).1 := by
  obtain ⟨high, low⟩ := trailer_bytes pre f post
  have notShort : ¬ pre.length + f.body.length + 2 < 2 := by omega
  have holds : ¬ ((pre.length + f.body.length + 2 : Nat) : Int) < (f.body.length : Int) + 2 := by
    omega
  have nonneg : ¬ (f.body.length : Int) < 0 := by omega
  have back : pre.length + f.body.length + 2 - (f.body.length + 2) = pre.length := by omega
  have copied := frame_copied valid pre post albuf size
  rw [scanWindow, if_neg notShort]
  simp only [Nat.add_sub_cancel, show pre.length + f.body.length + 2 - 1 =
    pre.length + f.body.length + 1 from by omega, high, low, valid.trailer, Int.toNat_natCast,
    back, copied, if_neg holds, if_neg nonneg, Option.bind_eq_bind, Option.bind_some,
    valid.unpacks, if_neg (continues s f.record)]

theorem window_frames (continues : ∀ s r, (func s r).2 ≠ wlogStopScan)
    {frames : List Frame} (valid : ∀ f ∈ frames, f.Valid signedChar) {frag : List Byte}
    (tail : Tail Frame.bytes frames frag) (fs : List Frame) :
    (∀ f ∈ fs, f.Valid signedChar) → ∀ (post albuf : List Byte) (fuel : Nat) (recnum : Int) (s : σ),
    albuf.length = wlogRecMaxSize → fs.length < fuel → (nrecs = 0 ∨ recnum < nrecs) →
    ∃ left albuf', scanWindow signedChar nrecs func (frag ++ fs.flatMap Frame.bytes ++ post) fuel
        (frag ++ fs.flatMap Frame.bytes).length albuf recnum s =
      some (deliver func s (wanted nrecs recnum (fs.map Frame.record).reverse),
        recnum + (wanted nrecs recnum (fs.map Frame.record).reverse).length, left, albuf') ∧
      albuf'.length = wlogRecMaxSize ∧
      (nrecs = 0 ∨ recnum + (wanted nrecs recnum (fs.map Frame.record).reverse).length < nrecs → left = frag) := by
  induction fs using List.reverseRecOn with
  | nil =>
    intro _ post albuf fuel recnum s size enough wants
    obtain ⟨fuel, rfl⟩ : ∃ k, fuel = k + 1 := ⟨fuel - 1, by omega⟩
    refine ⟨frag, albuf, ?_, size, fun _ => rfl⟩
    simp [window_fragment valid tail, wanted, deliver]
  | append_singleton fs f ih =>
    intro fsValid post albuf fuel recnum s size enough wants
    obtain ⟨fuel, rfl⟩ : ∃ k, fuel = k + 1 := ⟨fuel - 1, by omega⟩
    have fValid := fsValid f (by simp)
    let pre := frag ++ fs.flatMap Frame.bytes
    have window : frag ++ (fs ++ [f]).flatMap Frame.bytes ++ post = pre ++ f.bytes ++ post := by
      simp [pre]
    have cpLength : (frag ++ (fs ++ [f]).flatMap Frame.bytes).length = pre.length + f.body.length + 2 := by
      simp [pre, frame_length]
      omega
    have albufSize : (f.body ++ albuf.drop f.body.length).length = wlogRecMaxSize := by
      have small := fValid.small
      simp [size]
      omega
    have newest : ((fs ++ [f]).map Frame.record).reverse = f.record :: (fs.map Frame.record).reverse := by simp
    rw [window, cpLength, window_frame continues fValid pre post albuf fuel recnum s size, newest, wanted_cons wants]
    by_cases last : nrecs ≠ 0 ∧ nrecs ≤ recnum + 1
    · have closed : ¬ (nrecs = 0 ∨ recnum + 1 < nrecs) := by omega
      rw [if_pos last, wanted_closed closed]
      refine ⟨[], _, rfl, albufSize, ?_⟩
      intro wants'
      exact absurd wants' closed
    · rw [if_neg last]
      obtain ⟨left, albuf', run, size', more⟩ := ih (fun g mem => fsValid g (by simp [mem]))
        (f.bytes ++ post) (f.body ++ albuf.drop f.body.length) fuel (recnum + 1)
        (func s f.record).1 albufSize (by simp at enough; omega) (by omega)
      rw [← List.append_assoc] at run
      refine ⟨left, albuf', ?_, size', ?_⟩
      · rw [run]
        simp only [deliver, List.foldl_cons, List.length_cons, Int.natCast_add, Int.natCast_one]
        congr 3
        omega
      · intro wants'
        apply more
        simp only [List.length_cons, Int.natCast_add, Int.natCast_one] at wants'
        omega

theorem frame_small {f : Frame} (valid : f.Valid signedChar) : f.bytes.length < scanBufSize := by
  have small := valid.small
  rw [frame_length]
  simp only [wlogRecMaxSize, sizeofWlogRec, wlogMaxPath, wlogMaxPattern, wlogMaxHost, scanBufSize] at *
  omega

theorem leftover_small {frames : List Frame} (valid : ∀ f ∈ frames, f.Valid signedChar)
    {leftover : List Byte} (tail : Tail Frame.bytes frames leftover) :
    leftover.length < scanBufSize := by
  rcases tail with empty | ⟨init, last, split, _, proper⟩
  · simp [empty, scanBufSize]
  · exact Nat.lt_trans proper (frame_small (valid last (by simp [split])))

theorem refill_window {stream leftover : List Byte} (suffix : leftover <:+ stream)
    (post : List Byte) (k : Nat)
    (start : k ≤ stream.length - leftover.length) :
    ((stream ++ post).drop k).take (stream.length - leftover.length - k) ++ leftover = stream.drop k := by
  obtain ⟨front, rfl⟩ := suffix
  simp only [List.length_append, Nat.add_sub_cancel] at start ⊢
  rw [List.append_assoc, List.drop_append_of_le_length start, List.drop_append_of_le_length start]
  congr 1
  rw [← List.length_drop, List.take_left]

theorem frames_count (fs : List Frame) : fs.length ≤ (fs.flatMap Frame.bytes).length := by
  induction fs with
  | nil => exact Nat.le_refl _
  | cons f fs ih =>
    rw [List.flatMap_cons, List.length_append, frame_length, List.length_cons]
    omega

/-- One refill: the frames split into those still unread and those in the window, which are
    delivered; the bytes of the cut frame are left over. -/
theorem loop_refill (continues : ∀ s r, (func s r).2 ≠ wlogStopScan) {frames : List Frame}
    (valid : ∀ f ∈ frames, f.Valid signedChar) {leftover albuf : List Byte}
    (tail : Tail Frame.bytes frames leftover) (size : albuf.length = wlogRecMaxSize)
    {offset recnum : Int} (wants : nrecs = 0 ∨ recnum < nrecs) (more : 0 < offset)
    (offsetEq : offset = (frames.flatMap Frame.bytes).length - leftover.length)
    (post : List Byte) (fuel : Nat) (s : σ) :
    ∃ pre fs frag left albuf' offset', frames = pre ++ fs ∧ Tail Frame.bytes pre frag ∧
      albuf'.length = wlogRecMaxSize ∧ 0 ≤ offset' ∧ offset' < offset ∧
      offset' = (pre.flatMap Frame.bytes).length - frag.length ∧
      (nrecs = 0 ∨ recnum + (wanted nrecs recnum (fs.map Frame.record).reverse).length < nrecs → left = frag) ∧
      scanLoop signedChar nrecs func (frames.flatMap Frame.bytes ++ post) (fuel + 1) offset leftover
          albuf recnum s =
        scanLoop signedChar nrecs func (frames.flatMap Frame.bytes ++ post) fuel offset' left albuf'
          (recnum + (wanted nrecs recnum (fs.map Frame.record).reverse).length)
          (deliver func s (wanted nrecs recnum (fs.map Frame.record).reverse)) := by
  have shorter := (tail_suffix Frame.bytes tail).length_le
  have small := leftover_small valid tail
  obtain ⟨total, totalEq⟩ : ∃ n, n = (frames.flatMap Frame.bytes).length := ⟨_, rfl⟩
  obtain ⟨m, mEq⟩ : ∃ n, n = min total scanBufSize := ⟨_, rfl⟩
  obtain ⟨pre, fs, frag, split, suffix, preLength, fragTail⟩ :=
    suffix_split Frame.bytes frames m (by omega)
  have nbytesEq : (if offset + (leftover.length : Int) < scanBufSize then offset.toNat
      else scanBufSize - leftover.length) = total - leftover.length - (total - m) := by
    split <;> omega
  have offsetNext : (if offset + (leftover.length : Int) < scanBufSize then 0
      else offset - ((scanBufSize - leftover.length : Nat) : Int)) = ((total - m : Nat) : Int) := by
    split <;> omega
  have window := refill_window (tail_suffix Frame.bytes tail) post (total - m) (by omega)
  rw [← totalEq] at window suffix preLength
  rw [suffix] at window
  have counted := frames_count fs
  obtain ⟨left, albuf', run, size', next⟩ := @window_frames σ signedChar nrecs func continues
    pre (fun f mem => valid f (by simp [split, mem])) frag fragTail fs
    (fun f mem => valid f (by simp [split, mem])) [] albuf
    ((frag ++ fs.flatMap Frame.bytes).length + 1) recnum s size
    (by rw [List.length_append]; omega) wants
  rw [List.append_nil] at run
  refine ⟨pre, fs, frag, left, albuf', ((total - m : Nat) : Int), split, fragTail, size', by omega,
    by omega, by omega, next, ?_⟩
  rw [scanLoop, if_pos ⟨wants, more⟩]
  simp only [nbytesEq, offsetNext, Int.toNat_natCast, window, run, Option.bind_eq_bind, Option.bind_some]

theorem loop_frames (continues : ∀ s r, (func s r).2 ≠ wlogStopScan) (fuel : Nat) :
    ∀ (frames : List Frame) (post leftover albuf : List Byte) (offset recnum : Int) (s : σ),
    (∀ f ∈ frames, f.Valid signedChar) → albuf.length = wlogRecMaxSize →
    0 ≤ offset → offset < fuel → (nrecs = 0 ∨ recnum < nrecs → Tail Frame.bytes frames leftover ∧
        offset = (frames.flatMap Frame.bytes).length - leftover.length) →
    scanLoop signedChar nrecs func (frames.flatMap Frame.bytes ++ post) fuel offset leftover
        albuf recnum s =
      some (deliver func s (wanted nrecs recnum (frames.map Frame.record).reverse)) := by
  induction fuel with
  | zero => intros; omega
  | succ fuel ih =>
    intro frames post leftover albuf offset recnum s valid size nonneg enough position
    by_cases wants : nrecs = 0 ∨ recnum < nrecs
    · obtain ⟨tail, offsetEq⟩ := position wants
      by_cases more : 0 < offset
      · obtain ⟨pre, fs, frag, left, albuf', offset', split, fragTail, size', nonneg', less,
          offsetEq', next, step⟩ := loop_refill continues valid tail size wants more offsetEq post
            fuel s
        have ordered : (frames.map Frame.record).reverse =
            (fs.map Frame.record).reverse ++ (pre.map Frame.record).reverse := by simp [split]
        have joined : frames.flatMap Frame.bytes ++ post =
            pre.flatMap Frame.bytes ++ (fs.flatMap Frame.bytes ++ post) := by simp [split]
        have rest := ih pre (fs.flatMap Frame.bytes ++ post) left albuf' offset'
          (recnum + (wanted nrecs recnum (fs.map Frame.record).reverse).length)
          (deliver func s (wanted nrecs recnum (fs.map Frame.record).reverse))
          (fun f mem => valid f (by simp [split, mem])) size' nonneg' (by omega)
          (fun wants' => by rw [next wants']; exact ⟨fragTail, offsetEq'⟩)
        rw [step, joined, rest, ordered, wanted_append]
        simp [deliver]
      · have none : frames = [] := tail_whole Frame.bytes tail
          (fun f _ empty => by simpa [empty] using frame_length f) (by omega)
        rw [scanLoop, if_neg (fun h => more h.2)]
        simp [none, wanted, deliver]
    · rw [scanLoop, if_neg (fun h => wants h.1), wanted_closed wants]
      rfl

theorem scan_frames (continues : ∀ s r, (func s r).2 ≠ wlogStopScan) (frames : List Frame)
    (valid : ∀ f ∈ frames, f.Valid signedChar)
    (addressable : (frames.flatMap Frame.bytes).length < 2 ^ 31)
    (albuf : Vector Byte wlogRecMaxSize) (s : σ) :
    wlogScanBackward signedChar nrecs func (frames.flatMap Frame.bytes) albuf s =
      some (deliver func s (wanted nrecs 0 (frames.map Frame.record).reverse)) := by
  have exact : toCInt (frames.flatMap Frame.bytes).length = (frames.flatMap Frame.bytes).length := by
    unfold toCInt
    rw [Int.bmod_eq_of_le] <;> omega
  have run := @loop_frames σ signedChar nrecs func continues ((frames.flatMap Frame.bytes).length + 1)
    frames [] [] albuf.toList (frames.flatMap Frame.bytes).length 0 s valid
    (by simp) (by omega) (by omega) (fun _ => ⟨Or.inl rfl, by simp⟩)
  rw [wlogScanBackward, exact]
  simpa using run

end scan

end VteWriteLog
