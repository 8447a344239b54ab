import Vte.Fs.Growfiles

/-!
The checks of growfiles.c find the selected pattern as long as no write and no truncation leaves a
gap of zeros behind, and no chunk of the file is read at another place than it is checked for.
-/
namespace VteGrowfiles
open Bytes Patterned VteDataPattern Machine

section patterns
variable {p : Pattern} {byte : Nat → Byte}

theorem gen_fits (patterned : p.byte = some byte) (rand : Nat → Nat) (buffer : List Byte)
    (n woffset : Nat) : Fits byte woffset (p.gen rand buffer n woffset) := by
  cases p with
  | pid => cases patterned
  | offset => cases patterned
  | random => cases patterned
  | _ =>
    obtain rfl := Option.some.inj patterned
    exact generate_fits _ _ _

theorem gen_length (p : Pattern) (rand : Nat → Nat) {buffer : List Byte} {n : Nat}
    (room : n ≤ buffer.length) (woffset : Nat) : (p.gen rand buffer n woffset).length = n := by
  cases p with
  | pid => exact List.length_take_of_le room
  | offset => exact List.length_take_of_le room
  | random => simp [Pattern.gen, databingenRandom]
  | _ => exact generate_length _ _ _

theorem chk_none_iff (patterned : p.byte = some byte) (buffer : List Byte) (woffset : Nat) :
    p.chk buffer woffset = none ↔ Fits byte woffset buffer := by
  cases p with
  | pid => cases patterned
  | offset => cases patterned
  | random => cases patterned
  | _ =>
    obtain rfl := Option.some.inj patterned
    exact check_none_iff _ _ _

end patterns

/-- The file offset at which `check_file` reads the chunk `k`. -/
def readPos (ios : Nat → Io) : Nat → Nat
  | 0 => 0
  | k + 1 => (ios k).after (readPos ios k) (readPos ios k) maxFcRead

def chunkSize (fsize k : Nat) : Nat := min maxFcRead (fsize - k * maxFcRead)

/-- What is read for the chunk `k` is in the file, and has the bytes that are expected of it. -/
def ChunkAligned (byte : Nat → Byte) (ios : Nat → Io) (fsize k : Nat) : Prop :=
  readPos ios k + chunkSize fsize k ≤ fsize ∧
    ∀ j < chunkSize fsize k, byte (readPos ios k + j) = byte (k * maxFcRead + j)

def Aligned (byte : Nat → Byte) (ios : Nat → Io) (fsize : Nat) : Prop :=
  ∀ k, k * maxFcRead < fsize → ChunkAligned byte ios fsize k

section chunks
variable {o : Opts} {byte : Nat → Byte} {file : List Byte} {ios : Nat → Io}

theorem slice_fits_iff (fits : Fits byte 0 file) {pos n : Nat} (inside : pos + n ≤ file.length)
    (place : Nat) :
    Fits byte place ((file.drop pos).take n) ↔ ∀ j < n, byte (pos + j) = byte (place + j) := by
  have slice := take_fits (drop_fits fits pos) n
  rw [Nat.zero_add] at slice
  have get : ∀ j < n, ∃ b, ((file.drop pos).take n)[j]? = some b := by
    intro j small
    rw [List.getElem?_take_of_lt small, List.getElem?_drop]
    exact ⟨_, List.getElem?_eq_getElem (by omega)⟩
  constructor
  · intro there j small
    obtain ⟨b, found⟩ := get j small
    rw [← slice j b found, ← there j b found]
  · intro same j b found
    have small : j < n := by
      have bound := (List.getElem?_eq_some_iff.mp found).1
      rw [List.length_take] at bound
      omega
    rw [slice j b found, same j small]

theorem chunk_step (patterned : o.pattern.byte = some byte) (fits : Fits byte 0 file) {k : Nat}
    (more : k * maxFcRead < file.length) :
    (checkChunks o file ios k (k * maxFcRead) (readPos ios k)).1 = 0 ↔ ChunkAligned byte ios file.length k ∧
        (checkChunks o file ios (k + 1) (k * maxFcRead + chunkSize file.length k)
          ((ios k).after (readPos ios k) (readPos ios k) (chunkSize file.length k))).1 = 0 := by
  have size : min maxFcRead (file.length - k * maxFcRead) = chunkSize file.length k := rfl
  have some_bytes : 0 < chunkSize file.length k := by
    have chunk : 0 < maxFcRead := by decide
    rw [chunkSize]
    omega
  rw [checkChunks, if_pos more]
  simp only [size]
  by_cases inside : readPos ios k + chunkSize file.length k ≤ file.length
  · have whole : ((file.drop (readPos ios k)).take (chunkSize file.length k)).length = chunkSize file.length k := by
      rw [List.length_take, List.length_drop]
      omega
    have read := (chk_none_iff patterned _ _).trans
      (slice_fits_iff fits inside (k * maxFcRead))
    rw [if_neg (not_not.mpr whole), whole]
    by_cases same : ∀ j < chunkSize file.length k, byte (readPos ios k + j) = byte (k * maxFcRead + j)
    · rw [read.mpr same, if_neg (by simp)]
      have here : ChunkAligned byte ios file.length k := ⟨inside, same⟩
      exact (and_iff_right here).symm
    · have refused := Option.ne_none_iff_isSome.mp fun accepted => same (read.mp accepted)
      rw [if_pos refused]
      exact iff_of_false (by simp) fun both => same both.1.2
  · have short : ((file.drop (readPos ios k)).take (chunkSize file.length k)).length ≠
        chunkSize file.length k := by
      rw [List.length_take, List.length_drop]
      omega
    rw [if_pos short]
    exact iff_of_false (by simp) fun both => inside both.1.1

theorem check_chunks_iff (patterned : o.pattern.byte = some byte) (fits : Fits byte 0 file)
    (ios : Nat → Io) (left k : Nat) (remaining : file.length - k * maxFcRead = left) :
    (checkChunks o file ios k (k * maxFcRead) (readPos ios k)).1 = 0 ↔
      ∀ k' ≥ k, k' * maxFcRead < file.length → ChunkAligned byte ios file.length k' := by
  have chunk : 0 < maxFcRead := by decide
  have next : (k + 1) * maxFcRead = k * maxFcRead + maxFcRead := by
    rw [Nat.add_mul, Nat.one_mul]
  induction left using Nat.strong_induction_on generalizing k with
  | _ left ih =>
    by_cases more : k * maxFcRead < file.length
    · rw [chunk_step patterned fits more]
      by_cases full : (k + 1) * maxFcRead ≤ file.length
      · have filled : chunkSize file.length k = maxFcRead := by
          rw [chunkSize]
          omega
        have later := ih (file.length - (k + 1) * maxFcRead) (by omega) (k + 1) rfl
          (by rw [Nat.add_mul, Nat.one_mul])
        rw [filled, ← next]
        rw [readPos] at later
        refine (and_congr_right fun _ => later).trans ?_
        constructor
        · intro ⟨here, all⟩ k' after
          rcases Nat.eq_or_lt_of_le after with rfl | past
          · exact fun _ => here
          · exact all k' past
        · intro all
          exact ⟨all k (Nat.le_refl k) more, fun k' after => all k' (by omega)⟩
      · have last : k * maxFcRead + chunkSize file.length k = file.length := by
          rw [chunkSize]
          omega
        rw [last, checkChunks, if_neg (Nat.lt_irrefl _)]
        constructor
        · intro both k' after more'
          rcases Nat.eq_or_lt_of_le after with rfl | past
          · exact both.1
          · have far : (k + 1) * maxFcRead ≤ k' * maxFcRead := Nat.mul_le_mul_right _ past
            omega
        · intro all
          exact ⟨all k (Nat.le_refl k) more, rfl⟩
    · rw [checkChunks, if_neg more]
      refine iff_of_true rfl ?_
      intro k' after more'
      have far : k * maxFcRead ≤ k' * maxFcRead := Nat.mul_le_mul_right _ after
      omega

theorem check_file_iff (patterned : o.pattern.byte = some byte) (fits : Fits byte 0 file) :
    (checkChunks o file ios 0 0 0).1 = 0 ↔ Aligned byte ios file.length := by
  have whole := check_chunks_iff patterned fits ios _ 0 rfl
  rw [Nat.zero_mul] at whole
  refine whole.trans ⟨fun all k => all k (Nat.zero_le k), fun all k _ => all k⟩

theorem stream_aligned (streams : ∀ k, ios k = .stream) (fsize : Nat) : Aligned byte ios fsize := by
  have place : ∀ k, readPos ios k = k * maxFcRead := by
    intro k
    induction k with
    | zero => rw [readPos, Nat.zero_mul]
    | succ k ih =>
      rw [readPos, streams, Io.after, if_neg (by decide), ih, Nat.add_mul, Nat.one_mul]
  intro k more
  constructor
  · rw [place, chunkSize]
    omega
  · intro j _
    rw [place]

end chunks

/-- The condition on a step: a gap that a write or a truncation leaves is of bytes that are zero in
the pattern, and `check_file` reads each chunk where it is. -/
def Meets (o : Opts) (byte : Nat → Byte) : Act → State → Prop
  | .growfile sizeDraw seekDraw _ _, s =>
    0 < o.grow → ∀ size, growSize o sizeDraw = some size → 0 < size →
      GapFits byte 0 s.file.length (writeOffset o size seekDraw s).toNat
  | .shrinkfile draw, s =>
    due o.truncInter (s.shrinkCnt + 1) = true → GapFits byte 0 s.file.length (shrinkOffset o draw s).toNat
  | .checkFile draws, s =>
    due o.fileCheckInter (s.fileCnt + 1) = true → Aligned byte (fun k => o.ioType.method (draws k)) s.file.length
  | _, _ => True

structure Sound (byte : Nat → Byte) (s : State) : Prop where
  fits : Fits byte 0 s.file
  quiet : s.alarms = 0

section steps
variable {o : Opts} {byte : Nat → Byte} {s t : State}

theorem grow_fits_iff (patterned : o.pattern.byte = some byte) (checked : o.noFileCheck = false)
    (fits : Fits byte 0 s.file) {sizeDraw seekDraw : Nat} {rand : Nat → Nat} {draw : IoDraw}
    (grown : growfile o sizeDraw seekDraw rand (o.ioType.method draw) s = some t) :
    (Fits byte 0 t.file ↔ Meets o byte (.growfile sizeDraw seekDraw rand draw) s) ∧ t.alarms = s.alarms := by
  have writes : o.growByLseek = false := by
    rw [Opts.noFileCheck, Bool.or_eq_false_iff] at checked
    exact checked.2
  rw [growfile] at grown
  by_cases idle : o.grow ≤ 0
  · rw [if_pos idle] at grown
    obtain rfl := Option.some.inj grown
    exact ⟨iff_of_true fits fun some_size => absurd some_size (by omega), rfl⟩
  · rw [if_neg idle] at grown
    cases sized : growSize o sizeDraw with
    | none =>
      simp only [sized] at grown
      obtain rfl := Option.some.inj grown
      refine ⟨iff_of_true fits fun _ size found => ?_, rfl⟩
      rw [sized] at found
      cases found
    | some size =>
      simp only [sized, writes, Bool.false_eq_true, if_false] at grown
      split at grown
      · rename_i defined
        rw [growByWrite] at grown
        split at grown
        · obtain rfl := Option.some.inj grown
          refine ⟨?_, rfl⟩
          have meets : Meets o byte (.growfile sizeDraw seekDraw rand draw) s ↔
              (0 < size → GapFits byte 0 s.file.length (writeOffset o size seekDraw s).toNat) := by
            constructor
            · intro all
              exact all (by omega) size sized
            · intro gap _ other found
              obtain rfl := Option.some.inj (sized.symm.trans found)
              exact gap
          rw [meets]
          by_cases empty : size.toNat = 0
          · simp only [if_pos empty]
            exact iff_of_true fits fun some_bytes => absurd some_bytes (by omega)
          · simp only [if_neg empty]
            have positive : 0 < size := by omega
            rw [write_fits_iff 0 _ fits (gen_fits patterned _ _ _ _)]
            exact ⟨fun gap _ => gap, fun gap => gap positive⟩
        · cases grown
      · cases grown

theorem shrink_fits_iff (fits : Fits byte 0 s.file) {draw : Nat}
    (shrunk : shrinkfile o draw s = some t) :
    (Fits byte 0 t.file ↔ Meets o byte (.shrinkfile draw) s) ∧ t.alarms = s.alarms := by
  rw [shrinkfile] at shrunk
  simp only at shrunk
  split at shrunk
  · rename_i time
    split at shrunk
    · obtain rfl := Option.some.inj shrunk
      refine ⟨?_, rfl⟩
      refine (resize_fits_iff 0 _ fits).trans ?_
      exact ⟨fun gap _ => gap, fun gap => gap time⟩
    · cases shrunk
  · rename_i early
    obtain rfl := Option.some.inj shrunk
    exact ⟨iff_of_true fits fun time => absurd time early, rfl⟩

theorem check_write_sound (patterned : o.pattern.byte = some byte)
    (checked : o.noFileCheck = false) (fits : Fits byte 0 s.file) {io : Io}
    (done : checkWrite o io s = some t) : t.file = s.file ∧ t.alarms = s.alarms := by
  have writes : o.growByLseek = false := by
    rw [Opts.noFileCheck, Bool.or_eq_false_iff] at checked
    exact checked.2
  rw [checkWrite] at done
  simp only at done
  split at done
  · rw [checkLast] at done
    split at done
    · obtain rfl := Option.some.inj done
      refine ⟨rfl, ?_⟩
      have slice := take_fits (drop_fits fits s.woffset)
        (min s.growIncr.toNat (s.file.length - s.woffset))
      rw [Nat.zero_add] at slice
      have accepted := (chk_none_iff patterned _ _).mpr slice
      simp only [writes, Bool.false_eq_true, if_false, accepted, Option.isSome_none]
    · cases done
  · obtain rfl := Option.some.inj done
    exact ⟨rfl, rfl⟩

theorem check_file_alarms (patterned : o.pattern.byte = some byte)
    (checked : o.noFileCheck = false) (fits : Fits byte 0 s.file) (draws : Nat → IoDraw) :
    (checkFile o (fun k => o.ioType.method (draws k)) s).file = s.file ∧
      ((checkFile o (fun k => o.ioType.method (draws k)) s).alarms = s.alarms ↔ Meets o byte (.checkFile draws) s) := by
  rw [checkFile]
  simp only
  by_cases time : due o.fileCheckInter (s.fileCnt + 1) = true
  · by_cases empty : s.file = []
    · rw [if_neg fun all => all.2.2 empty]
      refine ⟨rfl, iff_of_true rfl fun _ k more => ?_⟩
      rw [empty] at more
      exact absurd more (Nat.not_lt_zero _)
    · rw [if_pos ⟨time, checked, empty⟩]
      refine ⟨rfl, ?_⟩
      have meets : Meets o byte (.checkFile draws) s ↔
          Aligned byte (fun k => o.ioType.method (draws k)) s.file.length :=
        ⟨fun all => all time, fun all _ => all⟩
      rw [meets, ← check_file_iff patterned fits]
      by_cases accepted : (checkChunks o s.file (fun k => o.ioType.method (draws k)) 0 0 0).1 = 0
      · simp only [accepted, ne_eq, not_true_eq_false, if_false]
      · simp only [accepted, ne_eq, not_false_eq_true, if_true, iff_false]
        omega
  · rw [if_neg fun all => time all.1]
    exact ⟨rfl, iff_of_true rfl fun due => absurd due time⟩

theorem step_sound_iff {act : Act} (patterned : o.pattern.byte = some byte)
    (checked : o.noFileCheck = false) (sound : Sound byte s) (stepped : step o act s = some t) :
    Sound byte t ↔ Meets o byte act s := by
  have sound_iff : t.alarms = s.alarms → (Sound byte t ↔ Fits byte 0 t.file) := by
    intro same
    exact ⟨fun both => both.fits, fun fits => ⟨fits, same.trans sound.quiet⟩⟩
  cases act with
  | openFile flags =>
    rw [step] at stepped
    split at stepped
    · obtain rfl := Option.some.inj stepped
      refine (sound_iff rfl).trans (iff_of_true ?_ trivial)
      simp only
      split
      · exact nil_fits _ _
      · exact sound.fits
    · cases stepped
  | growfile sizeDraw seekDraw rand draw =>
    obtain ⟨fits, same⟩ := grow_fits_iff patterned checked sound.fits stepped
    exact (sound_iff same).trans fits
  | shrinkfile draw =>
    obtain ⟨fits, same⟩ := shrink_fits_iff sound.fits stepped
    exact (sound_iff same).trans fits
  | checkWrite draw =>
    obtain ⟨file, same⟩ := check_write_sound patterned checked sound.fits stepped
    refine (sound_iff same).trans (iff_of_true ?_ trivial)
    rw [file]
    exact sound.fits
  | checkFile draws =>
    rw [step] at stepped
    obtain rfl := Option.some.inj stepped
    obtain ⟨file, quiet⟩ := check_file_alarms patterned checked sound.fits draws
    refine Iff.trans ?_ quiet
    constructor
    · intro both
      rw [both.quiet, sound.quiet]
    · intro same
      exact ⟨file ▸ sound.fits, same.trans sound.quiet⟩

end steps

theorem initial_sound (byte : Nat → Byte) (flags : OpenFlags) (buffer : List Byte) :
    Sound byte (initial flags buffer) :=
  ⟨nil_fits _ _, rfl⟩

theorem sound_run {o : Opts} {byte : Nat → Byte} {s t : State} {acts : List Act}
    (patterned : o.pattern.byte = some byte) (checked : o.noFileCheck = false)
    (sound : Sound byte s) (along : Along (step o) (Meets o byte) acts s)
    (ran : run (step o) acts s = some t) : Sound byte t := by
  have preserves : ∀ act s t, Sound byte s → Meets o byte act s → step o act s = some t → Sound byte t :=
    fun act s t sound meets stepped => (step_sound_iff patterned checked sound stepped).mpr meets
  exact run_along preserves sound along ran

/-- No seeks, no truncation by a negative amount, and reads and writes that move the file offset. -/
structure Plain (o : Opts) : Prop where
  noLseek : o.randLseek = false
  shrinks : 0 ≤ o.truncIncr
  stream : ∀ draw, o.ioType.method draw = .stream

def Near (o : Opts) (s : State) : Prop := (s.pos : Int) - o.truncIncr ≤ s.file.length

section plain
variable {o : Opts} {byte : Nat → Byte} {s t : State} {file : List Byte} {ios : Nat → Io}

theorem plain_meets (plain : Plain o) (near : Near o s) (act : Act) : Meets o byte act s := by
  cases act with
  | growfile sizeDraw seekDraw rand draw =>
    intro _ size _ _
    apply no_gap
    rw [writeOffset, plain.noLseek]
    simp
  | shrinkfile draw =>
    intro _
    apply no_gap
    rw [Near] at near
    rw [shrinkOffset, plain.noLseek]
    simp only [Bool.false_eq_true, if_false]
    omega
  | checkFile draws => exact fun _ => stream_aligned (fun k => plain.stream (draws k)) _
  | _ => trivial

theorem stream_read_end (streams : ∀ k, ios k = .stream) (k n : Nat) {pos : Nat}
    (inside : pos ≤ file.length) :
    (ios k).after pos pos ((file.drop pos).take n).length ≤ file.length := by
  rw [streams, Io.after, List.length_take, List.length_drop]
  split <;> omega

theorem stream_chunks_end (streams : ∀ k, ios k = .stream) (file : List Byte)
    (left k rdCnt pos : Nat)
    (remaining : file.length - rdCnt = left) (inside : pos ≤ file.length) :
    (checkChunks o file ios k rdCnt pos).2 ≤ file.length := by
  have chunk : 0 < maxFcRead := by decide
  induction left using Nat.strong_induction_on generalizing k rdCnt pos with
  | _ left ih =>
    have read := stream_read_end streams k (min maxFcRead (file.length - rdCnt)) inside
    rw [checkChunks]
    simp only
    split
    · split
      · exact read
      · split
        · exact read
        · exact ih (file.length - (rdCnt + min maxFcRead (file.length - rdCnt))) (by omega) _ _ _ rfl
            read
    · exact inside

theorem grow_near (plain : Plain o) (near : Near o s) {sizeDraw seekDraw : Nat} {rand : Nat → Nat}
    {draw : IoDraw}
    (grown : growfile o sizeDraw seekDraw rand (o.ioType.method draw) s = some t) : Near o t := by
  have shrinks := plain.shrinks
  rw [Near] at near ⊢
  rw [growfile] at grown
  split at grown
  · obtain rfl := Option.some.inj grown
    exact near
  · split at grown
    · obtain rfl := Option.some.inj grown
      exact near
    · rename_i size sized
      split at grown
      · rw [growByLseek] at grown
        simp only at grown
        split at grown
        · obtain rfl := Option.some.inj grown
          simp only [plain.stream, Io.after, write_at_length, List.length_singleton]
          split <;> split <;> omega
        · cases grown
      · split at grown
        · rw [growByWrite] at grown
          split at grown
          · rename_i defined
            obtain rfl := Option.some.inj grown
            have place : (writeOffset o size seekDraw s).toNat = s.file.length := by
              rw [writeOffset, plain.noLseek]
              simp
            simp only [plain.stream, Io.after, place]
            split
            · split <;> omega
            · rw [write_at_length, gen_length _ _ defined.1]
              omega
          · cases grown
        · cases grown

theorem plain_near (plain : Plain o) (near : Near o s) {act : Act}
    (stepped : step o act s = some t) : Near o t := by
  have shrinks := plain.shrinks
  rw [Near] at near ⊢
  cases act with
  | openFile flags =>
    rw [step] at stepped
    split at stepped
    · obtain rfl := Option.some.inj stepped
      simp only
      omega
    · cases stepped
  | growfile sizeDraw seekDraw rand draw =>
    exact grow_near plain near stepped
  | shrinkfile draw =>
    rw [step, shrinkfile] at stepped
    simp only at stepped
    split at stepped
    · split at stepped
      · obtain rfl := Option.some.inj stepped
        rw [shrinkOffset, plain.noLseek, resize_length]
        simp only [Bool.false_eq_true, if_false]
        omega
      · cases stepped
    · obtain rfl := Option.some.inj stepped
      exact near
  | checkWrite draw =>
    rw [step, checkWrite] at stepped
    simp only at stepped
    split at stepped
    · rename_i goes
      rw [checkLast] at stepped
      split at stepped
      · obtain rfl := Option.some.inj stepped
        simp only [plain.stream, Io.after]
        split <;> omega
      · cases stepped
    · obtain rfl := Option.some.inj stepped
      exact near
  | checkFile draws =>
    rw [step] at stepped
    obtain rfl := Option.some.inj stepped
    rw [checkFile]
    simp only
    split
    · have inside := stream_chunks_end (o := o)
        (fun k => plain.stream (draws k)) s.file _ 0 0 0 rfl (Nat.zero_le _)
      simp only
      omega
    · exact near

theorem plain_along (plain : Plain o) (near : Near o s) (acts : List Act) :
    Along (step o) (Meets o byte) acts s := by
  induction acts generalizing s with
  | nil => trivial
  | cons act acts ih =>
    exact ⟨plain_meets plain near act, fun t stepped => ih (plain_near plain near stepped)⟩

theorem initial_near (plain : Plain o) (flags : OpenFlags) (buffer : List Byte) :
    Near o (initial flags buffer) := by
  have shrinks := plain.shrinks
  rw [Near, initial]
  simp only
  omega

/-- Without random seeks, with shrinks that do not grow the file and with plain writes no run raises an alarm. -/
theorem plain_no_alarm (plain : Plain o) (patterned : o.pattern.byte = some byte)
    (checked : o.noFileCheck = false) {flags : OpenFlags} {buffer : List Byte} {acts : List Act}
    (ran : run (step o) acts (initial flags buffer) = some t) : Sound byte t :=
  sound_run patterned checked (initial_sound byte flags buffer)
    (plain_along plain (initial_near plain flags buffer) acts) ran

end plain

/-- Along a run whose steps meet the condition the file has the pattern and no check fails. -/
theorem no_false_alarm (o : Opts) (byte : Nat → Byte) (flags : OpenFlags) (buffer : List Byte)
    (acts : List Act) (t : State) (patterned : o.pattern.byte = some byte)
    (checked : o.noFileCheck = false)
    (along : Along (step o) (Meets o byte) acts (initial flags buffer))
    (ran : run (step o) acts (initial flags buffer) = some t) :
    Fits byte 0 t.file ∧ t.alarms = 0 := by
  have sound := sound_run patterned checked (initial_sound byte flags buffer) along ran
  exact ⟨sound.fits, sound.quiet⟩

def fourBytes (randLseek : Bool) : Opts where
  pattern := .ascii
  growIncr := 4
  truncIncr := 2
  truncInter := 1
  writeCheckInter := 1
  fileCheckInter := 1
  randSize := false
  minSize := 1
  maxSize := 5000
  multSize := 1
  randLseek
  minLseek := 5
  maxLseek := 10
  growByLseek := false
  ioType := .sync
  openFlags := some { append := false, trunc := false }

theorem four_bytes_plain : Plain (fourBytes false) :=
  ⟨rfl, by decide, fun _ => rfl⟩

theorem four_bytes_sound : ∃ t, run (step (fourBytes false))
    [.growfile 0 0 id ⟨true, 0⟩, .checkWrite ⟨true, 0⟩, .shrinkfile 0]
    (initial { append := false, trunc := false } [0, 0, 0, 0]) = some t ∧ Sound asciiByte t := by
  have ends : (run (step (fourBytes false)) [.growfile 0 0 id ⟨true, 0⟩, .checkWrite ⟨true, 0⟩, .shrinkfile 0]
    (initial { append := false, trunc := false } [0, 0, 0, 0])).isSome = true := rfl
  obtain ⟨t, ran⟩ := Option.isSome_iff_exists.mp ends
  exact ⟨t, ran, plain_no_alarm four_bytes_plain rfl rfl ran⟩

theorem four_bytes_no_alarm :
    ∃ t, run (step (fourBytes false))
      [.growfile 0 0 id ⟨true, 0⟩, .checkWrite ⟨true, 0⟩, .shrinkfile 0]
      (initial { append := false, trunc := false } [0, 0, 0, 0]) = some t ∧
      Fits asciiByte 0 t.file ∧ t.alarms = 0 :=
  ⟨_, rfl, no_false_alarm (fourBytes false) asciiByte { append := false, trunc := false }
    [0, 0, 0, 0] [.growfile 0 0 id ⟨true, 0⟩, .checkWrite ⟨true, 0⟩, .shrinkfile 0] _ rfl rfl
    (plain_along four_bytes_plain (initial_near four_bytes_plain _ _) _) rfl⟩

/-- `-R 5-10`: the first write starts beyond the end of the new file. -/
theorem explicit_range_leaves_gap :
    ¬ ∀ (o : Opts) (byte : Nat → Byte) (flags : OpenFlags) (buffer : List Byte) (acts : List Act)
      (t : State), o.pattern.byte = some byte → o.noFileCheck = false →
        run (step o) acts (initial flags buffer) = some t →
        Fits byte 0 t.file ∧ t.alarms = 0 := by
  intro always
  have fits := (always (fourBytes true) asciiByte { append := false, trunc := false } [0, 0, 0, 0]
    [.growfile 0 0 id ⟨true, 0⟩] _ rfl rfl rfl).1
  have first := fits 0 0 rfl
  exact absurd first (by decide)

end VteGrowfiles
