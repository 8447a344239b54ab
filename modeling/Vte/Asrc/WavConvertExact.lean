import Vte.Asrc.WavHeader

/-!
The files that are converted inside the buffers by every driver that stores at least a byte and at most what
is offered.
-/
namespace Asrc
open Bytes CInt Multiples

section outputs
variable {sizes : Nat} {rate : Int} {p : Parsed} {info info' : Info} {h h' : Header}

/-- What `header_parser` leaves for the conversion. -/
structure SetTo (rate len : Int) (p : Parsed) (info : Info) (h : Header) : Prop where
  info : info = ⟨p.sampleRate, rate, p.inputDataLen, len, p.frameBits, p.blockalign⟩
  fits : Fits32 (rate * p.channel) ∧ Fits32 (rate * p.channel * (p.frameBits / 8 : Nat))
  inside : h.Inside ↔ p.header.Inside ∧ -24 ≤ p.formatSize ∧ p.formatSize ≤ 30
  format : 0 ≤ p.formatSize → h.int 16 = p.header.int 16

theorem set_output_some (set : setOutput sizes rate p = some (info, h)) :
    ∃ len, getOutputBufferSize sizes p.inputDataLen p.sampleRate rate = some len ∧ SetTo rate len p info h := by
  have four (x : Int) : (intBytes x).length = 4 := rfl
  simp only [setOutput, Option.bind_eq_bind, Option.bind_eq_some_iff, checked32_iff, update_datachunk_iff] at set
  obtain ⟨len, sized, _, ⟨-, -, rfl⟩, _, ⟨first, rfl⟩, _, ⟨second, rfl⟩, made⟩ := set
  obtain ⟨rfl, rfl⟩ := Prod.mk.inj (Option.some.inj made)
  refine ⟨len, sized, rfl, ⟨first, second⟩, ?_, ?_⟩
  · rw [inside_store, inside_store, datachunk_inside, four, four]
    exact ⟨fun inside => inside.1.1, fun inside => ⟨⟨inside, by omega, by omega⟩, by omega, by omega⟩⟩
  · intro behind
    rw [int_apart (by omega), int_apart (by omega), datachunk_format behind]

theorem set_output_sets {len : Int}
    (sized : getOutputBufferSize sizes p.inputDataLen p.sampleRate rate = some len)
    (fits : Fits32 (len + 65536)) (some_output : 0 ≤ len) (short : 0 ≤ p.formatSize ∧ p.formatSize ≤ 30)
    (bytes : Fits32 (rate * p.channel) ∧ Fits32 (rate * p.channel * (p.frameBits / 8 : Nat))) :
    ∃ out, setOutput sizes rate p = some out := by
  have high := fits.2
  have first : Fits32 (len + 20) := ⟨by omega, by omega⟩
  have second : Fits32 (len + 20 + p.formatSize) := ⟨by omega, by omega⟩
  simp only [setOutput, sized, Option.bind_eq_bind, Option.bind_some, update_datachunk_iff.mpr ⟨first, second, rfl⟩,
    checked32_fits bytes.1, checked32_fits bytes.2]
  exact ⟨_, rfl⟩

def inLen (info : Info) : Int := if info.frameBits ≤ 16 then info.inputDataLen * 2 else info.inputDataLen

def outLen (info : Info) : Int := if info.frameBits ≤ 16 then info.outputDataLen * 2 else info.outputDataLen

/-- What has to be there for a loop of `bitshift` to end. -/
structure Fillable (info : Info) : Prop where
  narrow : info.frameBits ≤ 16 →
    2 ≤ info.inputDataLen ∧ Fits32 (info.inputDataLen * 2) ∧ Fits32 (info.outputSampleRate * 8)
  wide : info.frameBits = 24 ∨ info.frameBits = 32 → 4 ≤ info.inputDataLen

/-- What filling `input_buffer` leaves. -/
structure FilledTo (info : Info) (h : Header) (info' : Info) (h' : Header) : Prop where
  fillable : Fillable info
  rates : info'.sampleRate = info.sampleRate ∧ info'.outputSampleRate = info.outputSampleRate
  lengths : info'.inputDataLen = inLen info ∧ info'.outputDataLen = outLen info
  inside : h.Inside → 0 ≤ h.int 16 → h.int 16 ≤ 30 → h'.Inside
  before : h'.Inside → h.Inside
  format : 0 ≤ h.int 16 → h'.int 16 = h.int 16

theorem shl_one_iff {x y : Int} : shl x 1 = some y ↔ 0 ≤ x ∧ Fits32 (x * 2) ∧ x * 2 = y := by
  rw [shl]
  split
  · rename_i positive
    rw [checked32_iff]
    exact (and_iff_right positive).symm
  · rename_i negative
    exact iff_of_false (by rintro ⟨⟩) (fun made => negative made.1)

theorem fill_input_some {fuel size : Nat} {data : Unit32} {src : Src} {input : List Unit32}
    (filled : fillInput fuel size (samplesLeft info) data src info h = some (info', h', input)) :
    FilledTo info h info' h' := by
  have same (wide : ¬ info.frameBits ≤ 16)
      (enough : info.frameBits = 24 ∨ info.frameBits = 32 → 4 ≤ info.inputDataLen) : FilledTo info h info h :=
    ⟨⟨fun narrow => absurd narrow wide, enough⟩, ⟨rfl, rfl⟩, ⟨(if_neg wide).symm, (if_neg wide).symm⟩,
      fun inside _ _ => inside, id, fun _ => rfl⟩
  rw [fillInput, samplesLeft] at filled
  by_cases narrow : info.frameBits ≤ 16
  · have four (x : Int) : (intBytes x).length = 4 := rfl
    have two (x : Nat) : (shortBytes x).length = 2 := rfl
    simp only [if_pos narrow, updateBlockalign, Option.bind_eq_bind, Option.bind_eq_some_iff, checked32_iff,
      update_datachunk_iff, shl_one_iff] at filled
    obtain ⟨_, looped, _, ⟨-, fits, rfl⟩, _, ⟨-, -, rfl⟩, _, ⟨-, -, rfl⟩, _, ⟨_, ⟨aligned, rfl⟩, stored⟩, made⟩ :=
      filled
    obtain rfl := Option.some.inj stored
    obtain ⟨rfl, rest⟩ := Prod.mk.inj (Option.some.inj made)
    obtain ⟨rfl, -⟩ := Prod.mk.inj rest
    have positive := fill_loop_positive looped
    refine ⟨⟨fun _ => ⟨by omega, fits, aligned⟩, by omega⟩, ⟨rfl, rfl⟩,
      ⟨(if_pos narrow).symm, (if_pos narrow).symm⟩, ?_, ?_, ?_⟩
    · intro inside low high
      rw [inside_store, inside_store, datachunk_inside, four, two]
      exact ⟨⟨⟨inside, by omega, high⟩, by omega, by omega⟩, by omega, by omega⟩
    · rw [inside_store, inside_store, datachunk_inside]
      exact fun inside => inside.1.1.1
    · intro low
      rw [int_apart (by omega), int_apart (by omega), datachunk_format low]
  · have whole (width : Nat) (shift : Unit32 → Unit32)
        (filled : (fillLoop size width shift fuel (info.inputDataLen / 4) 0 data src).bind
          (fun input => some (info, h, input)) = some (info', h', input)) : FilledTo info h info' h' := by
      obtain ⟨_, looped, made⟩ := Option.bind_eq_some_iff.mp filled
      obtain ⟨rfl, rest⟩ := Prod.mk.inj (Option.some.inj made)
      obtain ⟨rfl, -⟩ := Prod.mk.inj rest
      have positive := fill_loop_positive looped
      exact same narrow (fun _ => by omega)
    simp only [if_neg narrow] at filled
    by_cases bits24 : info.frameBits = 24
    · rw [if_pos bits24] at filled
      exact whole 4 id filled
    · rw [if_neg bits24] at filled
      by_cases bits32 : info.frameBits = 32
      · rw [if_pos bits32] at filled
        exact whole 4 _ filled
      · rw [if_neg bits32] at filled
        obtain ⟨rfl, rest⟩ := Prod.mk.inj (Option.some.inj filled)
        obtain ⟨rfl, -⟩ := Prod.mk.inj rest
        exact same narrow (fun wide => absurd wide (by omega))

theorem fill_input_fills {fuel size : Nat} (data : Unit32) (src : Src) (fillable : Fillable info)
    (format : 0 ≤ h.int 16 ∧ h.int 16 ≤ 30) (some_output : 0 ≤ info.outputDataLen)
    (fits : Fits32 (outLen info + 65536)) (limit : info.inputDataLen < 2147483648)
    (enough : samplesLeft info ≤ fuel) (room : 4 * samplesLeft info ≤ size) :
    ∃ out, fillInput fuel size (samplesLeft info) data src info h = some out := by
  have high := fits.2
  have fills (width : Nat) (shift : Unit32 → Unit32) {left : Int} (positive : 1 ≤ left) (few : left < 2147483648)
      (enough : left ≤ fuel) (room : 4 * left ≤ size) :
      ∃ input, fillLoop size width shift fuel left 0 data src = some input :=
    fill_loop_fills positive few enough (by omega)
  rw [samplesLeft, outLen] at *
  by_cases narrow : info.frameBits ≤ 16
  · obtain ⟨positive, twice, aligned⟩ := fillable.narrow narrow
    rw [if_pos narrow] at *
    have first : Fits32 (info.outputDataLen * 2 + 20) := ⟨by omega, by omega⟩
    have second : Fits32 (info.outputDataLen * 2 + 20 + h.int 16) := ⟨by omega, by omega⟩
    obtain ⟨input, filled⟩ := fills 2 (fun data => (data <<< 8) &&& 0xFFFF00#32)
      (show 1 ≤ info.inputDataLen / 2 by omega) (by omega) enough room
    have bytes := checked32_fits (show Fits32 (info.outputSampleRate * ((8 : Nat) : Int)) from aligned)
    have input_length := shl_one_iff.mpr ⟨by omega, twice, rfl⟩
    have output_length := shl_one_iff.mpr ⟨some_output, ⟨by omega, by omega⟩, rfl⟩
    simp only [fillInput, if_pos narrow, filled, input_length, output_length, Option.bind_eq_bind, Option.bind_some,
      update_datachunk_iff.mpr ⟨first, second, rfl⟩, updateBlockalign, bytes]
    exact ⟨_, rfl⟩
  · rw [if_neg narrow] at *
    by_cases bits24 : info.frameBits = 24
    · have positive := fillable.wide (.inl bits24)
      obtain ⟨input, filled⟩ := fills 4 id (show 1 ≤ info.inputDataLen / 4 by omega) (by omega) enough room
      rw [fillInput, if_neg narrow, if_pos bits24, filled]
      exact ⟨_, rfl⟩
    · by_cases bits32 : info.frameBits = 32
      · have positive := fillable.wide (.inr bits32)
        obtain ⟨input, filled⟩ := fills 4 (fun data => (data >>> 8) &&& 0x00FFFFFF#32)
          (show 1 ≤ info.inputDataLen / 4 by omega) (by omega) enough room
        rw [fillInput, if_neg narrow, if_neg bits24, if_pos bits32, filled]
        exact ⟨_, rfl⟩
      · rw [fillInput, if_neg narrow, if_neg bits24, if_neg bits32]
        exact ⟨_, rfl⟩

theorem bitshift_some {fuel : Nat} {data : Unit32} {src : Src} {b : Buffers}
    (shifted : bitshift fuel data src info h = some (info', h', b)) :
    FilledTo info h info' h' ∧ Fits32 (outLen info + 65536) ∧ b.outputSize = u64 (outLen info + 65536) ∧
      b.inputSize = u64 (4 * samplesLeft info + 4096) := by
  have two : (shortBytes 24).length = 2 := rfl
  simp only [bitshift, Option.bind_eq_bind, Option.bind_eq_some_iff, checked32_iff] at shifted
  obtain ⟨⟨filled_info, filled_header, input⟩, filled, size, ⟨fits, rfl⟩, made⟩ := shifted
  obtain ⟨rfl, rest⟩ := Prod.mk.inj (Option.some.inj made)
  obtain ⟨rfl, rfl⟩ := Prod.mk.inj rest
  obtain ⟨fillable, rates, lengths, inside, before, format⟩ := fill_input_some filled
  rw [lengths.2] at fits
  refine ⟨⟨fillable, rates, lengths, ?_, ?_, ?_⟩, fits, ?_, rfl⟩
  · intro stored low high
    rw [updateSampleBitdepth, inside_store, two]
    exact ⟨inside stored low high, by omega, by omega⟩
  · rw [updateSampleBitdepth, inside_store]
    exact fun stored => before stored.1
  · intro low
    rw [updateSampleBitdepth, int_apart (by omega), format low]
  · simp only [lengths.2]

theorem bitshift_shifts {fuel : Nat} (data : Unit32) (src : Src) (fillable : Fillable info)
    (format : 0 ≤ h.int 16 ∧ h.int 16 ≤ 30) (some_output : 0 ≤ info.outputDataLen)
    (fits : Fits32 (outLen info + 65536)) (limit : info.inputDataLen < 2147483648)
    (enough : samplesLeft info ≤ fuel) (room : 4 * samplesLeft info ≤ u64 (4 * samplesLeft info + 4096)) :
    ∃ out, bitshift fuel data src info h = some out := by
  obtain ⟨⟨filled_info, filled_header, input⟩, filled⟩ :=
    fill_input_fills data src fillable format some_output fits limit enough room
  have lengths := (fill_input_some filled).lengths
  simp only [bitshift, filled, Option.bind_eq_bind, Option.bind_some, lengths.2, checked32_fits fits]
  exact ⟨_, rfl⟩

/-- The file is the header and the samples, when there are any. -/
theorem convert_data_writes {fuel m : Nat} {b : Buffers} {s : Play} (inside : h.Inside)
    (format : 0 ≤ h.int 16 ∧ h.int 16 ≤ 30) (used : s.used = (4 * (m + 1) : Nat)) (enough : m < fuel)
    (fits : 4 * (m + 1) + 65536 < 2147483648) (room : 4 * (m + 1) ≤ b.outputSize) :
    ∃ h' file, convertData fuel b s h = some (h', file) ∧ h'.Inside ∧
      file = h'.read 0 (h'.int 16 + 28).toNat ++ (List.range (m + 1)).flatMap (sample s.output) := by
  have four (x : Int) : (intBytes x).length = 4 := rfl
  have set := update_datachunk_iff (h := h) |>.mpr ⟨show Fits32 (s.used + 20) from ⟨by omega, by omega⟩,
    show Fits32 (s.used + 20 + h.int 16) from ⟨by omega, by omega⟩, rfl⟩
  have kept := datachunk_format (h := h) (a := s.used) (b := s.used + 20 + h.int 16) format.1
  have stored := datachunk_inside (h := h) (a := s.used) (b := s.used + 20 + h.int 16) |>.mpr
    ⟨inside, show -24 ≤ h.int 16 by omega, format.2⟩
  refine ⟨_, _, ?_, stored, rfl⟩
  have size : ((((h.store (24 + h.int 16) (intBytes s.used)).store 4 (intBytes (s.used + 20 + h.int 16))).int
      (24 + h.int 16)) % 4294967296).toNat = 4 * (m + 1) := by
    rw [int_apart (by rw [four]; omega), int_same ⟨by omega, by omega⟩, used]
    omega
  simp only [convertData, set, Option.bind_eq_bind, Option.bind_some, size,
    sample_loop_samples s.output enough (show m < 1073741823 by omega)
      (show 4 * 0 + 4 * (m + 1) ≤ b.outputSize by omega), kept, List.range_eq_range']

theorem convert_data_some {fuel : Nat} {b : Buffers} {s : Play} {file : List Byte}
    (converted : convertData fuel b s h = some (h', file)) (behind : 0 ≤ h.int 16) (whole : s.used % 4 = 0) :
    (h'.Inside → h.Inside ∧ h.int 16 ≤ 30) ∧ (s.used = 0 → 4294967296 ≤ b.outputSize) := by
  have four (x : Int) : (intBytes x).length = 4 := rfl
  simp only [convertData, Option.bind_eq_bind, Option.bind_eq_some_iff, update_datachunk_iff] at converted
  obtain ⟨_, ⟨first, -, rfl⟩, samples, written, made⟩ := converted
  obtain ⟨rfl, -⟩ := Prod.mk.inj (Option.some.inj made)
  refine ⟨?_, ?_⟩
  · rw [datachunk_inside]
    exact fun inside => ⟨inside.1, inside.2.2⟩
  · intro nothing
    rw [int_apart (by rw [four]; omega), int_same ⟨by omega, by omega⟩, nothing] at written
    simpa using sample_loop_room (by decide) (by decide) written

end outputs

structure Fit (sizes : Nat) (rate : Int) (p : Parsed) (len dma : Int) : Prop where
  output : getOutputBufferSize sizes p.inputDataLen p.sampleRate rate = some len
  piece : getOutputBufferSize sizes dmaBufSize p.sampleRate rate = some dma
  some_output : 0 < len
  pieces : 0 < dma ∧ dma ≤ 65537
  format : 0 ≤ p.formatSize ∧ p.formatSize ≤ 30
  kept : 0 ≤ p.header.int 16 ∧ p.header.int 16 ≤ 30
  narrow : p.frameBits ≤ 16 → 2 ≤ p.inputDataLen ∧ Fits32 (p.inputDataLen * 2) ∧ Fits32 (rate * 8)
  wide : p.frameBits = 24 ∨ p.frameBits = 32 → 4 ≤ p.inputDataLen
  bytes : Fits32 (rate * p.channel) ∧ Fits32 (rate * p.channel * (p.frameBits / 8 : Nat))
  total : Fits32 ((if p.frameBits ≤ 16 then len * 2 else len) + 65536)

def Suits (rate : Int) (p : Parsed) : Prop := ∃ sizes len dma, Fit sizes rate p len dma

def Converts (headerFuel : Nat) (stack : Stack) (src : List Byte) (data : Unit32) (rate : Int) (driver : Driver) :
    Prop :=
  ∃ sizes fuel r n, convertFile headerFuel sizes fuel stack src data rate driver = some r ∧ r.header.Inside ∧
    r.play.used = (4 * n : Nat) ∧
    r.file = r.header.read 0 (r.header.int 16 + 28).toNat ++ (List.range n).flatMap (sample r.play.output)

section exact
variable {headerFuel : Nat} {stack : Stack} {src : List Byte} {p : Parsed} {data : Unit32} {rate : Int}

theorem read_header_len (accepted : readHeader headerFuel stack src = some p) : p.inputDataLen < 2147483648 := by
  simp only [readHeader, Option.bind_eq_bind, Option.bind_eq_some_iff] at accepted
  obtain ⟨_, -, _, -, _, -, made⟩ := accepted
  obtain rfl := Option.some.inj made
  exact BitVec.toInt_lt

/-- A piece of `DMA_BUF_SIZE` that begins before the end of the input is inside `input_buffer`. -/
theorem input_room {info : Info} {pos : Nat} (whole : pos % 4096 = 0) (before : (pos : Int) < inLen info)
    (limit : info.inputDataLen < 2147483648) : pos + 4096 ≤ u64 (4 * samplesLeft info + 4096) := by
  rw [inLen] at before
  rw [samplesLeft]
  split at before
  · rename_i narrow
    rw [if_pos narrow]
    have size := u64_small (x := 4 * (info.inputDataLen / 2) + 4096) (by omega) (by omega)
    omega
  · rename_i wide
    rw [if_neg wide]
    have size := u64_small (x := 4 * (info.inputDataLen / 4) + 4096) (by omega) (by omega)
    omega

theorem rest_converts {sizes : Nat} {dma : Int} {driver : Driver} {info : Info} {h : Header} (data : Unit32)
    (src : Src) (fillable : Fillable info) (stored : h.Inside) (kept : 0 ≤ h.int 16 ∧ h.int 16 ≤ 30)
    (some_output : 0 < info.outputDataLen) (eights : 8 ∣ info.outputDataLen) (fits : Fits32 (outLen info + 65536))
    (limit : info.inputDataLen < 2147483648)
    (piece : getOutputBufferSize sizes dmaBufSize info.sampleRate info.outputSampleRate = some dma)
    (pieces : 0 < dma ∧ dma ≤ 65537) (polite : driver.Polite) :
    ∃ fuel n info' h' b play h'' file, bitshift fuel data src info h = some (info', h', b) ∧
      playFile sizes fuel driver b info' = some play ∧ convertData fuel b play h' = some (h'', file) ∧ h''.Inside ∧
      play.used = (4 * n : Nat) ∧
      file = h''.read 0 (h''.int 16 + 28).toNat ++ (List.range n).flatMap (sample play.output) := by
  have high := fits.2
  have out_positive : 0 < outLen info ∧ outLen info % 4 = 0 := by
    rw [outLen]
    split <;> omega
  obtain ⟨m, written⟩ : ∃ m : Nat, outLen info = (4 * (m + 1) : Nat) := ⟨(outLen info / 4 - 1).toNat, by omega⟩
  have left_room : 4 * samplesLeft info ≤ u64 (4 * samplesLeft info + 4096) := by
    by_cases positive : 0 ≤ samplesLeft info
    · have low : samplesLeft info ≤ info.inputDataLen := by
        rw [samplesLeft] at positive ⊢
        split at positive <;> omega
      have size := u64_small (x := 4 * samplesLeft info + 4096) (by omega) (by omega)
      omega
    · omega
  obtain ⟨fuel, enough, long⟩ : ∃ fuel : Nat, samplesLeft info ≤ fuel ∧ outLen info ≤ fuel :=
    ⟨(samplesLeft info).toNat + (outLen info).toNat, by omega, by omega⟩
  obtain ⟨⟨info', h', b⟩, shifted⟩ :=
    bitshift_shifts data src fillable kept (Int.le_of_lt some_output) fits limit enough left_room
  obtain ⟨⟨-, rates, lengths, inside, -, format⟩, -, out_size, in_size⟩ := bitshift_some shifted
  have kept' : 0 ≤ h'.int 16 ∧ h'.int 16 ≤ 30 := by
    rw [format kept.1]
    exact kept
  have sized := u64_small (x := outLen info + 65536) (by omega) (by omega)
  have playing : Playing (inLen info) (outLen info) ⟨0, info'.inputDataLen, 0, info'.outputDataLen, 0, []⟩ := by
    rw [lengths.1, lengths.2]
    exact ⟨fun _ => ⟨rfl, Int.zero_add _⟩, Int.zero_add _, Int.zero_add _, out_positive.1⟩
  obtain ⟨play, played, used⟩ := play_loop_plays (b := b) (k := 0) polite pieces.1 (by omega)
    (by rw [in_size]; exact fun pos whole before => input_room whole before limit) playing (lengths.2.trans_le long)
  obtain ⟨h'', file, converted, stored', copied⟩ := convert_data_writes (b := b) (s := play)
    (inside stored kept.1 kept.2) kept' (used.trans written) (show m < fuel by omega) (by omega) (by omega)
  refine ⟨_, m + 1, info', h', b, play, h'', file, shifted, ?_, converted, stored', used.trans written, copied⟩
  rw [playFile, rates.1, rates.2, piece]
  exact played

theorem suited_converts {driver : Driver} (accepted : readHeader headerFuel stack src = some p) (suits : Suits rate p)
    (polite : driver.Polite) : Converts headerFuel stack src data rate driver := by
  obtain ⟨sizes, len, dma, fit⟩ := suits
  have some_output := fit.some_output
  have short : Fits32 (len + 65536) := by
    have total := fit.total
    split at total
    · exact ⟨by omega, by have high := total.2; omega⟩
    · exact total
  obtain ⟨⟨info, h⟩, set⟩ := set_output_sets fit.output short (Int.le_of_lt some_output) fit.format fit.bytes
  obtain ⟨len', sized, rfl, -, inside, format⟩ := set_output_some set
  obtain rfl : len = len' := Option.some.inj (fit.output.symm.trans sized)
  have stored : h.Inside := inside.mpr ⟨read_header_inside accepted fit.format.1 fit.format.2,
    by have low := fit.format.1; omega, fit.format.2⟩
  have kept : 0 ≤ h.int 16 ∧ h.int 16 ≤ 30 := by
    rw [format fit.format.1]
    exact fit.kept
  have total : Fits32 (outLen ⟨p.sampleRate, rate, p.inputDataLen, len, p.frameBits, p.blockalign⟩ + 65536) :=
    fit.total
  obtain ⟨fuel, n, info', h', b, play, h'', file, shifted, played, converted, ended⟩ :=
    rest_converts data p.src ⟨fit.narrow, fit.wide⟩ stored kept some_output
      (output_buffer_size_whole sized).2 total (read_header_len accepted) fit.piece fit.pieces polite
  refine ⟨sizes, fuel, ⟨h'', play, file⟩, n, ?_, ended⟩
  simp only [convertFile, convert, accepted, set, shifted, played, converted, Option.bind_eq_bind, Option.bind_some]

theorem converted_suits (low : 0 ≤ p.formatSize) (behind : 0 ≤ p.header.int 16)
    (accepted : readHeader headerFuel stack src = some p)
    (converts : Converts headerFuel stack src data rate slow) : Suits rate p := by
  obtain ⟨sizes, fuel, r, n, run, stored, used, -⟩ := converts
  simp only [convertFile, convert, accepted, Option.bind_eq_bind, Option.bind_some, Option.bind_eq_some_iff] at run
  obtain ⟨⟨info, h⟩, set, ⟨info', h', b⟩, shifted, play, played, ⟨h'', file⟩, converted, made⟩ := run
  obtain rfl := Option.some.inj made
  simp only at shifted played converted stored used
  obtain ⟨len, sized, rfl, bytes, inside, format⟩ := set_output_some set
  obtain ⟨⟨fillable, rates, lengths, -, before, format'⟩, fits, out_size, -⟩ := bitshift_some shifted
  obtain ⟨dma, piece, looped⟩ := Option.bind_eq_some_iff.mp played
  rw [rates.1, rates.2] at piece
  have same := format low
  have same' := format' (by omega)
  have looped_used := play_loop_used looped
  simp only [lengths.2] at looped_used
  obtain ⟨inside', room⟩ := convert_data_some converted (by omega) (by omega)
  obtain ⟨kept_stored, kept⟩ := inside' stored
  have first := inside.mp (before kept_stored)
  have whole := output_buffer_size_whole sized
  generalize all : outLen ⟨p.sampleRate, rate, p.inputDataLen, len, p.frameBits, p.blockalign⟩ = total at *
  rw [outLen] at all
  simp only at all
  have some_output : 0 < len := by
    by_contra none_left
    have nothing : total = 0 := by
      split at all <;> omega
    have too_large := room (by omega)
    rw [out_size, nothing] at too_large
    exact absurd too_large (by decide)
  have positive : 0 < total := by
    split at all <;> omega
  have high := fits.2
  have size := u64_small (x := total + 65536) (by omega) (by omega)
  have pieces := slow_loop_room looped (by simp only [lengths.2]; omega)
  simp only [lengths.2] at pieces
  refine ⟨sizes, len, dma, sized, piece, some_output, by omega, ⟨low, first.2.2⟩, ⟨behind, by omega⟩, fillable.narrow,
    fillable.wide, bytes, ?_⟩
  rw [all]
  exact fits

theorem wav_converts_iff (accepted : readHeader headerFuel stack src = some p) :
    (Suits rate p → ∀ driver, driver.Polite → Converts headerFuel stack src data rate driver) ∧
    (0 ≤ p.formatSize → 0 ≤ p.header.int 16 →
      (∀ driver, driver.Polite → Converts headerFuel stack src data rate driver) → Suits rate p) :=
  ⟨fun suits _ polite => suited_converts accepted suits polite,
    fun low behind converts => converted_suits low behind accepted (converts slow slow_polite)⟩

def wave : List Byte := [0x57, 0x41, 0x56, 0x45]

def wav (format samples : List Byte) : List Byte :=
  riff ++ intBytes (20 + format.length + samples.length) ++ wave ++ fmt ++ intBytes format.length ++ format ++
    dataId ++ intBytes samples.length ++ samples

def pcm : List Byte :=
  shortBytes 1 ++ shortBytes 2 ++ intBytes 48000 ++ intBytes 192000 ++ shortBytes 4 ++ shortBytes 16

def blank : Stack := ⟨[0, 0, 0, 0], [0, 0, 0, 0], [0, 0, 0, 0], 0⟩

def Parsed.sizes (p : Parsed) : List Int :=
  [p.formatSize, p.header.int 16, p.channel, p.sampleRate, p.frameBits, p.inputDataLen]

theorem stereo_converts : Converts 1 blank (wav pcm (List.replicate 16 1)) 0 48000 slow := by
  have sizes : (readHeader 1 blank (wav pcm (List.replicate 16 1))).map Parsed.sizes =
      some [16, 16, 2, 48000, 16, 16] := by decide
  obtain ⟨p, accepted, read⟩ := Option.map_eq_some_iff.mp sizes
  obtain ⟨formatSize, channel, sampleRate, blockalign, frameBits, inputDataLen, header, rest⟩ := p
  simp only [Parsed.sizes, List.cons.injEq, and_true] at read
  obtain ⟨rfl, kept, rfl, rfl, bits, rfl⟩ := read
  obtain rfl : frameBits = 16 := by omega
  have fit : Fit 2 48000 ⟨16, 2, 48000, blockalign, 16, 16, header, rest⟩ 16 4096 := by
    refine ⟨rfl, rfl, by decide, by decide, ?_, ?_, fun _ => ?_, fun _ => ?_, ?_, ?_⟩
    · exact show (0 : Int) ≤ 16 ∧ (16 : Int) ≤ 30 by decide
    · simp only [kept]
      decide
    · exact show (2 : Int) ≤ 16 ∧ Fits32 (16 * 2) ∧ Fits32 (48000 * 8) by decide
    · exact show (4 : Int) ≤ 16 by decide
    · exact show Fits32 (48000 * 2) ∧ Fits32 (48000 * 2 * (16 / 8 : Nat)) by decide
    · exact show Fits32 (16 * 2 + 65536) by decide
  exact (wav_converts_iff accepted).1 ⟨2, 16, 4096, fit⟩ slow slow_polite

/-- A file with the format chunk of WAVE_FORMAT_EXTENSIBLE, which has 40 bytes. -/
theorem extensible_stores_outside : ¬ ∀ headerFuel stack src p data rate driver,
    readHeader headerFuel stack src = some p → 1 ≤ rate → driver.Polite →
      Converts headerFuel stack src data rate driver := by
  intro claim
  have sizes : (readHeader 1 blank (wav (pcm ++ shortBytes 22 ++ List.replicate 22 0) [1, 1, 1, 1])).map Parsed.sizes =
      some [40, 40, 2, 48000, 16, 4] := by decide
  obtain ⟨p, accepted, read⟩ := Option.map_eq_some_iff.mp sizes
  simp only [Parsed.sizes, List.cons.injEq] at read
  obtain ⟨_, len, dma, fit⟩ := converted_suits (by omega) (by omega) accepted
    (claim 1 blank _ p 0 48000 slow accepted (by decide) slow_polite)
  have short := fit.format.2
  omega

end exact

end Asrc
