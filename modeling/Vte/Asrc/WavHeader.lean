import Mathlib.Algebra.Order.Ring.Nat
import Vte.Asrc.WavConvert

/-!
What the stores into `header[]` leave of it, what the loops of the conversion do with a positive count, and
when each function has a result.
-/
namespace Asrc
open Bytes CInt Multiples

section header
variable {h h' : Header} {pos at' x : Int} {bs : List Byte}

theorem store_read : (h.store pos bs).read pos bs.length = bs := by
  apply List.ext_getElem
  · rw [Header.read, List.length_map, List.length_range]
  · intro k low high
    have inside : pos ≤ pos + (k : Int) ∧ pos + (k : Int) < pos + bs.length := by omega
    have offset : (pos + (k : Int) - pos).toNat = k := by omega
    simp only [Header.read, Header.store, List.getElem_map, List.getElem_range]
    rw [if_pos inside, offset, byte_at_inside high]

theorem int_bytes (fits : Fits32 x) : int (intBytes x) = x := by
  have whole := unit_at_bytes (BitVec.ofInt 32 x) []
  rw [List.append_nil] at whole
  rw [int, intBytes, whole, BitVec.toInt_ofInt]
  exact Int.bmod_eq_of_le (by have low := fits.1; omega) (by have high := fits.2; omega)

theorem int_same (fits : Fits32 x) : (h.store pos (intBytes x)).int pos = x := by
  have four : (intBytes x).length = 4 := rfl
  rw [Header.int, ← four, store_read, int_bytes fits]

theorem int_apart (apart : pos + bs.length ≤ at' ∨ at' + 4 ≤ pos) :
    (h.store pos bs).int at' = h.int at' := by
  have other (k : Nat) (few : k < 4) : (h.store pos bs).mem (at' + k) = h.mem (at' + k) := by
    show (if _ then _ else _) = _
    exact if_neg (by omega)
  have same : (h.store pos bs).read at' 4 = h.read at' 4 := by
    refine List.map_congr_left ?_
    intro k listed
    exact other k (List.mem_range.mp listed)
  rw [Header.int, same, Header.int]

/-- No byte was stored outside `header[]`. -/
def Header.Inside (h : Header) : Prop := ∀ s ∈ h.stores, 0 ≤ s.1 ∧ s.1 + s.2 ≤ 58

theorem inside_store :
    (h.store pos bs).Inside ↔ h.Inside ∧ 0 ≤ pos ∧ pos + bs.length ≤ 58 := by
  simp only [Header.Inside, Header.store, List.mem_append, List.mem_singleton]
  constructor
  · intro inside
    exact ⟨fun s stored => inside s (.inl stored), inside _ (.inr rfl)⟩
  · rintro ⟨before, here⟩ s (stored | rfl)
    · exact before s stored
    · exact here

theorem update_datachunk_iff {formatSize len : Int} :
    updateDatachunkLength formatSize len h = some h' ↔ Fits32 (len + 20) ∧ Fits32 (len + 20 + formatSize) ∧
      h' = (h.store (24 + formatSize) (intBytes len)).store 4 (intBytes (len + 20 + formatSize)) := by
  simp only [updateDatachunkLength, Option.bind_eq_bind, Option.bind_eq_some_iff, checked32_iff]
  constructor
  · rintro ⟨_, ⟨first, rfl⟩, _, ⟨second, rfl⟩, set⟩
    exact ⟨first, second, (Option.some.inj set).symm⟩
  · rintro ⟨first, second, rfl⟩
    exact ⟨_, ⟨first, rfl⟩, _, ⟨second, rfl⟩, rfl⟩

theorem datachunk_inside {formatSize : Int} {a b : Int} :
    ((h.store (24 + formatSize) (intBytes a)).store 4 (intBytes b)).Inside ↔
      h.Inside ∧ -24 ≤ formatSize ∧ formatSize ≤ 30 := by
  have four (x : Int) : (intBytes x).length = 4 := rfl
  rw [inside_store, inside_store, four, four]
  constructor
  · rintro ⟨⟨before, low, high⟩, -⟩
    exact ⟨before, by omega, by omega⟩
  · rintro ⟨before, low, high⟩
    exact ⟨⟨before, by omega, by omega⟩, by omega, by omega⟩

theorem datachunk_format {formatSize : Int} {a b : Int} (behind : 0 ≤ formatSize) :
    ((h.store (24 + formatSize) (intBytes a)).store 4 (intBytes b)).int 16 = h.int 16 := by
  have four (x : Int) : (intBytes x).length = 4 := rfl
  rw [int_apart (by rw [four]; omega), int_apart (by rw [four]; omega)]

theorem fread_length (n : Nat) (src : Src) : (fread n src).1.length ≤ n := List.length_take_le _ _

/-- What `header_parser` stores of a file with a short format. -/
theorem read_header_inside {fuel : Nat} {stack : Stack} {file : List Byte} {p : Parsed}
    (accepted : readHeader fuel stack file = some p) (low : 0 ≤ p.formatSize) (high : p.formatSize ≤ 30) :
    p.header.Inside := by
  simp only [readHeader, Option.bind_eq_bind, Option.bind_eq_some_iff] at accepted
  obtain ⟨found, -, fmtFound, -, dataFound, -, made⟩ := accepted
  obtain rfl := Option.some.inj made
  simp only at low high
  generalize int (laid (fread 4 fmtFound.2.2).1 stack.formatSize) = formatSize at *
  have asked : (u64 (int32 (formatSize + 8)) : Int) = formatSize + 8 := by
    rw [int32_small (by omega) (by omega), u64_small (by omega) (by omega)]
  have stored (n : Nat) (src : Src) (pos : Int) (room : pos + n ≤ 58) : pos + (fread n src).1.length ≤ 58 := by
    have most := fread_length n src
    omega
  rw [inside_store, inside_store, inside_store]
  refine ⟨⟨⟨?_, by omega, stored _ _ _ (by omega)⟩, by omega, stored _ _ _ (by omega)⟩, by omega,
    stored _ _ _ (by omega)⟩
  rintro s ⟨⟩

end header

section fill_loop
variable {size width : Nat} {shift : Unit32 → Unit32}

theorem fill_loop_fills {fuel i : Nat} {nleft : Int} {data : Unit32} {src : Src} (positive : 1 ≤ nleft)
    (fits : nleft < 2147483648) (enough : nleft ≤ fuel) (room : 4 * i + 4 * nleft ≤ size) :
    ∃ input, fillLoop size width shift fuel nleft i data src = some input := by
  induction fuel generalizing i nleft data src with
  | zero => omega
  | succ fuel ih =>
    simp only [fillLoop, Option.bind_eq_bind]
    rw [if_neg (by omega), checked32_fits ⟨by omega, by omega⟩, Option.bind_some]
    by_cases last : nleft - 1 = 0
    · exact ⟨_, if_pos last⟩
    · obtain ⟨rest, filled⟩ := @ih (i + 1) (nleft - 1) (unitAt (laid (fread width src).1 (unitBytes data)) 0)
        (fread width src).2 (by omega) (by omega) (by omega) (by omega)
      rw [if_neg last, filled]
      exact ⟨_, rfl⟩

theorem fill_loop_positive {fuel i : Nat} {nleft : Int} {data : Unit32} {src : Src} {input : List Unit32}
    (filled : fillLoop size width shift fuel nleft i data src = some input) : 1 ≤ nleft := by
  induction fuel generalizing i nleft data src input with
  | zero => cases filled
  | succ fuel ih =>
    simp only [fillLoop, Option.bind_eq_bind] at filled
    split at filled
    · cases filled
    · obtain ⟨left, decremented, rest⟩ := Option.bind_eq_some_iff.mp filled
      obtain ⟨-, rfl⟩ := checked32_iff.mp decremented
      by_cases last : nleft - 1 = 0
      · omega
      · rw [if_neg last] at rest
        obtain ⟨_, later, -⟩ := Option.bind_eq_some_iff.mp rest
        have := ih later
        omega

end fill_loop

section play_loop
variable {b : Buffers} {dma total : Int} {driver : Driver}

/-- At the head of the loop: what is left of the input and of the output lies behind the positions. -/
structure Playing (total : Int) (all : Int) (s : Play) : Prop where
  input : 0 < s.inputLeft → s.inputPos % 4096 = 0 ∧ s.inputPos + s.inputLeft = total
  output : s.outputPos + s.outputLeft = all
  used : s.used + s.outputLeft = all
  more : 1 ≤ s.outputLeft

theorem play_loop_plays {all : Int} (polite : driver.Polite) (some_piece : 1 ≤ dma)
    (slack : all - 1 + dma ≤ b.outputSize)
    (room : ∀ pos : Nat, pos % 4096 = 0 → (pos : Int) < total → pos + 4096 ≤ b.inputSize)
    {fuel k : Nat} {s : Play} (playing : Playing total all s) (enough : s.outputLeft ≤ fuel) :
    ∃ r, playLoop b dma driver fuel k s = some r ∧ r.used = all := by
  induction fuel generalizing k s with
  | zero =>
    have more := playing.more
    omega
  | succ fuel ih =>
    obtain ⟨input, output, used, more⟩ := playing
    have readable : s.inputLeft ≤ 0 ∨ s.inputPos + dmaBufSize ≤ b.inputSize := by
      by_cases left : 0 < s.inputLeft
      · have here := input left
        exact .inr (room _ here.1 (by omega))
      · exact .inl (by omega)
    obtain ⟨some_bytes, offered⟩ := polite k dma some_piece
    simp only [playLoop]
    rw [if_pos ⟨readable, by omega⟩]
    by_cases again : s.outputLeft > ((driver k dma).length : Int)
    · rw [if_pos again]
      refine ih ⟨?_, ?_, ?_, ?_⟩ ?_
      · simp only
        intro left
        have before : 0 < s.inputLeft := by
          split at left <;> omega
        have here := input before
        rw [if_pos before] at left ⊢
        rw [if_pos before]
        have size : dmaBufSize = 4096 := rfl
        by_cases whole : s.inputLeft > (dmaBufSize : Int)
        · rw [if_pos whole] at left ⊢
          omega
        · rw [if_neg whole] at left
          omega
      all_goals simp only; omega
    · rw [if_neg again]
      exact ⟨_, rfl, by simp only; omega⟩

theorem play_loop_used {fuel k : Nat} {s r : Play} (played : playLoop b dma driver fuel k s = some r) :
    r.used = s.used + s.outputLeft := by
  induction fuel generalizing k s with
  | zero => cases played
  | succ fuel ih =>
    simp only [playLoop] at played
    split at played
    · split at played
      · rw [ih played]
        simp only
        omega
      · obtain rfl := Option.some.inj played
        rfl
    · cases played

def slow : Driver := fun _ n => if 1 ≤ n then [0] else []

theorem slow_polite : slow.Polite := by
  intro k n positive
  rw [slow, if_pos positive]
  exact ⟨Nat.le_refl 1, positive⟩

theorem slow_loop_room {fuel k : Nat} {s r : Play} (played : playLoop b dma slow fuel k s = some r)
    (more : 1 ≤ s.outputLeft) : 1 ≤ dma ∧ s.outputPos + s.outputLeft - 1 + dma ≤ b.outputSize := by
  induction fuel generalizing k s with
  | zero => cases played
  | succ fuel ih =>
    simp only [playLoop] at played
    split at played
    · rename_i inside
      by_cases some_piece : 1 ≤ dma
      · have one : (slow k dma).length = 1 := by rw [slow, if_pos some_piece]; rfl
        simp only [one] at played
        split at played
        · have later := ih played (by simp only; omega)
          simp only at later
          omega
        · omega
      · have none_stored : (slow k dma).length = 0 := by rw [slow, if_neg some_piece]; rfl
        simp only [none_stored] at played
        rw [if_pos (by omega)] at played
        have later := ih played (by simp only; omega)
        simp only at later
        omega
    · cases played

end play_loop

section sample_loop
variable {b : Buffers}

theorem sample_loop_samples (output : List Byte) {fuel i m : Nat} (enough : m < fuel) (fits : m < 1073741823)
    (room : 4 * i + 4 * (m + 1) ≤ b.outputSize) :
    sampleLoop b output fuel i (4 * (m + 1)) = some ((List.range' i (m + 1)).flatMap (sample output)) := by
  induction fuel generalizing i m with
  | zero => omega
  | succ fuel ih =>
    have less : (4 * (m + 1) + 4294967292) % 4294967296 = 4 * m := by omega
    simp only [sampleLoop, less]
    rw [if_neg (by omega)]
    cases m with
    | zero => rw [if_pos rfl, List.range'_one, List.flatMap_singleton]
    | succ m =>
      rw [if_neg (by omega), ih (by omega) (by omega) (by omega), List.range'_succ, List.flatMap_cons]
      rfl

theorem sample_loop_room {output samples : List Byte} {fuel i size : Nat} (whole : size % 4 = 0) (fits : size < 4294967296)
    (written : sampleLoop b output fuel i size = some samples) :
    4 * i + (if size = 0 then 4294967296 else size) ≤ b.outputSize := by
  induction fuel generalizing i size samples with
  | zero => cases written
  | succ fuel ih =>
    simp only [sampleLoop] at written
    split at written
    · cases written
    · split at written
      · split <;> omega
      · obtain ⟨rest, later, -⟩ := Option.bind_eq_some_iff.mp written
        have := ih (by omega) (by omega) later
        rw [if_neg (by omega)] at this
        split <;> omega

end sample_loop

theorem output_buffer_size_whole {fuel : Nat} {size inputRate outputRate len : Int}
    (sized : getOutputBufferSize fuel size inputRate outputRate = some len) : 0 ≤ len ∧ 8 ∣ len := by
  simp only [getOutputBufferSize, Option.bind_eq_bind, Option.bind_eq_some_iff] at sized
  obtain ⟨_, -, _, -, _, -, eighths, -, shifted⟩ := sized
  rw [shl] at shifted
  split at shifted
  · obtain ⟨-, rfl⟩ := checked32_iff.mp shifted
    exact ⟨by omega, Dvd.intro_left eighths rfl⟩
  · cases shifted

end Asrc
