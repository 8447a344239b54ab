import Vte.Base.Copies
import Vte.Base.Multiples

/-!
conv_yuv.c: an image of row pairs, the even row as UYVY and the odd one as luma alone, laid out as three
planes. A result is none when an `int` overflows or a byte outside one of the buffers is touched.
-/
namespace Conv
open Copies

/-- The result of a product or sum of sizes in an `int`. -/
def int32 (n : Nat) : Option Nat := if n < 2147483648 then some n else none

theorem int32_fits {n : Nat} (fits : n < 2147483648) : int32 n = some n := if_pos fits

theorem int32_past {n : Nat} (past : 2147483648 ≤ n) : int32 n = none := if_neg (by omega)

/-- The variables `k` and `m` of `conv_mx25_yuv`, with `data_out`. -/
structure Planes where
  k : Nat
  m : Nat
  dataOut : Filling UInt8

def pairStep (dataIn : List UInt8) (iw ih dataOffset : Nat) (s : Planes) (j : Nat) :
    Option Planes := do
  let out ← s.dataOut.copy dataIn s.k (dataOffset + (j + 1))
  let u ← int32 (s.m + iw * ih)
  let out ← out.copy dataIn u (dataOffset + (j + 0))
  let out ← out.copy dataIn (s.k + 1) (dataOffset + (j + 3))
  let fiveQuarters ← int32 (iw * ih * 5)
  let v ← int32 (s.m + fiveQuarters / 4)
  let out ← out.copy dataIn v (dataOffset + (j + 2))
  let k ← int32 (s.k + 2)
  some ⟨k, s.m + 1, out⟩

def memcpy (src : List UInt8) (out : Filling UInt8) (dst place n : Nat) :
    Option (Filling UInt8) :=
  (List.range n).foldlM (fun out t => out.copy src (dst + t) (place + t)) out

def rowsStep (dataIn : List UInt8) (iw ih : Nat) (s : Planes) (i : Nat) : Option Planes := do
  let start ← int32 (i * iw * 3)
  let width ← int32 (iw * 2)
  let dataOffset := start / 2
  let s ← (upTo width 4).foldlM (pairStep dataIn iw ih dataOffset) s
  let out ← memcpy dataIn s.dataOut s.k (start / 2 + width) iw
  let k ← int32 (s.k + iw)
  some ⟨k, s.m, out⟩

def convMx25Yuv (dataIn : List UInt8) (iw ih : Nat) (dataOut : List UInt8) :
    Option (Filling UInt8) := do
  let s ← (upTo ih 2).foldlM (rowsStep dataIn iw ih) ⟨0, 0, ⟨dataOut, [], []⟩⟩
  some s.dataOut

/-- Where the interleaved input has the luma of row `r`, column `c`. -/
def lumaAt (iw r c : Nat) : Nat :=
  r / 2 * (3 * iw) + if r % 2 = 0 then 2 * c + 1 else 2 * iw + c

/-- Where it has the first chroma sample of the row pair `p` and the column pair `q`; the second one is two
    bytes on. -/
def chromaAt (iw p q : Nat) : Nat := p * (3 * iw) + 4 * q

section moves
variable {w h p q : Nat}

/-- The moves of a pair of pixels, for a width of `2 * w` and a height of `2 * h`. -/
def pairMoves (w h p q : Nat) : List (Nat × Nat) :=
  [(4 * (w * p) + 2 * q, 6 * (w * p) + (4 * q + 1)), (4 * (w * h) + w * p + q, 6 * (w * p) + 4 * q),
    (4 * (w * p) + 2 * q + 1, 6 * (w * p) + (4 * q + 3)),
    (5 * (w * h) + w * p + q, 6 * (w * p) + (4 * q + 2))]

def oddRowMoves (w p : Nat) : List (Nat × Nat) :=
  (List.range (2 * w)).map fun t => (4 * (w * p) + 2 * w + t, 6 * (w * p) + 4 * w + t)

def rowsMoves (w h p : Nat) : List (Nat × Nat) :=
  (List.range w).flatMap (pairMoves w h p) ++ oddRowMoves w p

def frameMoves (w h : Nat) : List (Nat × Nat) := (List.range h).flatMap (rowsMoves w h)

theorem pairs_below (low : p < h) : w * p + w ≤ w * h := by
  have := Nat.mul_le_mul_left w (Nat.succ_le_of_lt low)
  rwa [Nat.mul_succ] at this

theorem area (w h : Nat) : 2 * w * (2 * h) = 4 * (w * h) := by
  rw [Nat.mul_mul_mul_comm]

theorem rows_start (w p : Nat) : p * 2 * (2 * w) * 3 = 12 * (w * p) := by
  rw [Nat.mul_comm p 2, Nat.mul_mul_mul_comm, Nat.mul_comm p w, Nat.mul_comm (2 * 2 * (w * p)) 3, ← Nat.mul_assoc]

end moves

section steps
variable {dataIn : List UInt8} {w h p q : Nat}

theorem pair_step (fits : 20 * (w * h) < 2147483648) (row : p < h) (pair : q < w)
    (f : Filling UInt8) :
    pairStep dataIn (2 * w) (2 * h) (6 * (w * p)) ⟨4 * (w * p) + 2 * q, w * p + q, f⟩ (q * 4) =
      (copies dataIn (pairMoves w h p q) f).map fun out =>
        ⟨4 * (w * p) + 2 * (q + 1), w * p + (q + 1), out⟩ := by
  have below := pairs_below (w := w) row
  have u : int32 (w * p + q + 2 * w * (2 * h)) = some (4 * (w * h) + w * p + q) := by
    rw [area, int32_fits (by omega)]
    congr 1
    omega
  have five : int32 (2 * w * (2 * h) * 5) = some (20 * (w * h)) := by
    rw [area, int32_fits (by omega)]
    congr 1
    omega
  have v : int32 (w * p + q + 20 * (w * h) / 4) = some (5 * (w * h) + w * p + q) := by
    rw [int32_fits (by omega)]
    congr 1
    omega
  have k : int32 (4 * (w * p) + 2 * q + 2) = some (4 * (w * p) + 2 * (q + 1)) :=
    int32_fits (by omega)
  have j : q * 4 = 4 * q := Nat.mul_comm q 4
  rw [pairStep, pairMoves, copies_cons, j]
  dsimp only
  cases f.copy dataIn (4 * (w * p) + 2 * q) (6 * (w * p) + (4 * q + 1)) with
  | none => rfl
  | some f =>
    simp only [Option.bind_eq_bind, Option.bind_some, Nat.add_zero, u, five, v, k, copies_cons]
    cases f.copy dataIn (4 * (w * h) + w * p + q) (6 * (w * p) + 4 * q) with
    | none => rfl
    | some f =>
      simp only [Option.bind_some, copies_cons]
      cases f.copy dataIn (4 * (w * p) + 2 * q + 1) (6 * (w * p) + (4 * q + 3)) with
      | none => rfl
      | some f =>
        simp only [Option.bind_some, copies_cons]
        cases f.copy dataIn (5 * (w * h) + w * p + q) (6 * (w * p) + (4 * q + 2)) <;> rfl

theorem memcpy_copies (dst place n : Nat) (f : Filling UInt8) :
    memcpy dataIn f dst place n = copies dataIn ((List.range n).map fun t => (dst + t, place + t)) f := by
  rw [memcpy, copies, List.foldlM_map]

theorem rows_step (fits : 20 * (w * h) < 2147483648) (row : p < h) (f : Filling UInt8) :
    rowsStep dataIn (2 * w) (2 * h) ⟨4 * (w * p), w * p, f⟩ (p * 2) = (copies dataIn (rowsMoves w h p) f).map fun out =>
        ⟨4 * (w * (p + 1)), w * (p + 1), out⟩ := by
  have below := pairs_below (w := w) row
  have next : w * (p + 1) = w * p + w := Nat.mul_succ w p
  have start : int32 (p * 2 * (2 * w) * 3) = some (12 * (w * p)) := by
    rw [rows_start, int32_fits (by omega)]
  have width : int32 (2 * w * 2) = some (w * 4) := by
    rw [int32_fits (by omega)]
    congr 1
    omega
  have half : 12 * (w * p) / 2 = 6 * (w * p) := by omega
  have k : int32 (4 * (w * p) + 2 * w + 2 * w) = some (4 * (w * (p + 1))) := by
    rw [int32_fits (by omega)]
    congr 1
    omega
  have pairs := loop_copies dataIn
    (fun s q => pairStep dataIn (2 * w) (2 * h) (6 * (w * p)) s (q * 4))
    (fun q out => ⟨4 * (w * p) + 2 * q, w * p + q, out⟩) (pairMoves w h p) (n := w)
    (fun q low f => pair_step fits row low f) f
  rw [rowsStep, start]
  simp only [Option.bind_eq_bind, Option.bind_some, width, half, upTo_mul w (show 0 < 4 by decide), List.foldlM_map]
  rw [Nat.mul_zero, Nat.add_zero, Nat.add_zero] at pairs
  rw [pairs, rowsMoves, copies_append]
  cases copies dataIn ((List.range w).flatMap (pairMoves w h p)) f with
  | none => rfl
  | some f =>
    have odd : 6 * (w * p) + w * 4 = 6 * (w * p) + 4 * w := by omega
    simp only [Option.map_some, Option.bind_some, memcpy_copies, odd, k]
    rw [oddRowMoves, next]
    cases copies dataIn ((List.range (2 * w)).map fun t =>
      (4 * (w * p) + 2 * w + t, 6 * (w * p) + 4 * w + t)) f <;> rfl

theorem conv_copies (fits : 20 * (w * h) < 2147483648) (dataOut : List UInt8) :
    convMx25Yuv dataIn (2 * w) (2 * h) dataOut = copies dataIn (frameMoves w h) ⟨dataOut, [], []⟩ := by
  have rows := loop_copies dataIn
    (fun s p => rowsStep dataIn (2 * w) (2 * h) s (p * 2))
    (fun p out => ⟨4 * (w * p), w * p, out⟩) (rowsMoves w h) (n := h)
    (fun p low f => rows_step fits low f) ⟨dataOut, [], []⟩
  rw [Nat.mul_zero] at rows
  rw [convMx25Yuv, Nat.mul_comm 2 h, upTo_mul h (by decide), List.foldlM_map, Nat.mul_comm h 2, rows, frameMoves]
  cases copies dataIn ((List.range h).flatMap (rowsMoves w h)) ⟨dataOut, [], []⟩ <;> rfl

end steps
section places
variable {w h : Nat}

theorem pair_reads (p : Nat) :
    ((List.range w).flatMap fun q => (pairMoves w h p q).map Prod.snd).Perm
      (List.range' (6 * (w * p)) (4 * w)) := by
  have each : ∀ q ∈ List.range w, ((pairMoves w h p q).map Prod.snd).Perm
      (List.range' (6 * (w * p) + 4 * q) 4) := by
    intro q _
    have block : List.range' (6 * (w * p) + 4 * q) 4 = [6 * (w * p) + 4 * q,
        6 * (w * p) + (4 * q + 1), 6 * (w * p) + (4 * q + 2), 6 * (w * p) + (4 * q + 3)] := rfl
    rw [block]
    exact (List.Perm.swap _ _ _).trans ((List.Perm.swap _ _ _).cons _ |>.cons _)
  have all := List.Perm.flatMap_left (List.range w) each
  rwa [blocks] at all

theorem rows_reads (p : Nat) :
    ((rowsMoves w h p).map Prod.snd).Perm (List.range' (0 + 6 * w * p) (6 * w)) := by
  have start : 0 + 6 * w * p = 6 * (w * p) := by rw [Nat.zero_add, Nat.mul_assoc]
  have width : 6 * w = 4 * w + 2 * w := by omega
  have odd : (oddRowMoves w p).map Prod.snd = List.range' (6 * (w * p) + 4 * w) (2 * w) := by
    rw [oddRowMoves, List.map_map, List.range'_eq_map_range]
    rfl
  rw [rowsMoves, List.map_append, List.map_flatMap, odd, start, width, ← List.range'_append_1]
  exact (pair_reads p).append_right _

theorem frame_reads : ((frameMoves w h).map Prod.snd).Perm (List.range (6 * w * h)) := by
  have all := List.Perm.flatMap_left (List.range h) fun p _ => rows_reads (w := w) (h := h) p
  rwa [blocks, ← List.map_flatMap, ← List.range_eq_range'] at all

theorem pair_writes (p : Nat) :
    ((List.range w).flatMap fun q => (pairMoves w h p q).map Prod.fst).Perm
      (List.range' (4 * (w * p)) (2 * w) ++
        (List.range' (4 * (w * h) + w * p) w ++ List.range' (5 * (w * h) + w * p) w)) := by
  have luma := blocks (4 * (w * p)) 2 w
  have u := blocks (4 * (w * h) + w * p) 1 w
  have v := blocks (5 * (w * h) + w * p) 1 w
  rw [Nat.one_mul] at u v
  rw [← luma, ← u, ← v]
  apply (two_rows _ (fun q => List.range' (4 * (w * p) + 2 * q) 2)
    (fun q => List.range' (4 * (w * h) + w * p + 1 * q) 1 ++ List.range' (5 * (w * h) + w * p + 1 * q) 1) ?_).trans
  · exact (two_rows _ _ _ fun q => List.Perm.refl _).append_left _
  · intro q
    rw [Nat.one_mul]
    exact (List.Perm.swap _ _ _).cons _

theorem rows_writes (p : Nat) :
    ((rowsMoves w h p).map Prod.fst).Perm
      (List.range' (0 + 4 * w * p) (4 * w) ++
        (List.range' (4 * (w * h) + w * p) w ++ List.range' (5 * (w * h) + w * p) w)) := by
  have start : 0 + 4 * w * p = 4 * (w * p) := by rw [Nat.zero_add, Nat.mul_assoc]
  have width : 4 * w = 2 * w + 2 * w := by omega
  have odd : (oddRowMoves w p).map Prod.fst = List.range' (4 * (w * p) + 2 * w) (2 * w) := by
    rw [oddRowMoves, List.map_map, List.range'_eq_map_range]
    rfl
  rw [rowsMoves, List.map_append, List.map_flatMap, odd, start, width, ← List.range'_append_1]
  apply ((pair_writes p).append_right _).trans
  have luma := List.append_assoc (List.range' (4 * (w * p)) (2 * w))
  rw [luma, luma]
  exact List.perm_append_comm.append_left _

theorem frame_writes : ((frameMoves w h).map Prod.fst).Perm (List.range (6 * w * h)) := by
  have luma := blocks 0 (4 * w) h
  have u := blocks (4 * (w * h)) w h
  have v := blocks (5 * (w * h)) w h
  have whole : List.range (6 * w * h) = List.range' 0 (4 * w * h) ++
      (List.range' (4 * (w * h)) (w * h) ++ List.range' (5 * (w * h)) (w * h)) := by
    have ends : 5 * (w * h) = 4 * (w * h) + w * h := by omega
    have size : 6 * w * h = 4 * (w * h) + (w * h + w * h) := by
      rw [Nat.mul_assoc]
      omega
    have start : List.range' 0 (4 * (w * h)) ++ List.range' (4 * (w * h)) (w * h + w * h) =
        List.range' 0 (4 * (w * h) + (w * h + w * h)) := by
      have := List.range'_append_1 (s := 0) (m := 4 * (w * h)) (n := w * h + w * h)
      rwa [Nat.zero_add] at this
    rw [List.range_eq_range', size, ← start, ← List.range'_append_1, ends, Nat.mul_assoc]
  rw [whole, ← luma, ← u, ← v, frameMoves, List.map_flatMap]
  apply (two_rows _ _ _ rows_writes).trans
  exact (two_rows _ _ _ fun p => List.Perm.refl _).append_left _

theorem pair_among {p q : Nat} (row : p < h) (pair : q < w) {move : Nat × Nat}
    (among : move ∈ pairMoves w h p q) : move ∈ frameMoves w h :=
  List.mem_flatMap.mpr ⟨p, List.mem_range.mpr row,
    List.mem_append_left _ (List.mem_flatMap.mpr ⟨q, List.mem_range.mpr pair, among⟩)⟩

theorem odd_among {p t : Nat} (row : p < h) (column : t < 2 * w) :
    (4 * (w * p) + 2 * w + t, 6 * (w * p) + 4 * w + t) ∈ frameMoves w h :=
  List.mem_flatMap.mpr ⟨p, List.mem_range.mpr row,
    List.mem_append_right _ (List.mem_map.mpr ⟨t, List.mem_range.mpr column, rfl⟩)⟩

theorem luma_among {r c : Nat} (row : r < 2 * h) (column : c < 2 * w) :
    (r * (2 * w) + c, lumaAt (2 * w) r c) ∈ frameMoves w h := by
  have pair : r / 2 < h := by omega
  have parts := Nat.div_add_mod r 2
  have start : r / 2 * (3 * (2 * w)) = 6 * (w * (r / 2)) := by
    rw [← Nat.mul_assoc 3 2 w, Nat.mul_left_comm, Nat.mul_comm (r / 2)]
  have luma : r * (2 * w) = 4 * (w * (r / 2)) + r % 2 * (2 * w) := by
    conv_lhs => rw [← parts]
    rw [Nat.add_mul, Nat.mul_mul_mul_comm, Nat.mul_comm (r / 2)]
  rw [lumaAt, start, luma]
  by_cases even : r % 2 = 0
  · rw [if_pos even, even, Nat.zero_mul, Nat.add_zero]
    by_cases first : c % 2 = 0
    · refine pair_among (q := c / 2) pair (by omega) ?_
      have to_c : 2 * (c / 2) = c := by omega
      have to_byte : 4 * (c / 2) = 2 * c := by omega
      rw [pairMoves, to_c, to_byte]
      exact List.mem_cons_self
    · refine pair_among (q := c / 2) pair (by omega) ?_
      have to_c : 4 * (w * (r / 2)) + 2 * (c / 2) + 1 = 4 * (w * (r / 2)) + c := by omega
      have to_byte : 4 * (c / 2) + 3 = 2 * c + 1 := by omega
      rw [pairMoves, to_c, to_byte]
      exact List.mem_cons_of_mem _ (List.mem_cons_of_mem _ List.mem_cons_self)
  · have odd : r % 2 = 1 := by omega
    have bytes : 6 * (w * (r / 2)) + (2 * (2 * w) + c) = 6 * (w * (r / 2)) + 4 * w + c := by omega
    rw [if_neg even, odd, Nat.one_mul, bytes]
    exact odd_among pair column

theorem chroma_among {p q : Nat} (row : p < h) (pair : q < w) :
    (4 * (w * h) + w * p + q, chromaAt (2 * w) p q) ∈ frameMoves w h ∧
      (5 * (w * h) + w * p + q, chromaAt (2 * w) p q + 2) ∈ frameMoves w h := by
  have start : p * (3 * (2 * w)) = 6 * (w * p) := by
    rw [← Nat.mul_assoc 3 2 w, Nat.mul_left_comm, Nat.mul_comm p]
  rw [chromaAt, start]
  constructor
  · apply pair_among row pair
    exact List.mem_cons_of_mem _ List.mem_cons_self
  · apply pair_among row pair
    rw [pairMoves, Nat.add_assoc (6 * (w * p))]
    exact List.mem_cons_of_mem _ (List.mem_cons_of_mem _ (List.mem_cons_of_mem _ List.mem_cons_self))

end places

theorem conv_filled {w h : Nat} (fits : 20 * (w * h) < 2147483648) {dataIn dataOut : List UInt8}
    (input : 6 * w * h ≤ dataIn.length) (output : 6 * w * h ≤ dataOut.length) :
    ∃ f, convMx25Yuv dataIn (2 * w) (2 * h) dataOut = some f ∧ Filled dataIn (frameMoves w h) ⟨dataOut, [], []⟩ f := by
  rw [conv_copies fits]
  apply copies_filled
  · intro move among
    have write := frame_writes.mem_iff.mp (List.mem_map_of_mem (f := Prod.fst) among)
    have read := frame_reads.mem_iff.mp (List.mem_map_of_mem (f := Prod.snd) among)
    rw [List.mem_range] at write read
    exact ⟨show move.1 < dataOut.length by omega, by omega⟩
  · exact frame_writes.nodup_iff.mpr List.nodup_range

theorem upTo_first {stop step : Nat} (some : 0 < stop) (forward : 0 < step) :
    ∃ rest, upTo stop step = 0 :: rest := by
  have rounds : 0 < (stop + (step - 1)) / step := Nat.div_pos (by omega) forward
  obtain ⟨n, count⟩ := Nat.exists_eq_succ_of_ne_zero (by omega : (stop + (step - 1)) / step ≠ 0)
  refine ⟨(List.range n).map fun q => (q + 1) * step, ?_⟩
  rw [upTo, count, List.range_succ_eq_map, List.map_cons, List.map_map, Nat.zero_mul]
  rfl

theorem conv_first {iw ih : Nat} {dataIn dataOut : List UInt8} {f : Filling UInt8} (wide : 0 < iw)
    (high : 0 < ih) (ran : convMx25Yuv dataIn iw ih dataOut = some f) :
    iw * ih * 5 < 2147483648 ∧ dataIn ≠ [] := by
  obtain ⟨rows, firstRow⟩ := upTo_first high (show 0 < 2 by decide)
  obtain ⟨pairs, firstPair⟩ := upTo_first (show 0 < iw * 2 by omega) (show 0 < 4 by decide)
  rw [convMx25Yuv, firstRow, List.foldlM_cons] at ran
  simp only [Option.bind_eq_bind, Option.bind_eq_some_iff] at ran
  obtain ⟨-, ⟨_, row, -⟩, -⟩ := ran
  rw [rowsStep] at row
  simp only [Option.bind_eq_bind, Option.bind_eq_some_iff] at row
  obtain ⟨start, -, width, sized, _, pairsRan, -⟩ := row
  obtain rfl : iw * 2 = width := by
    rw [int32] at sized
    split at sized
    · exact Option.some.inj sized
    · cases sized
  rw [firstPair, List.foldlM_cons] at pairsRan
  simp only [Option.bind_eq_bind, Option.bind_eq_some_iff] at pairsRan
  obtain ⟨_, pair, -⟩ := pairsRan
  rw [pairStep] at pair
  simp only [Option.bind_eq_bind, Option.bind_eq_some_iff] at pair
  obtain ⟨_, copied, _, -, _, -, _, -, five, fits, -⟩ := pair
  constructor
  · by_contra past
    rw [int32_past (by omega)] at fits
    cases fits
  · rintro rfl
    obtain ⟨-, x, read⟩ := copy_inside copied
    cases read

theorem conv_needs {w h : Nat} {dataIn dataOut : List UInt8} {f : Filling UInt8} (wide : 0 < w)
    (high : 0 < h) (ran : convMx25Yuv dataIn (2 * w) (2 * h) dataOut = some f) :
    20 * (w * h) < 2147483648 ∧ dataIn ≠ [] ∧ 6 * w * h ≤ dataOut.length := by
  obtain ⟨fits, read⟩ := conv_first (by omega) (by omega) ran
  rw [area] at fits
  have small : 20 * (w * h) < 2147483648 := by omega
  refine ⟨small, read, ?_⟩
  by_contra short
  have some_bytes : 0 < 6 * w * h := Nat.mul_pos (by omega) high
  have last : 6 * w * h - 1 ∈ (frameMoves w h).map Prod.fst :=
    frame_writes.mem_iff.mpr (List.mem_range.mpr (by omega))
  obtain ⟨move, among, place⟩ := List.mem_map.mp last
  have outside : copies dataIn (frameMoves w h) ⟨dataOut, [], []⟩ = none :=
    copies_outside among (show dataOut.length ≤ move.1 by omega)
  rw [conv_copies small, outside] at ran
  cases ran

structure Rearranged (dataIn dataOut : List UInt8) (iw ih : Nat) (f : Filling UInt8) : Prop where
  length : f.out.length = dataOut.length
  reads : f.reads.Perm (List.range (iw * ih * 3 / 2))
  writes : f.writes.Perm (List.range (iw * ih * 3 / 2))
  luma : ∀ r c, r < ih → c < iw → f.out[r * iw + c]? = dataIn[lumaAt iw r c]?
  chroma : ∀ p q, p < ih / 2 → q < iw / 2 → f.out[iw * ih + p * (iw / 2) + q]? = dataIn[chromaAt iw p q]? ∧
      f.out[iw * ih * 5 / 4 + p * (iw / 2) + q]? = dataIn[chromaAt iw p q + 2]?

theorem conv_planes {iw ih : Nat} (dataIn dataOut : List UInt8) (evenWidth : iw % 2 = 0)
    (evenHeight : ih % 2 = 0) (fits : iw * ih * 5 < 2147483648)
    (input : iw * ih * 3 / 2 ≤ dataIn.length) (output : iw * ih * 3 / 2 ≤ dataOut.length) :
    ∃ f, convMx25Yuv dataIn iw ih dataOut = some f ∧ Rearranged dataIn dataOut iw ih f := by
  obtain ⟨w, rfl⟩ := Nat.dvd_of_mod_eq_zero evenWidth
  obtain ⟨h, rfl⟩ := Nat.dvd_of_mod_eq_zero evenHeight
  have size : 2 * w * (2 * h) * 3 / 2 = 6 * w * h := by
    rw [area, Nat.mul_assoc 6]
    omega
  have second : 4 * (w * h) * 5 / 4 = 5 * (w * h) := by omega
  rw [size] at input output
  obtain ⟨f, ran, filled⟩ := conv_filled (w := w) (h := h) (by rw [area] at fits; omega) input output
  refine ⟨f, ran, filled.length, ?_, ?_, ?_, ?_⟩
  · rw [filled.reads, List.nil_append, size]
    exact frame_reads
  · rw [filled.writes, List.nil_append, size]
    exact frame_writes
  · intro r c row column
    exact filled.moved _ (luma_among row column)
  · intro p q row pair
    have half : ∀ n, 2 * n / 2 = n := fun n => Nat.mul_div_cancel_left n (by decide)
    rw [half] at row pair ⊢
    rw [area, second, Nat.mul_comm p w]
    have places := chroma_among row pair
    exact ⟨filled.moved _ places.1, filled.moved _ places.2⟩

/-- Every byte of the frame is read once and every byte of the planes is written once, with the luma of its
    pixel or the chroma samples of the even rows in their order. -/
theorem conv_rearranges (iw ih : Nat) (dataIn dataOut : List UInt8)
    (evenWidth : iw % 2 = 0) (evenHeight : ih % 2 = 0) (fits : iw * ih * 5 < 2147483648)
    (input : iw * ih * 3 / 2 ≤ dataIn.length) (output : iw * ih * 3 / 2 ≤ dataOut.length) :
    ∃ f, convMx25Yuv dataIn iw ih dataOut = some f ∧ f.reads.Perm (List.range (iw * ih * 3 / 2)) ∧
      f.writes.Perm (List.range (iw * ih * 3 / 2)) ∧
      (∀ r c, r < ih → c < iw → f.out[r * iw + c]? = dataIn[lumaAt iw r c]?) ∧
      (∀ p q, p < ih / 2 → q < iw / 2 → f.out[iw * ih + p * (iw / 2) + q]? = dataIn[chromaAt iw p q]? ∧
        f.out[iw * ih * 5 / 4 + p * (iw / 2) + q]? = dataIn[chromaAt iw p q + 2]?) := by
  obtain ⟨f, ran, planes⟩ := conv_planes dataIn dataOut evenWidth evenHeight fits input output
  exact ⟨f, ran, planes.reads, planes.writes, planes.luma, planes.chroma⟩

/-- A frame of four pixels: the pair UYVY, the two of luma below it, and the same as three planes. -/
theorem smallest_frame : ∃ f, convMx25Yuv [85, 16, 171, 17, 18, 19] 2 2 [0, 0, 0, 0, 0, 0] = some f ∧
    f.reads.Perm (List.range 6) ∧ f.writes.Perm (List.range 6) ∧
    f.out = [16, 17, 18, 19, 85, 171] := by
  obtain ⟨f, ran, reads, writes, -⟩ := conv_rearranges 2 2 [85, 16, 171, 17, 18, 19]
    [0, 0, 0, 0, 0, 0] (by decide) (by decide) (by decide) (by decide) (by decide)
  refine ⟨f, ran, reads, writes, ?_⟩
  have runs : convMx25Yuv [85, 16, 171, 17, 18, 19] 2 2 [0, 0, 0, 0, 0, 0] =
      some ⟨[16, 17, 18, 19, 85, 171], [1, 0, 3, 2, 4, 5], [0, 4, 1, 5, 2, 3]⟩ := by decide
  rw [runs] at ran
  exact (congrArg Filling.out (Option.some.inj ran)).symm

end Conv
