import Vte.Conv.ProcessImg

/-!
The loops of `process_img` that convert to a bitmap: with every sample of the image in reach, each of them
stores the pixels of the grid, one cell of three bytes for each.
-/
namespace Conv
open Copies Multiples StoreLog

/-- The pixel at a row and a column of an image whose bytes are `byte`, by the layout of its format; with
    `mx25` the planes of a 4:2:0 image are interleaved by rows. -/
def pixel (fmt : Format) (xres yres : Nat) (mx25 : Bool) (byte : Nat → UInt8) (row col : Nat) :
    RgbQuad :=
  let area := xres * yres
  let here := row * xres + col
  let pair := (row * xres + col / 2 * 2) * 2
  let luma := if mx25 then byte (lumaAt xres row col) else byte here
  let square := row / 2 * (xres / 2) + col / 2
  let first := if mx25 then byte (chromaAt xres (row / 2) (col / 2)) else byte (area + square)
  let second := if mx25 then byte (chromaAt xres (row / 2) (col / 2) + 2)
    else byte (area + area / 4 + square)
  match fmt with
  | .rgb565 => unpack565 (byte (here * 2)) (byte (here * 2 + 1))
  | .bgr24 => ⟨byte (here * 3), byte (here * 3 + 1), byte (here * 3 + 2)⟩
  | .rgb24 => ⟨byte (here * 3 + 2), byte (here * 3 + 1), byte (here * 3)⟩
  | .bgr32 => ⟨byte (here * 4), byte (here * 4 + 1), byte (here * 4 + 2)⟩
  | .rgb32 => ⟨byte (here * 4 + 2), byte (here * 4 + 1), byte (here * 4)⟩
  | .nv16 => yuvA (byte here) (byte (area + (row * xres + col / 2 * 2)))
      (byte (area + (row * xres + col / 2 * 2) + 1))
  | .yuv422p => yuvA (byte here) (byte (area + (row * (xres / 2) + col / 2)))
      (byte (area + area / 2 + (row * (xres / 2) + col / 2)))
  | .yuy2 => yuvB (byte (here * 2)) (byte (pair + 1)) (byte (pair + 3))
  | .uyvy => yuvB (byte (here * 2 + 1)) (byte pair) (byte (pair + 2))
  | .yuv444 => yuvB (byte (here * 3)) (byte (here * 3 + 1)) (byte (here * 3 + 2))
  | .yuv420 => yuvA luma first second
  | .yvu420 => yuvA luma second first

def component (rgb : RgbQuad) : Nat → UInt8
  | 0 => rgb.rgbBlue
  | 1 => rgb.rgbGreen
  | _ => rgb.rgbRed

section cells
variable {l xres yres : Nat} {ws : Stores UInt8} {v : Nat → Nat → RgbQuad}

def bitmap (yres xres l : Nat) (v : Nat → Nat → RgbQuad) : Stores UInt8 :=
  grid yres xres fun i j => putRgb (i * l + 3 * j) (v i j)

theorem put_cell {k : Nat} {rgb : RgbQuad} {w : Nat × UInt8} (among : w ∈ putRgb k rgb) :
    ∃ t < 3, w.1 = k + t := by
  simp only [putRgb, List.mem_cons, List.not_mem_nil, or_false] at among
  rcases among with rfl | rfl | rfl
  · exact ⟨2, by decide, rfl⟩
  · exact ⟨1, by decide, rfl⟩
  · exact ⟨0, by decide, rfl⟩

theorem bitmap_cells :
    InCells yres xres 3 l (fun i => i) fun i j => putRgb (i * l + 3 * j) (v i j) := by
  intro i _ j _ w among
  obtain ⟨t, part, place⟩ := put_cell among
  exact ⟨t, part, place.trans (Nat.add_assoc _ _ _)⟩

theorem put_component (k : Nat) (rgb : RgbQuad) {t : Nat} (part : t < 3) :
    storesTo (putRgb k rgb) (k + t) = [component rgb t] := by
  have cases3 : t = 0 ∨ t = 1 ∨ t = 2 := by omega
  rcases cases3 with rfl | rfl | rfl <;> simp [storesTo, putRgb, component]

theorem bitmap_once (room : 3 * xres ≤ l) (same : ws.Perm (bitmap yres xres l v)) {row col t : Nat}
    (inRow : row < yres) (inCol : col < xres) (part : t < 3) :
    storesTo ws (row * l + (3 * col + t)) = [component (v row col) t] := by
  apply storesTo_one same
  have once := grid_once (bitmap_cells (l := l) (v := v)) room (fun i _ i' _ alike => alike) inRow
    inCol part
  rw [bitmap, once, ← Nat.add_assoc]
  exact put_component _ _ part

theorem bitmap_inside (room : 3 * xres ≤ l) (same : ws.Perm (bitmap yres xres l v)) :
    ∀ w ∈ ws, w.1 < l * yres := by
  intro w among
  exact grid_inside (bitmap_cells (l := l) (v := v)) room (fun i row => row) w
    (same.mem_iff.mp among)

end cells

section sweeps
variable {rows cols : List Nat} {body : Nat → Nat → Option (Stores UInt8)}

theorem sweep_some (each : Nat → Nat → Stores UInt8) (known : ∀ i ∈ rows, ∀ j ∈ cols, body i j = some (each i j)) :
    sweep rows cols body = some (rows.flatMap fun i => cols.flatMap (each i)) :=
  loop_some fun i row => loop_some (known i row)

theorem sweep_none {i j : Nat} (row : i ∈ rows) (column : j ∈ cols) (fails : body i j = none) :
    sweep rows cols body = none :=
  loop_none row (loop_none column fails)

theorem sweep_round {ws : Stores UInt8} (ran : sweep rows cols body = some ws) {i j : Nat}
    (row : i ∈ rows) (column : j ∈ cols) : ∃ part, body i j = some part ∧ part ⊆ ws := by
  obtain ⟨outer, round, inside⟩ := loop_round ran row
  obtain ⟨part, cell, within⟩ := loop_round round column
  exact ⟨part, cell, fun w among => inside (within among)⟩

end sweeps

section images
variable {pdata : Source} {byte : Nat → UInt8} {xres yres l i j : Nat}

theorem index_low (row : i < yres) (column : j < xres) : i * xres + j + 1 ≤ xres * yres := by
  have := Nat.mul_le_mul_right xres (Nat.succ_le_of_lt row)
  rw [Nat.succ_mul, Nat.mul_comm yres] at this
  omega

theorem scaled_low (size : Nat) (row : i < yres) (column : j < xres) :
    (i * xres + j) * size + size ≤ xres * yres * size := by
  have := Nat.mul_le_mul_right size (index_low row column)
  rwa [Nat.succ_mul] at this

/-- The samples of an image of `size` bytes can all be read. -/
def InReach (pdata : Source) (byte : Nat → UInt8) (size : Nat) : Prop :=
  ∀ k < size, pdata.byteAt k = some (byte k)

theorem rgb565_sweep (fits : xres * yres * 2 < 2147483648)
    (reach : InReach pdata byte (xres * yres * 2)) :
    sweep (upTo yres 1) (upTo xres 1) (rgb565Body pdata xres l) =
      some (bitmap yres xres l (pixel .rgb565 xres yres false byte)) := by
  rw [upTo_one, upTo_one]
  apply sweep_some
  intro i row j column
  rw [List.mem_range] at row column
  have low := scaled_low 2 row column
  rw [rgb565Body, int32_fits (by omega), Nat.mul_comm j 3]
  simp only [Option.bind_eq_bind, Option.bind_some, reach _ (show (i * xres + j) * 2 + 1 < _ by omega),
    reach _ (show (i * xres + j) * 2 < _ by omega)]
  rfl

theorem packed_sweep {size red green blue : Nat} (fits : xres * yres * size < 2147483648)
    (reach : InReach pdata byte (xres * yres * size)) (inRed : red < size) (inGreen : green < size)
    (inBlue : blue < size) :
    ∃ ws, sweep (upTo yres 1) (upTo xres 1)
        (fun i j => packedBody pdata xres l i j size red green blue) = some ws ∧
      ws.Perm (bitmap yres xres l fun row col =>
        ⟨byte ((row * xres + col) * size + red), byte ((row * xres + col) * size + green),
          byte ((row * xres + col) * size + blue)⟩) := by
  rw [upTo_one, upTo_one]
  refine ⟨_, sweep_some (fun i j => [(i * l + 3 * j, byte ((i * xres + j) * size + red)),
    (i * l + 3 * j + 1, byte ((i * xres + j) * size + green)),
    (i * l + 3 * j + 2, byte ((i * xres + j) * size + blue))]) ?_, ?_⟩
  · intro i row j column
    rw [List.mem_range] at row column
    have low := scaled_low size row column
    rw [packedBody, int32_fits (by omega), Nat.mul_comm j 3]
    simp only [Option.bind_eq_bind, Option.bind_some, reach _ (show (i * xres + j) * size + red < _ by omega),
      reach _ (show (i * xres + j) * size + green < _ by omega),
      reach _ (show (i * xres + j) * size + blue < _ by omega)]
  · apply List.Perm.flatMap_left
    intro i _
    apply List.Perm.flatMap_left
    intro j _
    exact (List.reverse_perm _).symm

theorem pair_some {toRgb : UInt8 → UInt8 → UInt8 → RgbQuad} {size k y1 y2 u v : Nat}
    (reach : InReach pdata byte size) (first : y1 < size) (second : y2 < size) (inU : u < size)
    (inV : v < size) :
    pairAt pdata toRgb k y1 y2 u v = some (putRgb k (toRgb (byte y1) (byte u) (byte v)) ++
      putRgb (k + 3) (toRgb (byte y2) (byte u) (byte v))) := by
  simp only [pairAt, reach _ first, reach _ second, reach _ inU, reach _ inV, Option.bind_eq_bind, Option.bind_some]

theorem paired_sweep {w : Nat} {body : Nat → Nat → Option (Stores UInt8)}
    {v : Nat → Nat → RgbQuad}
    (round : ∀ i < yres, ∀ q < w, body i (q * 2) =
      some (putRgb (i * l + q * 2 * 3) (v i (2 * q)) ++ putRgb (i * l + q * 2 * 3 + 3) (v i (2 * q + 1)))) :
    sweep (upTo yres 1) (upTo (2 * w) 2) body = some (bitmap yres (2 * w) l v) := by
  have swept : sweep (List.range yres) (List.range w) (fun i q => body i (q * 2)) = _ :=
    sweep_some _ fun i row q column => round i (List.mem_range.mp row) q (List.mem_range.mp column)
  have columns : ∀ i, loop ((List.range w).map fun q => q * 2) (body i) =
      loop (List.range w) fun q => body i (q * 2) := by
    intro i
    rw [loop, loop, List.mapM_map]
    rfl
  rw [upTo_one, Nat.mul_comm 2 w, upTo_mul w (by decide), Nat.mul_comm w 2, sweep]
  simp only [columns]
  rw [sweep] at swept
  rw [swept, bitmap, grid]
  congr 1
  apply List.flatMap_congr
  intro i _
  rw [← paired_rounds w]
  apply List.flatMap_congr
  intro q _
  have first : 3 * (2 * q) = q * 2 * 3 := by omega
  have second : i * l + 3 * (2 * q + 1) = i * l + q * 2 * 3 + 3 := by omega
  rw [first, second]

theorem nv16_sweep (even : xres % 2 = 0) (fits : xres * yres * 2 < 2147483648)
    (reach : InReach pdata byte (xres * yres * 2)) :
    sweep (upTo yres 1) (upTo xres 2) (nv16Body pdata xres l (xres * yres)) =
      some (bitmap yres xres l (pixel .nv16 xres yres false byte)) := by
  obtain ⟨w, rfl⟩ := Nat.dvd_of_mod_eq_zero even
  apply paired_sweep
  intro i row q pair
  have low : i * (2 * w) + (q * 2 + 1) + 1 ≤ 2 * w * yres := index_low row (by omega)
  have before : i * (2 * w) = 2 * (i * w) := Nat.mul_left_comm i 2 w
  have whole : 2 * w * yres = 2 * (w * yres) := Nat.mul_assoc 2 w yres
  have ku : (i * (2 * w) + q * 2 + 2 * w * yres) % 4294967296 / 2 * 2 = 2 * w * yres + (i * (2 * w) + q * 2) := by
    rw [Nat.mod_eq_of_lt (by omega), before, whole]
    omega
  have two : 2 * q = q * 2 := Nat.mul_comm 2 q
  have half : q * 2 / 2 = q := by omega
  have half' : (q * 2 + 1) / 2 = q := by omega
  rw [nv16Body, int32_fits (by omega)]
  simp only [Option.bind_eq_bind, Option.bind_some, ku]
  rw [pair_some reach (by omega) (by omega) (by omega) (by omega), two]
  simp only [pixel, half, half', Nat.add_assoc]

theorem yuv422p_sweep (even : xres % 2 = 0) (fits : xres * yres * 2 < 2147483648)
    (reach : InReach pdata byte (xres * yres * 2)) :
    sweep (upTo yres 1) (upTo xres 2) (yuv422pBody pdata xres l (xres * yres)) =
      some (bitmap yres xres l (pixel .yuv422p xres yres false byte)) := by
  obtain ⟨w, rfl⟩ := Nat.dvd_of_mod_eq_zero even
  apply paired_sweep
  intro i row q pair
  have low : i * (2 * w) + (q * 2 + 1) + 1 ≤ 2 * w * yres := index_low row (by omega)
  have before : i * (2 * w) = 2 * (i * w) := Nat.mul_left_comm i 2 w
  have whole : 2 * w * yres = 2 * (w * yres) := Nat.mul_assoc 2 w yres
  have ku : i * (2 * w) / 2 + q * 2 / 2 + 2 * w * yres = 2 * w * yres + (i * w + q) := by
    rw [before]
    omega
  have kv : 2 * w * yres + (i * w + q) + 2 * w * yres / 2 = 2 * w * yres + 2 * w * yres / 2 + (i * w + q) := by omega
  have two : 2 * q = q * 2 := Nat.mul_comm 2 q
  have half : q * 2 / 2 = q := by omega
  have half' : (q * 2 + 1) / 2 = q := by omega
  have width : 2 * w / 2 = w := by omega
  rw [yuv422pBody, int32_fits (by omega)]
  simp only [Option.bind_eq_bind, Option.bind_some, ku, kv]
  rw [pair_some reach (by omega) (by omega) (by omega) (by omega), two]
  simp only [pixel, half, half', width, Nat.add_assoc]

theorem bound_wraps (a b : Int) (n : Int) (same : a = b + n * 4294967296) :
    bound255 (a / 1024) = bound255 (b / 1024) := by
  have apart : a / 1024 = b / 1024 + n * 64 * 65536 := by omega
  have alike : toShort (a / 1024) = toShort (b / 1024) := by
    rw [toShort, toShort, apart]
    omega
  rw [bound255, bound255, alike]

theorem yuv_square (y u v : UInt8) : yuvSquare y u v = yuvA y u v := by
  have wraps : ∀ c : Int, bound255 ((A1 * (long y - 16) % 4294967296 + c) / 1024) =
        bound255 ((A1 * (long y - 16) + c) / 1024) := by
    intro c
    apply bound_wraps _ _ (-(A1 * (long y - 16) / 4294967296))
    omega
  have green := wraps (-(A3 * (long v - 128)) - A4 * (long u - 128))
  simp only [← Int.add_sub_assoc, ← Int.sub_eq_add_neg] at green
  simp only [yuvSquare, yuvA, yuvRgb, wraps, green]

theorem square_sweep {w h : Nat} {body : Nat → Nat → Option (Stores UInt8)}
    {v : Nat → Nat → RgbQuad}
    (round : ∀ p < h, ∀ q < w, body (p * 2) (q * 2) = some (putRgb (2 * p * l + 3 * (2 * q)) (v (2 * p) (2 * q)) ++
        putRgb (2 * p * l + 3 * (2 * q + 1)) (v (2 * p) (2 * q + 1)) ++
        putRgb ((2 * p + 1) * l + 3 * (2 * q)) (v (2 * p + 1) (2 * q)) ++
        putRgb ((2 * p + 1) * l + 3 * (2 * q + 1)) (v (2 * p + 1) (2 * q + 1)))) :
    ∃ ws, sweep (upTo (2 * h - 1) 2) (upTo (2 * w - 1) 2) body = some ws ∧ ws.Perm (bitmap (2 * h) (2 * w) l v) := by
  have swept : sweep (List.range h) (List.range w) (fun p q => body (p * 2) (q * 2)) = _ :=
    sweep_some _ fun p row q column => round p (List.mem_range.mp row) q (List.mem_range.mp column)
  have columns : ∀ i, loop ((List.range w).map fun q => q * 2) (body i) =
      loop (List.range w) fun q => body i (q * 2) := by
    intro i
    rw [loop, loop, List.mapM_map]
    rfl
  have rows : ∀ each : Nat → Option (Stores UInt8), loop ((List.range h).map fun p => p * 2) each =
        loop (List.range h) fun p => each (p * 2) := by
    intro each
    rw [loop, loop, List.mapM_map]
    rfl
  rw [upTo_rounds (n := h) (by omega) (by omega), upTo_rounds (n := w) (by omega) (by omega), sweep]
  simp only [columns, rows]
  refine ⟨_, swept, ?_⟩
  rw [bitmap, grid, ← paired_rounds h]
  apply List.Perm.flatMap_left
  intro p _
  rw [← paired_rounds w, ← paired_rounds w]
  apply two_rows
  intro q
  rw [List.append_assoc]

theorem square_some {w h p q size ku kv : Nat} (fits : 2 * w * (2 * h) < 2147483648)
    (reach : InReach pdata byte size) (enough : 2 * w * (2 * h) ≤ size) (inU : ku < size)
    (inV : kv < size) (row : p < h) (pair : q < w) :
    squareAt pdata (2 * w) l (p * 2) (q * 2) ku kv = some (putRgb (2 * p * l + 3 * (2 * q))
          (yuvA (byte (2 * p * (2 * w) + 2 * q)) (byte ku) (byte kv)) ++
        putRgb (2 * p * l + 3 * (2 * q + 1))
          (yuvA (byte (2 * p * (2 * w) + (2 * q + 1))) (byte ku) (byte kv)) ++
        putRgb ((2 * p + 1) * l + 3 * (2 * q))
          (yuvA (byte ((2 * p + 1) * (2 * w) + 2 * q)) (byte ku) (byte kv)) ++
        putRgb ((2 * p + 1) * l + 3 * (2 * q + 1))
          (yuvA (byte ((2 * p + 1) * (2 * w) + (2 * q + 1))) (byte ku) (byte kv))) := by
  have upper : 2 * p * (2 * w) + (2 * q + 1) + 1 ≤ 2 * w * (2 * h) :=
    index_low (by omega) (by omega)
  have lower : (2 * p + 1) * (2 * w) + (2 * q + 1) + 1 ≤ 2 * w * (2 * h) :=
    index_low (by omega) (by omega)
  have two : p * 2 = 2 * p := Nat.mul_comm p 2
  have two' : q * 2 = 2 * q := Nat.mul_comm q 2
  have cell : 2 * q * 3 = 3 * (2 * q) := Nat.mul_comm _ 3
  rw [squareAt, two, two', int32_fits (by omega), int32_fits (by omega), cell]
  simp only [Option.bind_eq_bind, Option.bind_some, reach _ inU, reach _ inV,
    reach (2 * p * (2 * w) + 2 * q) (by omega), reach (2 * p * (2 * w) + 2 * q + 1) (by omega),
    reach ((2 * p + 1) * (2 * w) + 2 * q) (by omega),
    reach ((2 * p + 1) * (2 * w) + 2 * q + 1) (by omega), yuv_square]
  rfl

section planar
variable {w h : Nat}

theorem chroma_index {p q : Nat} (row : p < h) (pair : q < w) :
    p * 2 * (2 * w) / 4 + q * 2 / 2 = p * w + q ∧ p * w + q + 1 ≤ w * h := by
  have quarter : p * 2 * (2 * w) = 4 * (p * w) := by rw [Nat.mul_comm p 2, Nat.mul_mul_mul_comm]
  have low := index_low row pair
  constructor
  · rw [quarter]
    omega
  · exact low

def planarBody (fmt : Format) : Source → Nat → Nat → Nat → Nat → Nat → Option (Stores UInt8) :=
  if fmt = .yvu420 then yvu420Body else yuv420Body

theorem planar_sweep {fmt : Format} (planar : fmt = .yuv420 ∨ fmt = .yvu420) (even : xres % 2 = 0)
    (evenRows : yres % 2 = 0) (fits : xres * yres < 2147483648)
    (reach : InReach pdata byte (xres * yres * 3 / 2)) :
    ∃ ws, sweep (upTo (yres - 1) 2) (upTo (xres - 1) 2)
        (planarBody fmt pdata xres l (xres * yres)) = some ws ∧
      ws.Perm (bitmap yres xres l (pixel fmt xres yres false byte)) := by
  obtain ⟨w, rfl⟩ := Nat.dvd_of_mod_eq_zero even
  obtain ⟨h, rfl⟩ := Nat.dvd_of_mod_eq_zero evenRows
  apply square_sweep
  intro p row q pair
  obtain ⟨index, low⟩ := chroma_index row pair
  have size := area w h
  have first : p * w + q + 2 * w * (2 * h) = 2 * w * (2 * h) + (p * w + q) := Nat.add_comm _ _
  have second : 2 * w * (2 * h) + (p * w + q) + 2 * w * (2 * h) / 4 =
      2 * w * (2 * h) + 2 * w * (2 * h) / 4 + (p * w + q) := Nat.add_right_comm _ _ _
  have half : 2 * p / 2 = p := by omega
  have half' : (2 * p + 1) / 2 = p := by omega
  have column : 2 * q / 2 = q := by omega
  have column' : (2 * q + 1) / 2 = q := by omega
  have width : 2 * w / 2 = w := by omega
  rcases planar with rfl | rfl
  · rw [planarBody, if_neg (by decide), yuv420Body, index, first, second,
      square_some fits reach (by omega) (by omega) (by omega) row pair]
    simp only [pixel, half, half', column, column', width, Bool.false_eq_true, if_false]
  · rw [planarBody, if_pos rfl, yvu420Body, index, first, second,
      square_some fits reach (by omega) (by omega) (by omega) row pair]
    simp only [pixel, half, half', column, column', width, Bool.false_eq_true, if_false]

end planar
end images
end Conv
