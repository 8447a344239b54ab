import Vte.Conv.RawBitmap

/-!
What comes back from the raw files of a bitmap, and for which widths, heights and pixels it is what went in.
-/
namespace Conv
open Copies Multiples StoreLog

section writing
variable {oenc : Encoding} {xres yres : Nat} {start old : List UInt8}

theorem row_bytes (fits : xres * 24 + 31 < 2147483648) : rowBytes xres = some (paddedRow xres) := by
  rw [rowBytes, int32_fits fits, paddedRow]
  show some _ = some _
  congr 1
  omega

theorem padded_room (xres : Nat) : 3 * xres ≤ paddedRow xres := by
  rw [paddedRow]
  omega

def rowByte (start : List UInt8) (k : Nat) : UInt8 := (start.drop 54).getD k 0

theorem rows_reach {size : Nat} (bitmap : 54 + size ≤ start.length) :
    InReach ⟨start, 54⟩ (rowByte start) size := by
  intro k inside
  have place : ((54 : Int) + k).toNat = 54 + k := by omega
  have low : 54 + k < start.length := by omega
  rw [Source.byteAt, if_pos (by dsimp only; omega), place, rowByte, List.getD_eq_getElem?_getD,
    List.getElem?_drop, List.getElem?_eq_getElem low]
  rfl

theorem padded_low {i j : Nat} (row : i < yres) (column : j < xres) :
    i * paddedRow xres + 3 * j + 3 ≤ paddedRow xres * yres := by
  have := Nat.mul_le_mul_right (paddedRow xres) (Nat.succ_le_of_lt row)
  have room := padded_room xres
  rw [Nat.succ_mul, Nat.mul_comm yres] at this
  omega

theorem toRaw_grid (oenc : Encoding) {cell : Nat → Nat → Stores UInt8} (fits : xres * 24 + 31 < 2147483648)
    (small : xres * yres * bytesPerPixel oenc < 2147483648)
    (swept : sweep (upTo yres 1) (upTo xres 1) (rawBody oenc ⟨start, 54⟩ xres (paddedRow xres)) =
      some (grid yres xres cell))
    (keeps : InCells yres xres (bytesPerPixel oenc) (bytesPerPixel oenc * xres) (fun i => i) cell)
    (old : List UInt8) :
    ∃ raw, toRaw oenc xres yres start old = some raw ∧
      raw.length = old.length + (xres * yres * bytesPerPixel oenc - old.length) ∧
      ∀ row < yres, ∀ col < xres, ∀ t < bytesPerPixel oenc, ∀ v, storesTo (cell row col)
          (row * (bytesPerPixel oenc * xres) + (bytesPerPixel oenc * col + t)) = [v] →
        raw.getD ((row * xres + col) * bytesPerPixel oenc + t) 0 = v := by
  have area : bytesPerPixel oenc * xres * yres = xres * yres * bytesPerPixel oenc := by
    rw [Nat.mul_assoc, Nat.mul_comm]
  have inside : ∀ w ∈ grid yres xres cell, w.1 < bytesPerPixel oenc * xres * yres :=
    grid_inside keeps (Nat.le_refl _) fun i row => row
  rw [area] at inside
  refine ⟨apply (grid yres xres cell) (mappedFile old (xres * yres * bytesPerPixel oenc)), ?_,
    (apply_length _).trans (mappedFile_length _ _), ?_⟩
  · rw [toRaw, row_bytes fits]
    simp only [Option.bind_eq_bind, Option.bind_some, int32_fits small, swept]
    rw [if_pos inside]
  · intro row inRow col inCol t part v stored
    have once := grid_once keeps (Nat.le_refl _) (fun i _ i' _ same => same) inRow inCol part
    have index : (row * xres + col) * bytesPerPixel oenc + t =
        row * (bytesPerPixel oenc * xres) + (bytesPerPixel oenc * col + t) := by
      rw [Nat.add_mul, Nat.mul_assoc, Nat.mul_comm xres, Nat.mul_comm col, Nat.add_assoc]
    have low := scaled_low (bytesPerPixel oenc) inRow inCol
    have value : (apply (grid yres xres cell) (mappedFile old (xres * yres * bytesPerPixel oenc)))[row *
        (bytesPerPixel oenc * xres) + (bytesPerPixel oenc * col + t)]? = some v :=
      apply_stored (by rw [mappedFile_length]; omega) (once.trans stored)
    rw [List.getD_eq_getElem?_getD, index, value]
    rfl

theorem word_raw (oenc : Encoding) {high low : UInt8 → UInt8 → UInt8} (fits : xres * 24 + 31 < 2147483648)
    (small : xres * yres * 2 < 2147483648)
    (bitmap : 54 + paddedRow xres * yres ≤ start.length)
    (body : rawBody oenc = wordBody high low) (size : bytesPerPixel oenc = 2) (old : List UInt8) :
    ∃ raw, toRaw oenc xres yres start old = some raw ∧ raw.length = old.length + (xres * yres * 2 - old.length) ∧
      ∀ row < yres, ∀ col < xres, let rgb := bmpPixel (start.drop 54) (paddedRow xres) row col
        raw.getD ((row * xres + col) * 2) 0 = low rgb.rgbGreen rgb.rgbBlue ∧
        raw.getD ((row * xres + col) * 2 + 1) 0 = high rgb.rgbRed rgb.rgbGreen := by
  have reach := rows_reach bitmap
  have swept : sweep (upTo yres 1) (upTo xres 1) (rawBody oenc ⟨start, 54⟩ xres (paddedRow xres)) =
      some (grid yres xres fun i j =>
        [(i * (2 * xres) + (2 * j + 1), high (rowByte start (i * paddedRow xres + 3 * j + 2))
            (rowByte start (i * paddedRow xres + 3 * j + 1))),
          (i * (2 * xres) + (2 * j + 0), low (rowByte start (i * paddedRow xres + 3 * j + 1))
            (rowByte start (i * paddedRow xres + 3 * j)))]) := by
    rw [upTo_one, upTo_one, body]
    apply sweep_some
    intro i row j column
    rw [List.mem_range] at row column
    have inside := padded_low row column
    have below := scaled_low 2 row column
    have index : (i * xres + j) * 2 = i * (2 * xres) + 2 * j := by
      rw [Nat.add_mul, Nat.mul_assoc, Nat.mul_comm xres, Nat.mul_comm j]
    rw [wordBody, int32_fits (by omega), Nat.mul_comm j 3]
    simp only [Option.bind_eq_bind, Option.bind_some, reach (i * paddedRow xres + 3 * j + 2) (by omega),
      reach (i * paddedRow xres + 3 * j + 1) (by omega),
      reach (i * paddedRow xres + 3 * j) (by omega), index]
    rfl
  obtain ⟨raw, ran, length, values⟩ := toRaw_grid oenc fits (by rw [size]; exact small) swept (by
    rw [size]
    intro i _ j _ w among
    simp only [List.mem_cons, List.not_mem_nil, or_false] at among
    rcases among with rfl | rfl
    · exact ⟨1, by decide, rfl⟩
    · exact ⟨0, by decide, rfl⟩) old
  rw [size] at length values
  refine ⟨raw, ran, length, ?_⟩
  intro row inRow col inCol
  constructor
  · exact values row inRow col inCol 0 (by decide) _ (by simp [storesTo]; rfl)
  · exact values row inRow col inCol 1 (by decide) _ (by simp [storesTo]; rfl)

def Straight (xres yres : Nat) : Prop := xres % 4 = 0 ∨ yres = 1

theorem straight_index (straight : Straight xres yres) {i : Nat} (row : i < yres) :
    i * paddedRow xres = i * (3 * xres) := by
  rcases straight with whole | one
  · congr 1
    rw [paddedRow]
    omega
  · obtain rfl : i = 0 := by omega
    rw [Nat.zero_mul, Nat.zero_mul]

theorem swap_raw (fits : xres * 24 + 31 < 2147483648) (small : xres * yres * 3 < 2147483648)
    (bitmap : 54 + paddedRow xres * yres ≤ start.length) (straight : Straight xres yres)
    (old : List UInt8) :
    ∃ raw, toRaw .rgb24 xres yres start old = some raw ∧ raw.length = old.length + (xres * yres * 3 - old.length) ∧
      ∀ row < yres, ∀ col < xres, let rgb := bmpPixel (start.drop 54) (paddedRow xres) row col
        raw.getD ((row * xres + col) * 3) 0 = rgb.rgbRed ∧
        raw.getD ((row * xres + col) * 3 + 1) 0 = rgb.rgbGreen ∧
        raw.getD ((row * xres + col) * 3 + 2) 0 = rgb.rgbBlue := by
  have reach := rows_reach bitmap
  have swept : sweep (upTo yres 1) (upTo xres 1) (rawBody .rgb24 ⟨start, 54⟩ xres (paddedRow xres)) =
      some (grid yres xres fun i j => putRgb (i * paddedRow xres + 3 * j)
        ⟨rowByte start (i * paddedRow xres + 3 * j + 2), rowByte start (i * paddedRow xres + 3 * j + 1),
          rowByte start (i * paddedRow xres + 3 * j)⟩) := by
    rw [upTo_one, upTo_one]
    apply sweep_some
    intro i row j column
    rw [List.mem_range] at row column
    have inside := padded_low row column
    rw [rawBody, swapBody, Nat.mul_comm j 3]
    simp only [Option.bind_eq_bind, Option.bind_some, reach (i * paddedRow xres + 3 * j + 2) (by omega),
      reach (i * paddedRow xres + 3 * j + 1) (by omega),
      reach (i * paddedRow xres + 3 * j) (by omega)]
    rfl
  obtain ⟨raw, ran, length, values⟩ := toRaw_grid .rgb24 fits small swept (by
    intro i row j _ w among
    obtain ⟨t, part, place⟩ := put_cell among
    rw [straight_index straight row, Nat.add_assoc] at place
    exact ⟨t, part, place⟩) old
  refine ⟨raw, ran, length, ?_⟩
  intro row inRow col inCol
  have cell : ∀ t < 3, raw.getD ((row * xres + col) * 3 + t) 0 =
      component ⟨rowByte start (row * paddedRow xres + 3 * col + 2), rowByte start (row * paddedRow xres + 3 * col + 1),
        rowByte start (row * paddedRow xres + 3 * col)⟩ t := by
    intro t part
    apply values row inRow col inCol t part
    show storesTo _ (row * (3 * xres) + (3 * col + t)) = _
    rw [← straight_index straight inRow, ← Nat.add_assoc]
    exact put_component _ _ part
  exact ⟨cell 0 (by decide), cell 1 (by decide), cell 2 (by decide)⟩

theorem swap_straight (wide : 1 ≤ xres) (high : 1 ≤ yres) {raw : List UInt8}
    (ran : toRaw .rgb24 xres yres start old = some raw) :
    xres * 24 + 31 < 2147483648 ∧ xres * yres * 3 < 2147483648 ∧ Straight xres yres := by
  have fits : xres * 24 + 31 < 2147483648 := by
    by_contra past
    rw [toRaw, rowBytes, int32_past (by omega)] at ran
    cases ran
  rw [toRaw, row_bytes fits] at ran
  simp only [Option.bind_eq_bind, Option.bind_some, Option.bind_eq_some_iff] at ran
  obtain ⟨size, sized, ws, swept, stored⟩ := ran
  have small : xres * yres * 3 < 2147483648 := by
    by_contra past
    rw [int32_past (by exact Nat.le_of_not_lt past)] at sized
    cases sized
  obtain rfl : xres * yres * 3 = size := Option.some.inj ((int32_fits small).symm.trans sized)
  refine ⟨fits, small, ?_⟩
  by_cases inside : ∀ w ∈ ws, w.1 < xres * yres * 3
  · obtain ⟨part, cell, within⟩ := sweep_round swept (i := yres - 1) (j := xres - 1)
      ((mem_upTo (by decide)).mpr ⟨by omega, yres - 1, by omega⟩)
      ((mem_upTo (by decide)).mpr ⟨by omega, xres - 1, by omega⟩)
    simp only [rawBody, swapBody, Option.bind_eq_bind, Option.bind_eq_some_iff, Option.some.injEq] at cell
    obtain ⟨first, -, second, -, third, -, rfl⟩ := cell
    have last := inside _ (within List.mem_cons_self)
    dsimp only at last
    rw [Straight]
    by_contra padded
    obtain ⟨y, rows⟩ : ∃ y, yres = y + 2 := ⟨yres - 2, by omega⟩
    have wider : 3 * xres + 1 ≤ paddedRow xres := by
      rw [paddedRow]
      omega
    have before := Nat.mul_le_mul_left (y + 1) wider
    have area : xres * (y + 2) * 3 = (y + 1) * (3 * xres) + 3 * xres := by
      rw [Nat.mul_right_comm, Nat.mul_comm (xres * 3), Nat.mul_comm xres 3, Nat.succ_mul]
    have minus : yres - 1 = y + 1 := by omega
    rw [minus] at last
    rw [rows, area] at last
    rw [Nat.mul_succ] at before
    omega
  · rw [if_neg inside] at stored
    cases stored

end writing

section reading
variable {xres yres l : Nat} {raw area : List UInt8} {ws : Stores UInt8}

theorem bitmap_pixels {v : Nat → Nat → RgbQuad} (room : 3 * xres ≤ l)
    (same : ws.Perm (bitmap yres xres l v)) (length : area.length = l * yres) :
    ∀ row < yres, ∀ col < xres, bmpPixel (apply ws area) l row col = v row col := by
  intro row inRow col inCol
  have inside := bitmap_inside room same
  have byte : ∀ t < 3, (apply ws area).getD (row * l + (3 * col + t)) 0 = component (v row col) t := by
    intro t part
    have low := cell_inside room inCol part
    have rows := Nat.mul_le_mul_right l (Nat.succ_le_of_lt inRow)
    rw [Nat.succ_mul, Nat.mul_comm yres] at rows
    rw [List.getD_eq_getElem?_getD, apply_stored (by omega) (bitmap_once room same inRow inCol part)]
    rfl
  have blue := byte 0 (by decide)
  have green := byte 1 (by decide)
  have red := byte 2 (by decide)
  simp only [← Nat.add_assoc, Nat.add_zero] at blue green red
  simp only [bmpPixel, blue, green, red, component]

theorem raw_passes (fits : Fits64 (raw.length : Nat)) {need : Nat} (enough : need ≤ raw.length) :
    ¬ sizeShort (rawRequest xres yres raw fits) need = true := by
  have bounds := fits
  rw [Fits64] at bounds
  rw [sizeShort, decide_eq_true_eq]
  show ¬ ((raw.length : Int) - 0) % 18446744073709551616 < need
  rw [Int.emod_eq_of_lt (by omega) (by omega)]
  omega

theorem raw_reach (fits : Fits64 (raw.length : Nat)) {size : Nat} (enough : size ≤ raw.length) :
    InReach ⟨raw, 0⟩ (fun k => raw.getD k 0) size := by
  have reach := reach_file (r := rawRequest 0 0 raw fits) rfl (Int.le_refl 0)
    size (by show (0 : Int) + size ≤ raw.length; omega)
  intro k inside
  rw [show (fun k => raw.getD k 0) k = imageByte raw 0 k from by
    rw [imageByte, Int.zero_add, Int.toNat_natCast]]
  exact reach k inside

theorem toBmp_pixels (fmt : Format) {size : Nat} (body : Source → Nat → Nat → Option (Stores UInt8))
    (some_bytes : 0 < size) (wide : 1 ≤ xres) (high : 1 ≤ yres) (row : xres * 24 + 31 < 2147483648)
    (small : xres * yres * size < 2147483648) (fits : Fits64 (raw.length : Nat))
    (enough : xres * yres * size ≤ raw.length)
    (loops : convert (rawRequest xres yres raw fits) raw fmt (paddedRow xres) ⟨raw, 0⟩ =
      checked (rawRequest xres yres raw fits) size
        (sweep (upTo yres 1) (upTo xres 1) (body ⟨raw, 0⟩)))
    (swept : ∃ ws, sweep (upTo yres 1) (upTo xres 1) (body ⟨raw, 0⟩) = some ws ∧
      ws.Perm (bitmap yres xres (paddedRow xres) (pixel fmt xres yres false fun k => raw.getD k 0)))
    (length : area.length = paddedRow xres * yres) :
    ∃ back, toBmp fmt xres yres raw area = some back ∧
      ∀ row < yres, ∀ col < xres, bmpPixel back (paddedRow xres) row col =
        pixel fmt xres yres false (fun k => raw.getD k 0) row col := by
  obtain ⟨ws, ran, same⟩ := swept
  have pixels : 0 < xres * yres * size := Nat.mul_pos (Nat.mul_pos wide high) some_bytes
  have stored : processImg (rawRequest xres yres raw fits) raw fmt = some (.stored ws) := by
    have mapped : (rawRequest xres yres raw fits).isz ≠ 0 := by
      show raw.length ≠ 0
      omega
    have bytes : rowBytes (rawRequest xres yres raw fits).xres = some (paddedRow xres) := row_bytes row
    rw [processImg, if_neg mapped, bytes]
    show convert (rawRequest xres yres raw fits) raw fmt (paddedRow xres) ⟨raw, 0⟩ = _
    rw [loops, checked_fits (rawRequest xres yres raw fits) size some_bytes small, ran]
    exact if_neg (raw_passes fits enough)
  refine ⟨apply ws area, ?_, bitmap_pixels (padded_room xres) same length⟩
  rw [toBmp, dif_pos fits, stored]

end reading

section inverse
variable {xres yres : Nat} {start : List UInt8}

theorem raw_fits {old raw : List UInt8} {size : Nat} (fits : Fits64 (old.length : Nat))
    (small : size < 2147483648) (length : raw.length = old.length + (size - old.length)) :
    Fits64 (raw.length : Nat) ∧ size ≤ raw.length := by
  rw [Fits64] at fits ⊢
  omega

theorem rgb24_back (wide : 1 ≤ xres) (high : 1 ≤ yres) (row : xres * 24 + 31 < 2147483648)
    (small : xres * yres * 3 < 2147483648)
    (bitmap : 54 + paddedRow xres * yres ≤ start.length) (straight : Straight xres yres) :
    ComesBack .rgb24 .rgb24 id xres yres start := by
  intro old area fits length
  obtain ⟨raw, ran, rawLength, values⟩ := swap_raw row small bitmap straight old
  obtain ⟨rawFits, enough⟩ := raw_fits fits small rawLength
  have reach := raw_reach rawFits enough
  obtain ⟨back, written, pixels⟩ := toBmp_pixels .rgb24
    (fun pdata => rgb24Body pdata xres (paddedRow xres)) (by decide) wide high row small rawFits
    enough rfl (packed_sweep small reach (by decide) (by decide) (by decide)) length
  refine ⟨raw, back, ran, written, ?_⟩
  intro row inRow col inCol
  obtain ⟨red, green, blue⟩ := values row inRow col inCol
  rw [pixels row inRow col inCol]
  simp only [pixel, red, green, blue]
  rfl

theorem rgb565_back (wide : 1 ≤ xres) (high : 1 ≤ yres) (row : xres * 24 + 31 < 2147483648)
    (small : xres * yres * 2 < 2147483648)
    (bitmap : 54 + paddedRow xres * yres ≤ start.length) :
    ComesBack .rgb565 .rgb565 topBits xres yres start := by
  intro old area fits length
  obtain ⟨raw, ran, rawLength, values⟩ := word_raw .rgb565 row small bitmap rfl rfl old
  obtain ⟨rawFits, enough⟩ := raw_fits fits small rawLength
  have reach := raw_reach rawFits enough
  obtain ⟨back, written, pixels⟩ := toBmp_pixels .rgb565
    (fun pdata => rgb565Body pdata xres (paddedRow xres)) (by decide) wide high row small rawFits
    enough rfl ⟨_, rgb565_sweep small reach, List.Perm.refl _⟩ length
  refine ⟨raw, back, ran, written, ?_⟩
  intro row inRow col inCol
  obtain ⟨low, high⟩ := values row inRow col inCol
  rw [pixels row inRow col inCol]
  simp only [pixel, low, high, unpack_pack]

/-- A bitmap and its raw files hold the same pixels just when no product overflows, the rows have no
    padding (or there is one row) and no pixel has one of the bits 5..3 of green, which RGB555 loses. -/
theorem inverse_iff (xres yres : Nat) (start : List UInt8) (wide : 1 ≤ xres) (high : 1 ≤ yres)
    (bitmap : 54 + paddedRow xres * yres ≤ start.length) :
    Inverse xres yres start ↔ xres * 24 + 31 < 2147483648 ∧ xres * yres * 3 < 2147483648 ∧ Straight xres yres ∧
        ∀ row < yres, ∀ col < xres, (bmpPixel (start.drop 54) (paddedRow xres) row col).rgbGreen &&& 0x38 = 0 := by
  have empty : Fits64 (([] : List UInt8).length : Nat) := by decide
  constructor
  · intro inverse
    obtain ⟨raw, back, ran, -⟩ := inverse.rgb24 [] (List.replicate (paddedRow xres * yres) 0) empty
      List.length_replicate
    obtain ⟨row, small, straight⟩ := swap_straight wide high ran
    refine ⟨row, small, straight, ?_⟩
    intro r inRow c inCol
    obtain ⟨raw, ran, words⟩ := inverse.rgb555 [] empty
    obtain ⟨raw', ran', -, values⟩ := word_raw .rgb555 row (by omega) bitmap rfl rfl []
    obtain rfl : raw = raw' := Option.some.inj (ran.symm.trans ran')
    obtain ⟨low, high⟩ := values r inRow c inCol
    have word := words r inRow c inCol
    simp only [wordAt, low, high] at word
    exact (word555_iff _ _ _).mp word
  · rintro ⟨row, small, straight, greens⟩
    refine ⟨rgb24_back wide high row small bitmap straight, rgb565_back wide high row (by omega) bitmap, ?_⟩
    intro old _
    obtain ⟨raw, ran, -, values⟩ := word_raw .rgb555 row (by omega) bitmap rfl rfl old
    refine ⟨raw, ran, ?_⟩
    intro r inRow c inCol
    obtain ⟨low, high⟩ := values r inRow c inCol
    simp only [wordAt, low, high]
    exact (word555_iff _ _ _).mpr (greens r inRow c inCol)

/-- One pixel, blue 7, green 199 and red 9, in a row of four bytes. -/
theorem one_pixel_inverse : Inverse 1 1 (List.replicate 54 0 ++ [7, 199, 9, 0]) :=
  (inverse_iff 1 1 (List.replicate 54 0 ++ [7, 199, 9, 0]) (by decide) (by decide) (by decide)).mpr
    ⟨by decide, by decide, Or.inr rfl, by decide⟩

/-- Two rows of one pixel: the second one is stored at the index 4 of a mapping of six bytes. -/
theorem padding_kept : ¬ ∀ (xres yres : Nat) (start : List UInt8), 1 ≤ xres → 1 ≤ yres →
    54 + paddedRow xres * yres ≤ start.length → Inverse xres yres start := by
  intro all
  have inverse := all 1 2 (List.replicate 62 0) (by decide) (by decide) (by decide)
  obtain ⟨raw, back, ran, -⟩ := inverse.rgb24 [] (List.replicate 8 0) (by decide) rfl
  have stopped : toRaw .rgb24 1 2 (List.replicate 62 0) [] = none := by decide
  rw [stopped] at ran
  cases ran

end inverse
end Conv
