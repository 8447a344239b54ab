import Vte.Conv.ToBitmap

/-!
When a conversion to a bitmap covers every pixel: which formats do, for which offsets into the input file,
and what the planes laid out for `-C` need of the old output file.
-/
namespace Conv
open Copies Multiples StoreLog

/-- The bytes of the image, from `pdata` on. -/
def imageByte (start : List UInt8) (offset : Int) (k : Nat) : UInt8 :=
  start.getD (offset + k).toNat 0

def outRow (fmt : Format) (yres row : Nat) : Nat :=
  match fmt with
  | .yuy2 | .yuv444 | .uyvy => yres - 1 - row
  | _ => row

/-- All stores are inside the bitmap, and each byte of each of its pixels is stored once, with the value of
    the one pixel of the image. -/
structure Covers (fmt : Format) (r : Request) (start : List UInt8) (l : Nat) (ws : Stores UInt8) :
    Prop where
  inside : ∀ w ∈ ws, w.1 < l * r.yres
  once : ∀ row < r.yres, ∀ col < r.xres, ∀ t < 3, storesTo ws (outRow fmt r.yres row * l + (3 * col + t)) =
      [component (pixel fmt r.xres r.yres r.cflag (imageByte start r.offset) row col) t]

def Settles (fmt : Format) (r : Request) (start : List UInt8) (l : Nat)
    (o : Option Outcome) : Prop :=
  o = some .stopped ∨ ∃ ws, o = some (.stored ws) ∧ Covers fmt r start l ws

def Converts (fmt : Format) (r : Request) (start : List UInt8) : Prop :=
  processImg r start fmt = some .stopped ∨
    ∃ l, rowBytes r.xres = some l ∧ Settles fmt r start l (processImg r start fmt)

def Paired (fmt : Format) (xres yres : Nat) : Prop :=
  match fmt with
  | .nv16 | .yuv422p | .yuy2 | .uyvy => xres % 2 = 0
  | .yuv420 | .yvu420 => xres % 2 = 0 ∧ yres % 2 = 0
  | _ => True

def sampleBytes : Format → Nat
  | .yuv420 | .yvu420 => 1
  | .rgb24 | .bgr24 | .yuv444 => 3
  | .rgb32 | .bgr32 => 4
  | _ => 2

def Refused (fmt : Format) (r : Request) : Prop :=
  if sampleBytes fmt = 1 then
    ((r.isz : Int) - r.offset) % 18446744073709551616 * 2 < (r.xres * r.yres : Nat) * 3
  else sizeShort r (r.xres * r.yres * sampleBytes fmt) = true

/-- RGB32 runs on into NV16, YUY2 and UYVY leave out the last pair of a row, and YUV444 goes on by two
    bytes a pixel. -/
def Complete (fmt : Format) : Prop :=
  fmt ≠ .rgb32 ∧ fmt ≠ .yuy2 ∧ fmt ≠ .uyvy ∧ fmt ≠ .yuv444

instance (fmt : Format) : Decidable (Complete fmt) := inferInstanceAs (Decidable (_ ∧ _ ∧ _ ∧ _))

/-- With `-C` the planes fit into a buffer of the size of the old output file. -/
def PlanesFit (fmt : Format) (r : Request) : Prop :=
  sampleBytes fmt = 1 → r.cflag = true →
    r.xres * r.yres * 5 < 2147483648 ∧ r.temp ≠ none ∧ r.xres * r.yres * 3 / 2 ≤ r.outSize

def Sound (fmt : Format) (r : Request) : Prop :=
  Complete fmt ∧ 0 ≤ r.offset ∧ r.offset ≤ r.isz ∧ PlanesFit fmt r

def Suits (fmt : Format) (r : Request) : Prop :=
  r.isz = 0 ∨ (r.xres * 24 + 31 < 2147483648 ∧ r.xres * r.yres * sampleBytes fmt < 2147483648 ∧
    (Refused fmt r ∨ Sound fmt r))

section source
variable {r : Request} {start : List UInt8} {l : Nat}

theorem reach_file (length : start.length = r.isz) (low : 0 ≤ r.offset) (size : Nat)
    (enough : r.offset + size ≤ r.isz) :
    InReach ⟨start, r.offset⟩ (imageByte start r.offset) size := by
  intro k inside
  have place : (r.offset + k).toNat < start.length := by omega
  rw [Source.byteAt, if_pos (by dsimp only; omega), imageByte, List.getD_eq_getElem?_getD,
    List.getElem?_eq_getElem place]
  rfl

theorem first_byte (length : start.length = r.isz) (bad : ¬ (0 ≤ r.offset ∧ r.offset < r.isz)) :
    (⟨start, r.offset⟩ : Source).byteAt 0 = none := by
  rw [Source.byteAt]
  dsimp only
  by_cases low : 0 ≤ r.offset
  · rw [if_pos (by omega)]
    exact List.getElem?_eq_none (by omega)
  · rw [if_neg (by omega)]

theorem not_short {need : Nat} (passes : ¬ sizeShort r need = true) (low : 0 ≤ r.offset)
    (high : r.offset ≤ r.isz) : r.offset + need ≤ r.isz := by
  have fits := r.iszFits
  rw [Fits64] at fits
  rw [sizeShort, decide_eq_true_eq, Int.emod_eq_of_lt (by omega) (by omega)] at passes
  omega

end source

section covers
variable {fmt : Format} {r : Request} {start : List UInt8} {l : Nat} {ws : Stores UInt8}

theorem covers_bitmap (room : 3 * r.xres ≤ l) {v : Nat → Nat → RgbQuad}
    (same : ws.Perm (bitmap r.yres r.xres l v)) (upright : ∀ row, outRow fmt r.yres row = row)
    (value : ∀ row < r.yres, ∀ col < r.xres,
      v row col = pixel fmt r.xres r.yres r.cflag (imageByte start r.offset) row col) :
    Covers fmt r start l ws where
  inside := bitmap_inside room same
  once := by
    intro row inRow col inCol t part
    rw [upright, bitmap_once room same inRow inCol part, value row inRow col inCol]

theorem covers_twice {later : Stores UInt8} {x y : UInt8} (wide : 0 < r.xres) (high : 0 < r.yres)
    (upright : ∀ row, outRow fmt r.yres row = row) (first : (0, x) ∈ ws) (second : (0, y) ∈ later) :
    ¬ Covers fmt r start l (ws ++ later) := by
  intro covers
  have once := covers.once 0 high 0 wide 0 (by decide)
  have origin : 0 * l + (3 * 0 + 0) = 0 := by omega
  rw [upright, origin, storesTo_append] at once
  obtain ⟨a, as, one⟩ := List.exists_cons_of_ne_nil (List.ne_nil_of_mem (stored_among first))
  obtain ⟨b, bs, two⟩ := List.exists_cons_of_ne_nil (List.ne_nil_of_mem (stored_among second))
  rw [one, two] at once
  have count := congrArg List.length once
  simp at count

theorem covers_margin {body : Nat → Nat → Option (Stores UInt8)} (wide : 2 ≤ r.xres) (high : 0 < r.yres)
    (room : 3 * r.xres ≤ l)
    (cells : ∀ i j part, body i j = some part → ∀ w ∈ part, ∃ t < 6, w.1 = (r.yres - i - 1) * l + (j * 3 + t))
    (ran : sweep (upTo r.yres 1) (upTo (r.xres - 2) 2) body = some ws) : ¬ Covers fmt r start l ws := by
  intro covers
  have once := covers.once 0 high (r.xres - 1) (by omega) 0 (by decide)
  have none : storesTo ws (outRow fmt r.yres 0 * l + (3 * (r.xres - 1) + 0)) = [] := by
    rw [storesTo_nil]
    intro w among same
    obtain ⟨i, -, outer, round, inside⟩ := loop_among ran among
    obtain ⟨j, column, part, cell, within⟩ := loop_among round inside
    obtain ⟨t, low, place⟩ := cells i j part cell w within
    have left := ((mem_upTo (by decide)).mp column).1
    have apart := row_apart (by omega) (by omega) (place.symm.trans same)
    omega
  rw [none] at once
  cases once

end covers

section checks
variable {fmt : Format} {r : Request} {l size : Nat} {c : List UInt8 → Option (Stores UInt8)}

theorem checked_past (past : 2147483648 ≤ r.xres * r.yres * size) (o : Option (Stores UInt8)) :
    checked r size o = none := by
  rw [checked, Nat.mul_comm r.yres]
  by_cases fits : r.xres * r.yres < 2147483648
  · rw [int32_fits fits]
    simp only [Option.bind_eq_bind, Option.bind_some, int32_past past, Option.bind_none]
  · rw [int32_past (by omega)]
    rfl

theorem checked_fits (r : Request) (size : Nat) (some_bytes : 0 < size) (fits : r.xres * r.yres * size < 2147483648)
    (o : Option (Stores UInt8)) : checked r size o =
      if sizeShort r (r.xres * r.yres * size) then some .stopped else o.map .stored := by
  have area := Nat.le_mul_of_pos_right (r.xres * r.yres) some_bytes
  rw [checked, Nat.mul_comm r.yres, int32_fits (by omega)]
  simp only [Option.bind_eq_bind, Option.bind_some, int32_fits fits]

/-- A format with the usual size check: all its runs settle just when the check stops them or the loops
    cover the bitmap for every content of the file. -/
theorem settles_checked (some_bytes : 0 < size) {ok : Prop}
    (loops : r.xres * r.yres * size < 2147483648 → ¬ sizeShort r (r.xres * r.yres * size) = true →
      ((∀ start, start.length = r.isz → ∃ ws, c start = some ws ∧ Covers fmt r start l ws) ↔ ok)) :
    (∀ start, start.length = r.isz → Settles fmt r start l (checked r size (c start))) ↔
      r.xres * r.yres * size < 2147483648 ∧ (sizeShort r (r.xres * r.yres * size) = true ∨ ok) := by
  by_cases fits : r.xres * r.yres * size < 2147483648
  · by_cases short : sizeShort r (r.xres * r.yres * size) = true
    · have stops : ∀ start, checked r size (c start) = some .stopped := by
        intro start
        rw [checked_fits r size some_bytes fits, if_pos short]
      exact ⟨fun _ => ⟨fits, Or.inl short⟩, fun _ start _ => Or.inl (stops start)⟩
    · have goes : ∀ start, checked r size (c start) = (c start).map .stored := by
        intro start
        rw [checked_fits r size some_bytes fits, if_neg short]
      have settles : ∀ start, Settles fmt r start l (checked r size (c start)) ↔
          ∃ ws, c start = some ws ∧ Covers fmt r start l ws := by
        intro start
        rw [goes, Settles]
        cases c start <;> simp
      simp only [settles, loops fits short, fits, short, true_and, false_or, Bool.false_eq_true]
  · constructor
    · intro all
      have one := all (List.replicate r.isz 0) List.length_replicate
      rw [checked_past (by omega)] at one
      rcases one with stops | ⟨ws, ran, -⟩
      · cases stops
      · cases ran
    · intro both
      exact absurd both.1 fits

end checks

section formats
variable {r : Request} {start : List UInt8} {l : Nat}

theorem loops_low {body : Nat → Nat → Option (Stores UInt8)} {rows cols : List Nat} {ws : Stores UInt8}
    (length : start.length = r.isz) (row : 0 ∈ rows) (column : 0 ∈ cols)
    (first : (⟨start, r.offset⟩ : Source).byteAt 0 = none → body 0 0 = none)
    (ran : sweep rows cols body = some ws) : 0 ≤ r.offset ∧ r.offset < r.isz := by
  by_contra bad
  rw [sweep_none row column (first (first_byte length bad))] at ran
  cases ran

theorem loops_cover {fmt : Format} {size : Nat} (body : Source → Nat → Nat → Option (Stores UInt8))
    {rows cols : List Nat} (passes : ¬ sizeShort r (r.xres * r.yres * size) = true) (row : 0 ∈ rows)
    (column : 0 ∈ cols) (first : ∀ pdata, pdata.byteAt 0 = none → body pdata 0 0 = none)
    (covers : ∀ start, InReach ⟨start, r.offset⟩ (imageByte start r.offset) (r.xres * r.yres * size) →
      ∃ ws, sweep rows cols (body ⟨start, r.offset⟩) = some ws ∧ Covers fmt r start l ws) :
    (∀ start, start.length = r.isz →
      ∃ ws, sweep rows cols (body ⟨start, r.offset⟩) = some ws ∧ Covers fmt r start l ws) ↔
      0 ≤ r.offset ∧ r.offset ≤ r.isz := by
  constructor
  · intro all
    have length : (List.replicate r.isz (0 : UInt8)).length = r.isz := List.length_replicate
    obtain ⟨ws, ran, -⟩ := all _ length
    have low := loops_low length row column (first _) ran
    exact ⟨low.1, by omega⟩
  · intro low start length
    exact covers start (reach_file length low.1 _ (not_short passes low.1 low.2))

theorem rgb565_loops (wide : 0 < r.xres) (high : 0 < r.yres) (room : 3 * r.xres ≤ l)
    (fits : r.xres * r.yres * 2 < 2147483648)
    (passes : ¬ sizeShort r (r.xres * r.yres * 2) = true) :
    (∀ start, start.length = r.isz → ∃ ws, sweep (upTo r.yres 1) (upTo r.xres 1)
      (rgb565Body ⟨start, r.offset⟩ r.xres l) = some ws ∧ Covers .rgb565 r start l ws) ↔
      0 ≤ r.offset ∧ r.offset ≤ r.isz := by
  apply loops_cover (fun pdata => rgb565Body pdata r.xres l) passes
    (zero_upTo high (by decide)) (zero_upTo wide (by decide))
  · intro pdata none
    simp [rgb565Body, int32, none]
  · intro start reach
    exact ⟨_, rgb565_sweep fits reach, covers_bitmap room (List.Perm.refl _) (fun row => rfl) fun row _ col _ => rfl⟩

theorem packed_loops {fmt : Format} {size red green blue : Nat} (wide : 0 < r.xres) (high : 0 < r.yres)
    (room : 3 * r.xres ≤ l) (fits : r.xres * r.yres * size < 2147483648)
    (passes : ¬ sizeShort r (r.xres * r.yres * size) = true) (inRed : red < size)
    (inGreen : green < size) (inBlue : blue < size) (ends : red = 0 ∨ blue = 0)
    (upright : ∀ row, outRow fmt r.yres row = row)
    (value : ∀ byte row col, pixel fmt r.xres r.yres r.cflag byte row col =
      ⟨byte ((row * r.xres + col) * size + red), byte ((row * r.xres + col) * size + green),
        byte ((row * r.xres + col) * size + blue)⟩) :
    (∀ start, start.length = r.isz → ∃ ws, sweep (upTo r.yres 1) (upTo r.xres 1)
      (fun i j => packedBody ⟨start, r.offset⟩ r.xres l i j size red green blue) = some ws ∧ Covers fmt r start l ws) ↔
      0 ≤ r.offset ∧ r.offset ≤ r.isz := by
  apply loops_cover (fun pdata i j => packedBody pdata r.xres l i j size red green blue) passes
    (zero_upTo high (by decide)) (zero_upTo wide (by decide))
  · intro pdata none
    rcases ends with rfl | rfl <;> simp [packedBody, int32, none]
  · intro start reach
    obtain ⟨ws, ran, same⟩ := packed_sweep (l := l) fits reach inRed inGreen inBlue
    exact ⟨ws, ran, covers_bitmap room same upright fun row _ col _ => (value _ row col).symm⟩

theorem nv16_loops (even : r.xres % 2 = 0) (wide : 0 < r.xres) (high : 0 < r.yres)
    (room : 3 * r.xres ≤ l) (fits : r.xres * r.yres * 2 < 2147483648)
    (passes : ¬ sizeShort r (r.xres * r.yres * 2) = true) :
    (∀ start, start.length = r.isz → ∃ ws, sweep (upTo r.yres 1) (upTo r.xres 2)
      (nv16Body ⟨start, r.offset⟩ r.xres l (r.xres * r.yres)) = some ws ∧ Covers .nv16 r start l ws) ↔
      0 ≤ r.offset ∧ r.offset ≤ r.isz := by
  apply loops_cover (fun pdata => nv16Body pdata r.xres l (r.xres * r.yres)) passes
    (zero_upTo high (by decide)) (zero_upTo wide (by decide))
  · intro pdata none
    simp [nv16Body, pairAt, int32, none]
  · intro start reach
    exact ⟨_, nv16_sweep even fits reach, covers_bitmap room (List.Perm.refl _) (fun row => rfl) fun row _ col _ => rfl⟩

theorem yuv422p_loops (even : r.xres % 2 = 0) (wide : 0 < r.xres) (high : 0 < r.yres)
    (room : 3 * r.xres ≤ l) (fits : r.xres * r.yres * 2 < 2147483648)
    (passes : ¬ sizeShort r (r.xres * r.yres * 2) = true) :
    (∀ start, start.length = r.isz → ∃ ws, sweep (upTo r.yres 1) (upTo r.xres 2)
      (yuv422pBody ⟨start, r.offset⟩ r.xres l (r.xres * r.yres)) = some ws ∧ Covers .yuv422p r start l ws) ↔
      0 ≤ r.offset ∧ r.offset ≤ r.isz := by
  apply loops_cover (fun pdata => yuv422pBody pdata r.xres l (r.xres * r.yres)) passes
    (zero_upTo high (by decide)) (zero_upTo wide (by decide))
  · intro pdata none
    simp [yuv422pBody, pairAt, int32, none]
  · intro start reach
    exact ⟨_, yuv422p_sweep even fits reach,
      covers_bitmap room (List.Perm.refl _) (fun row => rfl) fun row _ col _ => rfl⟩

theorem pair_cells {pdata : Source} {toRgb : UInt8 → UInt8 → UInt8 → RgbQuad} {k y1 y2 u v : Nat}
    {part : Stores UInt8} (ran : pairAt pdata toRgb k y1 y2 u v = some part) :
    (∀ w ∈ part, ∃ t < 6, w.1 = k + t) ∧ ∃ x, (k, x) ∈ part := by
  simp only [pairAt, Option.bind_eq_bind, Option.bind_eq_some_iff, Option.some.injEq] at ran
  obtain ⟨a, -, b, -, c, -, d, -, rfl⟩ := ran
  constructor
  · intro w among
    rcases List.mem_append.mp among with first | second
    · obtain ⟨t, low, place⟩ := put_cell first
      exact ⟨t, by omega, place⟩
    · obtain ⟨t, low, place⟩ := put_cell second
      exact ⟨3 + t, by omega, by rw [place, Nat.add_assoc]⟩
  · refine ⟨(toRgb a b d).rgbBlue, List.mem_append_left _ ?_⟩
    simp [putRgb]

theorem yuy2_misses (wide : 2 ≤ r.xres) (high : 0 < r.yres) (room : 3 * r.xres ≤ l) :
    ¬ ∃ ws, sweep (upTo r.yres 1) (upTo (r.xres - 2) 2)
      (yuy2Body ⟨start, r.offset⟩ r.xres r.yres l) = some ws ∧ Covers .yuy2 r start l ws := by
  rintro ⟨ws, ran, covers⟩
  refine covers_margin wide high room ?_ ran covers
  intro i j part cell w among
  simp only [yuy2Body, Option.bind_eq_bind, Option.bind_eq_some_iff] at cell
  obtain ⟨k, -, paired⟩ := cell
  obtain ⟨t, low, place⟩ := (pair_cells paired).1 w among
  exact ⟨t, low, place.trans (Nat.add_assoc _ _ _)⟩

theorem uyvy_misses (wide : 2 ≤ r.xres) (high : 0 < r.yres) (room : 3 * r.xres ≤ l) :
    ¬ ∃ ws, sweep (upTo r.yres 1) (upTo (r.xres - 2) 2)
      (uyvyBody ⟨start, r.offset⟩ r.xres r.yres l) = some ws ∧ Covers .uyvy r start l ws := by
  rintro ⟨ws, ran, covers⟩
  refine covers_margin wide high room ?_ ran covers
  intro i j part cell w among
  simp only [uyvyBody, Option.bind_eq_bind, Option.bind_eq_some_iff] at cell
  obtain ⟨k, -, paired⟩ := cell
  obtain ⟨t, low, place⟩ := (pair_cells paired).1 w among
  exact ⟨t, low, place.trans (Nat.add_assoc _ _ _)⟩

theorem yuv444_misplaces (wide : 2 ≤ r.xres) (high : 0 < r.yres)
    (passes : ¬ sizeShort r (r.xres * r.yres * 3) = true) :
    ¬ ∀ start, start.length = r.isz → ∃ ws, sweep (upTo r.yres 1) (upTo r.xres 1)
      (yuv444Body ⟨start, r.offset⟩ r.xres r.yres l) = some ws ∧ Covers .yuv444 r start l ws := by
  intro all
  have blank : (List.replicate r.isz (0 : UInt8)).length = r.isz := List.length_replicate
  obtain ⟨_, blankRan, -⟩ := all _ blank
  have low := loops_low blank (zero_upTo high (by decide)) (zero_upTo (by omega) (by decide))
    (by intro none; simp [yuv444Body, int32, none]) blankRan
  have enough := not_short passes low.1 (by omega)
  have pixels : 2 * 1 ≤ r.xres * r.yres := Nat.mul_le_mul wide high
  have length : ((List.replicate r.isz (0 : UInt8)).set (r.offset + 5).toNat 255).length = r.isz := by
    rw [List.length_set, List.length_replicate]
  obtain ⟨ws, ran, covers⟩ := all _ length
  have reach := reach_file length low.1 (r.xres * r.yres * 3) (by omega)
  have bytes : ∀ k, k ≤ 5 → imageByte ((List.replicate r.isz (0 : UInt8)).set (r.offset + 5).toNat 255)
      r.offset k = if k = 5 then 255 else 0 := by
    intro k inside
    have place : (r.offset + k).toNat < r.isz := by omega
    have same : (r.offset + 5).toNat = (r.offset + k).toNat ↔ k = 5 := by omega
    rw [imageByte, List.getD_eq_getElem?_getD, List.getElem?_set, List.length_replicate,
      List.getElem?_replicate, if_pos place]
    by_cases last : k = 5
    · rw [if_pos (same.mpr last), if_pos (by omega), if_pos last]
      rfl
    · rw [if_neg (mt same.mp last), if_neg last]
      rfl
  obtain ⟨part, cell, within⟩ := sweep_round ran (zero_upTo high (by decide))
    ((mem_upTo (by decide)).mpr ⟨show 1 < r.xres by omega, 1, rfl⟩)
  simp only [yuv444Body, int32_fits (show (0 * r.xres + 1) * 2 < 2147483648 by omega),
    Option.bind_eq_bind, Option.bind_some] at cell
  have second : (0 * r.xres + 1) * 2 = 2 := by omega
  rw [second, reach 2 (by omega), reach (2 + 1) (by omega), reach (2 + 2) (by omega),
    bytes 2 (by omega), bytes (2 + 1) (by omega), bytes (2 + 2) (by omega)] at cell
  have stored : ((r.yres - 0 - 1) * l + 1 * 3 + 2, (yuvB 0 0 0).rgbRed) ∈ ws := by
    obtain rfl := Option.some.inj cell
    exact within List.mem_cons_self
  have once := covers.once 0 high 1 (by omega) 2 (by decide)
  have pixel_here : (0 * r.xres + 1) * 3 = 3 := by omega
  have place : outRow .yuv444 r.yres 0 * l + (3 * 1 + 2) = (r.yres - 0 - 1) * l + 1 * 3 + 2 := by
    rw [outRow, Nat.sub_right_comm]
  simp only [pixel, pixel_here, place, bytes 3 (by omega), bytes (3 + 1) (by omega), bytes (3 + 2) (by omega)] at once
  have value := stored_among stored
  rw [once, List.mem_singleton] at value
  exact absurd value (by decide)

end formats
end Conv
