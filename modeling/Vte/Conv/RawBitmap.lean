import Vte.Conv.ToBitmapCovers

/-!
conv/main.c, `process_img` from BMP24 to raw data, and the way back of RGB24 and RGB565: what a raw file
keeps of the pixels of a bitmap with padded rows.
-/
namespace Conv
open Copies Multiples StoreLog

inductive Encoding where
  | rgb555 | rgb565 | rgb24
deriving DecidableEq

def Encoding.bs : Encoding → Nat
  | .rgb555 => 16
  | .rgb565 => 16
  | .rgb24 => 24

def bytesPerPixel (oenc : Encoding) : Nat := (oenc.bs + 7) / 8 * 8 / 8

section encoders
variable (r g b : UInt8)

def high565 : UInt8 := (r &&& (0xf8 : UInt8)) + ((g &&& 0xe0) >>> 5)
def low565 : UInt8 := ((g &&& 0x1c) <<< 3) + ((b &&& 0xf8) >>> 3)
def high555 : UInt8 := ((r &&& 0xf8) >>> 1) + ((g &&& 0xc0) >>> 6)
def low555 : UInt8 := ((g &&& 0x38) <<< 3) + ((b &&& 0xf8) >>> 3)

end encoders

def wordBody (high low : UInt8 → UInt8 → UInt8) (pdata : Source) (xres l i j : Nat) :
    Option (Stores UInt8) := do
  let k := i * l + j * 3
  let k2 ← int32 ((i * xres + j) * 2)
  let r ← pdata.byteAt (k + 2)
  let g ← pdata.byteAt (k + 1)
  let b ← pdata.byteAt k
  some [(k2 + 1, high r g), (k2, low g b)]

def swapBody (pdata : Source) (l i j : Nat) : Option (Stores UInt8) := do
  let k := i * l + j * 3
  let first ← pdata.byteAt k
  let second ← pdata.byteAt (k + 1)
  let third ← pdata.byteAt (k + 2)
  some [(k + 2, first), (k + 1, second), (k, third)]

def rawBody (oenc : Encoding) (pdata : Source) (xres l i j : Nat) : Option (Stores UInt8) :=
  match oenc with
  | .rgb555 => wordBody high555 low555 pdata xres l i j
  | .rgb565 => wordBody high565 low565 pdata xres l i j
  | .rgb24 => swapBody pdata l i j

def mappedFile (old : List UInt8) (size : Nat) : List UInt8 :=
  (old ++ List.replicate (size - old.length) 0).set (size - 1) 0

theorem mappedFile_length (old : List UInt8) (size : Nat) :
    (mappedFile old size).length = old.length + (size - old.length) := by
  rw [mappedFile, List.length_set, List.length_append, List.length_replicate]

/-- The raw file after a run on the bitmap file `start`, where it was `old` before. None when a store is
    outside the mapping. -/
def toRaw (oenc : Encoding) (xres yres : Nat) (start old : List UInt8) : Option (List UInt8) := do
  let l ← rowBytes xres
  let size ← int32 (xres * yres * bytesPerPixel oenc)
  let ws ← sweep (upTo yres 1) (upTo xres 1) (rawBody oenc ⟨start, 54⟩ xres l)
  if ∀ w ∈ ws, w.1 < size then some (apply ws (mappedFile old size)) else none

def rawRequest (xres yres : Nat) (raw : List UInt8) (fits : Fits64 raw.length) : Request where
  xres := xres
  yres := yres
  offset := 0
  cflag := false
  isz := raw.length
  outSize := 0
  temp := none
  offsetFits := zero_fits64
  iszFits := fits
  tempSize := no_temp

def toBmp (fmt : Format) (xres yres : Nat) (raw area : List UInt8) : Option (List UInt8) :=
  if fits : Fits64 raw.length then
    match processImg (rawRequest xres yres raw fits) raw fmt with
    | some (.stored ws) => some (apply ws area)
    | _ => none
  else none

def paddedRow (xres : Nat) : Nat := (3 * xres + 3) / 4 * 4

def bmpPixel (rows : List UInt8) (l row col : Nat) : RgbQuad where
  rgbBlue := rows.getD (row * l + 3 * col) 0
  rgbGreen := rows.getD (row * l + 3 * col + 1) 0
  rgbRed := rows.getD (row * l + 3 * col + 2) 0

def topBits (rgb : RgbQuad) : RgbQuad where
  rgbBlue := rgb.rgbBlue &&& 0xf8
  rgbGreen := rgb.rgbGreen &&& 0xfc
  rgbRed := rgb.rgbRed &&& 0xf8

def wordAt (raw : List UInt8) (xres row col : Nat) : Nat :=
  (raw.getD ((row * xres + col) * 2) 0).toNat + 256 * (raw.getD ((row * xres + col) * 2 + 1) 0).toNat

/-- The pixels that come back from a raw file are `keep` of those of the bitmap. -/
def ComesBack (oenc : Encoding) (fmt : Format) (keep : RgbQuad → RgbQuad) (xres yres : Nat)
    (start : List UInt8) : Prop :=
  ∀ old area, Fits64 (old.length : Nat) → area.length = paddedRow xres * yres →
    ∃ raw back, toRaw oenc xres yres start old = some raw ∧ toBmp fmt xres yres raw area = some back ∧
      ∀ row < yres, ∀ col < xres, bmpPixel back (paddedRow xres) row col =
        keep (bmpPixel (start.drop 54) (paddedRow xres) row col)

structure Inverse (xres yres : Nat) (start : List UInt8) : Prop where
  rgb24 : ComesBack .rgb24 .rgb24 id xres yres start
  rgb565 : ComesBack .rgb565 .rgb565 topBits xres yres start
  rgb555 : ∀ old : List UInt8, Fits64 old.length → ∃ raw, toRaw .rgb555 xres yres start old = some raw ∧
    ∀ row < yres, ∀ col < xres, let rgb := bmpPixel (start.drop 54) (paddedRow xres) row col
      wordAt raw xres row col / 1024 % 32 = rgb.rgbRed.toNat / 8 ∧
      wordAt raw xres row col / 32 % 32 = rgb.rgbGreen.toNat / 8 ∧
      wordAt raw xres row col % 32 = rgb.rgbBlue.toNat / 8

section fields

theorem byte_cases {P : UInt8 → Prop} (all : ∀ n < 256, P (UInt8.ofNat n)) (x : UInt8) : P x := by
  have one := all x.toNat x.toNat_lt
  rwa [UInt8.ofNat_toNat] at one

theorem encoder_fields (x : UInt8) :
    (x &&& 0xf8).toNat = x.toNat / 8 * 8 ∧ ((x &&& 0xe0) >>> 5).toNat = x.toNat / 32 ∧
    ((x &&& 0x1c) <<< 3).toNat = x.toNat / 4 % 8 * 32 ∧ ((x &&& 0xf8) >>> 3).toNat = x.toNat / 8 ∧
    ((x &&& 0xf8) >>> 1).toNat = x.toNat / 8 * 4 ∧ ((x &&& 0xc0) >>> 6).toNat = x.toNat / 64 ∧
    ((x &&& 0x38) <<< 3).toNat = x.toNat / 8 % 4 * 64 :=
  byte_cases (P := fun x => (x &&& 0xf8).toNat = x.toNat / 8 * 8 ∧ ((x &&& 0xe0) >>> 5).toNat = x.toNat / 32 ∧
    ((x &&& 0x1c) <<< 3).toNat = x.toNat / 4 % 8 * 32 ∧ ((x &&& 0xf8) >>> 3).toNat = x.toNat / 8 ∧
    ((x &&& 0xf8) >>> 1).toNat = x.toNat / 8 * 4 ∧ ((x &&& 0xc0) >>> 6).toNat = x.toNat / 64 ∧
    ((x &&& 0x38) <<< 3).toNat = x.toNat / 8 % 4 * 64) (by decide +kernel) x

theorem decoder_fields (x : UInt8) :
    ((x &&& 0xe0) >>> 3).toNat = x.toNat / 32 * 4 ∧ ((x &&& 0x07) <<< 5).toNat = x.toNat % 8 * 32 ∧
    ((x &&& 0x1f) <<< 3).toNat = x.toNat % 32 * 8 ∧ (x &&& 0xfc).toNat = x.toNat / 4 * 4 ∧
    (x &&& 0x38).toNat = x.toNat / 8 % 8 * 8 :=
  byte_cases (P := fun x => ((x &&& 0xe0) >>> 3).toNat = x.toNat / 32 * 4 ∧
    ((x &&& 0x07) <<< 5).toNat = x.toNat % 8 * 32 ∧
    ((x &&& 0x1f) <<< 3).toNat = x.toNat % 32 * 8 ∧ (x &&& 0xfc).toNat = x.toNat / 4 * 4 ∧
    (x &&& 0x38).toNat = x.toNat / 8 % 8 * 8) (by decide +kernel) x

theorem unpack_pack (r g b : UInt8) :
    unpack565 (low565 g b) (high565 r g) = topBits ⟨b, g, r⟩ := by
  obtain ⟨red, -, -, -, -⟩ := encoder_fields r
  obtain ⟨-, up, low, -, -⟩ := encoder_fields g
  obtain ⟨blue, -, -, shifted, -⟩ := encoder_fields b
  obtain ⟨-, -, -, green, -⟩ := decoder_fields g
  have high : (high565 r g).toNat = r.toNat / 8 * 8 + g.toNat / 32 := by
    have := r.toNat_lt
    have := g.toNat_lt
    rw [high565, UInt8.toNat_add, red, up]
    omega
  have below : (low565 g b).toNat = g.toNat / 4 % 8 * 32 + b.toNat / 8 := by
    have := b.toNat_lt
    rw [low565, UInt8.toNat_add, low, shifted]
    omega
  obtain ⟨kept, -, -, -, -⟩ := encoder_fields (high565 r g)
  obtain ⟨-, greenUp, -, -, -⟩ := decoder_fields (high565 r g)
  obtain ⟨greenLow, -, blueLow, -, -⟩ := decoder_fields (low565 g b)
  have lowG := g.toNat_lt
  have lowB := b.toNat_lt
  simp only [unpack565, topBits, RgbQuad.mk.injEq]
  refine ⟨UInt8.toNat_inj.mp ?_, UInt8.toNat_inj.mp ?_, UInt8.toNat_inj.mp ?_⟩
  · rw [blueLow, below, blue]
    omega
  · rw [UInt8.toNat_add, greenLow, greenUp, high, below, green]
    omega
  · rw [kept, high, red]
    omega

/-- A word of RGB555 has the top bits of all components just when the bits 5..3 of green are 0: they are
    shifted too far. -/
theorem word555_iff (r g b : UInt8) :
    (((low555 g b).toNat + 256 * (high555 r g).toNat) / 1024 % 32 = r.toNat / 8 ∧
      ((low555 g b).toNat + 256 * (high555 r g).toNat) / 32 % 32 = g.toNat / 8 ∧
      ((low555 g b).toNat + 256 * (high555 r g).toNat) % 32 = b.toNat / 8) ↔ g &&& 0x38 = 0 := by
  obtain ⟨-, -, -, -, red, -⟩ := encoder_fields r
  obtain ⟨-, -, -, -, -, up, low⟩ := encoder_fields g
  obtain ⟨-, -, -, shifted, -⟩ := encoder_fields b
  obtain ⟨-, -, -, -, middle⟩ := decoder_fields g
  have lowR := r.toNat_lt
  have lowG := g.toNat_lt
  have lowB := b.toNat_lt
  have high : (high555 r g).toNat = r.toNat / 8 * 4 + g.toNat / 64 := by
    rw [high555, UInt8.toNat_add, red, up]
    omega
  have below : (low555 g b).toNat = g.toNat / 8 % 4 * 64 + b.toNat / 8 := by
    rw [low555, UInt8.toNat_add, low, shifted]
    omega
  rw [← UInt8.toNat_inj, middle, high, below]
  constructor
  · rintro ⟨-, green, -⟩
    show g.toNat / 8 % 8 * 8 = 0
    omega
  · intro none
    have zero : g.toNat / 8 % 8 * 8 = 0 := none
    refine ⟨?_, ?_, ?_⟩ <;> omega

end fields
end Conv
