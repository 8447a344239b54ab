import Vte.Base.StoreLog
import Vte.Conv.ConvYuv

/-!
conv/main.c, `process_img` with the output format BMP24: the conversions of raw images to the rows of a
bitmap. A result is none when an `int` overflows or a byte outside the mapped input, or the temporary
buffer, is read.
-/
namespace Conv
open Copies Multiples StoreLog

inductive Format where
  | rgb565 | rgb24 | bgr24 | rgb32 | bgr32 | yuv420 | yuv422p | uyvy | yuy2 | yuv444 | nv16 | yvu420
deriving DecidableEq

structure RgbQuad where
  rgbBlue : UInt8
  rgbGreen : UInt8
  rgbRed : UInt8
deriving DecidableEq

/-- A pointer `pdata` into a mapping or a buffer. -/
structure Source where
  bytes : List UInt8
  base : Int

def Source.byteAt (pdata : Source) (k : Nat) : Option UInt8 :=
  if 0 ≤ pdata.base + k then pdata.bytes[(pdata.base + k).toNat]? else none

structure Request where
  xres : Nat
  yres : Nat
  offset : Int
  cflag : Bool
  /-- the size of the input file -/
  isz : Nat
  /-- the size of the output file before the run -/
  outSize : Nat
  /-- what `malloc` gives for that size -/
  temp : Option (List UInt8)
  offsetFits : Fits64 offset
  iszFits : Fits64 isz
  tempSize : ∀ buffer ∈ temp, buffer.length = outSize

theorem zero_fits64 : Fits64 0 := by decide

theorem no_temp : ∀ buffer ∈ (none : Option (List UInt8)), buffer.length = 0 := nofun

/-- The end of a run: `exit`, or the stores behind the 54 bytes of the headers. -/
inductive Outcome where
  | stopped
  | stored (ws : Stores UInt8)
deriving DecidableEq

section colours

def A1 : Int := 1164 * 1024 / 1000
def A2 : Int := 1596 * 1024 / 1000
def A3 : Int := 813 * 1024 / 1000
def A4 : Int := 391 * 1024 / 1000
def A5 : Int := 2018 * 1024 / 1000
def B1 : Int := 1370705 * 1024 / 1000000
def B2 : Int := 698001 * 1024 / 1000000
def B3 : Int := 337633 * 1024 / 1000000
def B4 : Int := 1732446 * 1024 / 1000000

/-- The conversion of a `long` to the `short` argument. -/
def toShort (a : Int) : Int := (a + 32768) % 65536 - 32768

def bound255 (a : Int) : UInt8 :=
  if toShort a > 255 then 255 else if toShort a < 0 then 0 else UInt8.ofNat (toShort a).toNat

def long (x : UInt8) : Int := x.toNat

def yuvRgb (luma : Int) (u v : UInt8) : RgbQuad where
  rgbRed := bound255 ((luma + A2 * (long v - 128)) / 1024)
  rgbGreen := bound255 ((luma - A3 * (long v - 128) - A4 * (long u - 128)) / 1024)
  rgbBlue := bound255 ((luma + A5 * (long u - 128)) / 1024)

def yuvA (y u v : UInt8) : RgbQuad := yuvRgb (A1 * (long y - 16)) u v

/-- For a luma sample kept in an `unsigned char`, whose product is an `unsigned int`. -/
def yuvSquare (y u v : UInt8) : RgbQuad := yuvRgb (A1 * (long y - 16) % 4294967296) u v

def yuvB (y u v : UInt8) : RgbQuad where
  rgbRed := bound255 ((long y * 1024 + B1 * (long v - 128)) / 1024)
  rgbGreen := bound255 ((long y * 1024 - B2 * (long v - 128) - B3 * (long u - 128)) / 1024)
  rgbBlue := bound255 ((long y * 1024 + B4 * (long u - 128)) / 1024)

def unpack565 (low high : UInt8) : RgbQuad where
  rgbRed := high &&& 0xf8
  rgbGreen := ((low &&& 0xe0) >>> 3) + ((high &&& 0x07) <<< 5)
  rgbBlue := (low &&& 0x1f) <<< 3

end colours

section bodies
variable (pdata : Source) (xres yres l bias i j : Nat)

def putRgb (k : Nat) (rgb : RgbQuad) : Stores UInt8 :=
  [(k + 2, rgb.rgbRed), (k + 1, rgb.rgbGreen), (k, rgb.rgbBlue)]

def rgb565Body : Option (Stores UInt8) := do
  let k ← int32 ((i * xres + j) * 2)
  let high ← pdata.byteAt (k + 1)
  let low ← pdata.byteAt k
  some (putRgb (i * l + j * 3) (unpack565 low high))

def packedBody (size red green blue : Nat) : Option (Stores UInt8) := do
  let k ← int32 ((i * xres + j) * size)
  let red ← pdata.byteAt (k + red)
  let green ← pdata.byteAt (k + green)
  let blue ← pdata.byteAt (k + blue)
  let k := i * l + j * 3
  some [(k, red), (k + 1, green), (k + 2, blue)]

def bgr24Body : Option (Stores UInt8) := packedBody pdata xres l i j 3 0 1 2
def rgb24Body : Option (Stores UInt8) := packedBody pdata xres l i j 3 2 1 0
def bgr32Body : Option (Stores UInt8) := packedBody pdata xres l i j 4 0 1 2
def rgb32Body : Option (Stores UInt8) := packedBody pdata xres l i j 4 2 1 0

/-- Two pixels with one pair of chroma samples, both stored from `k` on. -/
def pairAt (toRgb : UInt8 → UInt8 → UInt8 → RgbQuad) (k y1 y2 u v : Nat) :
    Option (Stores UInt8) := do
  let y1 ← pdata.byteAt y1
  let u ← pdata.byteAt u
  let y2 ← pdata.byteAt y2
  let v ← pdata.byteAt v
  some (putRgb k (toRgb y1 u v) ++ putRgb (k + 3) (toRgb y2 u v))

def nv16Body : Option (Stores UInt8) := do
  let ky ← int32 (i * xres + j)
  -- `& 0xFFFFFFFE`
  let ku := (i * xres + j + bias) % 4294967296 / 2 * 2
  pairAt pdata yuvA (i * l + j * 3) ky (ky + 1) ku (ku + 1)

def yuv422pBody : Option (Stores UInt8) := do
  let ky ← int32 (i * xres + j)
  let ku := i * xres / 2 + j / 2 + bias
  let kv := i * xres / 2 + j / 2 + bias + bias / 2
  pairAt pdata yuvA (i * l + j * 3) ky (ky + 1) ku kv

def yuy2Body : Option (Stores UInt8) := do
  let k ← int32 ((i * xres + j) * 2)
  pairAt pdata yuvB ((yres - i - 1) * l + j * 3) k (k + 2) (k + 1) (k + 3)

def uyvyBody : Option (Stores UInt8) := do
  let k ← int32 ((i * xres + j) * 2)
  pairAt pdata yuvB ((yres - i - 1) * l + j * 3) (k + 1) (k + 3) k (k + 2)

def yuv444Body : Option (Stores UInt8) := do
  let k ← int32 ((i * xres + j) * 2)
  let y ← pdata.byteAt k
  let u ← pdata.byteAt (k + 1)
  let v ← pdata.byteAt (k + 2)
  some (putRgb ((yres - i - 1) * l + j * 3) (yuvB y u v))

/-- Four pixels with the chroma samples at `ku` and `kv`. -/
def squareAt (ku kv : Nat) : Option (Stores UInt8) := do
  let ky ← int32 (i * xres + j)
  let y0 ← pdata.byteAt ky
  let u ← pdata.byteAt ku
  let v ← pdata.byteAt kv
  let y1 ← pdata.byteAt (ky + 1)
  let ky ← int32 ((i + 1) * xres + j)
  let y2 ← pdata.byteAt ky
  let y3 ← pdata.byteAt (ky + 1)
  let k := i * l + j * 3
  let k' := (i + 1) * l + j * 3
  some (putRgb k (yuvSquare y0 u v) ++ putRgb (k + 3) (yuvSquare y1 u v) ++
    putRgb k' (yuvSquare y2 u v) ++ putRgb (k' + 3) (yuvSquare y3 u v))

def yuv420Body : Option (Stores UInt8) :=
  squareAt pdata xres l i j (i * xres / 4 + j / 2 + bias) (i * xres / 4 + j / 2 + bias + bias / 4)

def yvu420Body : Option (Stores UInt8) :=
  squareAt pdata xres l i j (i * xres / 4 + j / 2 + bias + bias / 4) (i * xres / 4 + j / 2 + bias)

end bodies

section process
variable (r : Request) (start : List UInt8)

def sizeShort (need : Nat) : Bool :=
  decide (((r.isz : Int) - r.offset) % 18446744073709551616 < need)

def sweep (rows cols : List Nat) (body : Nat → Nat → Option (Stores UInt8)) :
    Option (Stores UInt8) :=
  loop rows fun i => loop cols (body i)

def checked (size : Nat) (convert : Option (Stores UInt8)) : Option Outcome := do
  let area ← int32 (r.yres * r.xres)
  let need ← int32 (area * size)
  if sizeShort r need then some .stopped else convert.map .stored

def nv16Case (l : Nat) (pdata : Source) : Option Outcome := do
  let bias ← int32 (r.xres * r.yres)
  checked r 2 (sweep (upTo r.yres 1) (upTo r.xres 2) (nv16Body pdata r.xres l bias))

def rgb32Case (l : Nat) (pdata : Source) : Option Outcome := do
  let first ← checked r 4 (sweep (upTo r.yres 1) (upTo r.xres 1) (rgb32Body pdata r.xres l))
  match first with
  | .stopped => some .stopped
  | .stored ws =>
    match ← nv16Case r l pdata with
    | .stopped => some .stopped
    | .stored later => some (.stored (ws ++ later))

/-- With `-C` the planes are laid out in a buffer of the size of the old output file. -/
def formalPlanes (pdata : Source) : Option Source :=
  if r.cflag then do
    let temp ← r.temp
    -- the first byte of an image in front of the mapping is read as well
    if 0 ≤ r.offset then do
      let f ← convMx25Yuv (start.drop r.offset.toNat) r.xres r.yres temp
      some ⟨f.out, 0⟩
    else none
  else some pdata

def yuv420Case (pdata : Source) (body : Source → Nat → Nat → Nat → Option (Stores UInt8)) :
    Option Outcome := do
  let bias ← int32 (r.xres * r.yres)
  -- `isz - offset < yres * xres * 1.5`, as `double`
  if ((r.isz : Int) - r.offset) % 18446744073709551616 * 2 < bias * 3 then some .stopped
  else do
    let pdata ← formalPlanes r start pdata
    let ws ← sweep (upTo (r.yres - 1) 2) (upTo (r.xres - 1) 2) (body pdata bias)
    some (.stored ws)

def convert (fmt : Format) (l : Nat) (pdata : Source) : Option Outcome :=
  let xres := r.xres
  let yres := r.yres
  match fmt with
  | .rgb565 => checked r 2 (sweep (upTo yres 1) (upTo xres 1) (rgb565Body pdata xres l))
  | .bgr24 => checked r 3 (sweep (upTo yres 1) (upTo xres 1) (bgr24Body pdata xres l))
  | .rgb24 => checked r 3 (sweep (upTo yres 1) (upTo xres 1) (rgb24Body pdata xres l))
  | .bgr32 => checked r 4 (sweep (upTo yres 1) (upTo xres 1) (bgr32Body pdata xres l))
  | .rgb32 => rgb32Case r l pdata
  | .nv16 => nv16Case r l pdata
  | .yuv422p => do
    let bias ← int32 (xres * yres)
    checked r 2 (sweep (upTo yres 1) (upTo xres 2) (yuv422pBody pdata xres l bias))
  | .yuy2 => checked r 2 (sweep (upTo yres 1) (upTo (xres - 2) 2) (yuy2Body pdata xres yres l))
  | .yuv444 => checked r 3 (sweep (upTo yres 1) (upTo xres 1) (yuv444Body pdata xres yres l))
  | .uyvy => checked r 2 (sweep (upTo yres 1) (upTo (xres - 2) 2) (uyvyBody pdata xres yres l))
  | .yuv420 => yuv420Case r start pdata fun pdata bias => yuv420Body pdata xres l bias
  | .yvu420 => yuv420Case r start pdata fun pdata bias => yvu420Body pdata xres l bias

def rowBytes (xres : Nat) : Option Nat := do
  let bits ← int32 (xres * 24 + 31)
  some (bits / 32 * 32 / 8)

/-- `process_img` for an input file with the bytes `start`; an empty file is not mapped. -/
def processImg (fmt : Format) : Option Outcome :=
  if r.isz = 0 then some .stopped
  else do
    let l ← rowBytes r.xres
    convert r start fmt l ⟨start, r.offset⟩

end process
end Conv
