import Vte.Asrc.OutputBufferSize
import Vte.Base.Bytes
import Vte.Base.CInt

/-!
mxc_asrc_test.c: a WAV file through `header_parser`, `bitshift`, `play_file` and `convert_data`. The memory
around `header[]` takes every store, and the stores are kept; a result is none when a loop has not ended, an
`int` overflows, a buffer is left or the file is refused. `malloc` gives what it is asked for.
-/
namespace Asrc
open Bytes CInt Multiples

structure Src where
  bytes : List Byte
  pos : Nat

def fread (n : Nat) (src : Src) : List Byte × Src :=
  let got := (src.bytes.drop src.pos).take n
  (got, { src with pos := src.pos + got.length })

def fseek (offset : Int) (src : Src) : Src :=
  if 0 ≤ src.pos + offset then { src with pos := (src.pos + offset).toNat } else src

def laid (got before : List Byte) : List Byte := got ++ before.drop got.length

def int (bs : List Byte) : Int := (unitAt bs 0).toInt

def intBytes (x : Int) : List Byte := unitBytes (BitVec.ofInt 32 x)

def shortBytes (x : Nat) : List Byte := [BitVec.ofNat 8 x, BitVec.ofNat 8 (x / 256)]

structure Stack where
  chunkId : List Byte
  chunkSize : List Byte
  formatSize : List Byte
  data : Unit32

/-- The memory by its distance from `&header[0]`, and the stores to it. -/
structure Header where
  mem : Int → Byte
  stores : List (Int × Nat)

def Header.store (h : Header) (pos : Int) (bs : List Byte) : Header where
  mem := fun k => if pos ≤ k ∧ k < pos + bs.length then byteAt bs (k - pos).toNat else h.mem k
  stores := h.stores ++ [(pos, bs.length)]

def Header.read (h : Header) (pos : Int) (n : Nat) : List Byte := (List.range n).map fun k : Nat => h.mem (pos + k)

def Header.int (h : Header) (pos : Int) : Int := Asrc.int (h.read pos 4)

def Header.short (h : Header) (pos : Int) : BitVec 16 := h.mem (pos + 1) ++ h.mem pos

section parsing

/-- The loop that looks for the chunk `name`. -/
def findChunk (name : List Byte) : Nat → List Byte → List Byte → Src → Option (List Byte × List Byte × Src)
  | 0, _, _, _ => none
  | fuel + 1, id, size, src =>
    if id = name then some (id, size, src)
    else
      let (got, src) := fread 4 src
      let size := laid got size
      let src := fseek (int size) src
      let (got, src) := fread 4 src
      if got.length < 4 then none else findChunk name fuel (laid got id) size src

def riff : List Byte := [0x52, 0x49, 0x46, 0x46]
def fmt : List Byte := [0x66, 0x6d, 0x74, 0x20]
def dataId : List Byte := [0x64, 0x61, 0x74, 0x61]

structure Parsed where
  formatSize : Int
  channel : Int
  sampleRate : Int
  blockalign : Nat
  frameBits : Nat
  inputDataLen : Int
  header : Header
  src : Src

/-- `header_parser` up to the size of the data. -/
def readHeader (fuel : Nat) (stack : Stack) (file : List Byte) : Option Parsed := do
  let (got, src) := fread 4 ⟨file, 0⟩
  let (id, size, src) ← findChunk riff fuel (laid got stack.chunkId) stack.chunkSize src
  let (got, src) := fread 12 (fseek (-4) src)
  let h := (⟨fun _ => 0, []⟩ : Header).store 0 got
  let (got, src) := fread 4 src
  let (id, size, src) ← findChunk fmt fuel (laid got id) size src
  let (got, src) := fread 4 src
  let formatSize := int (laid got stack.formatSize)
  let (got, src) := fread (u64 (int32 (formatSize + 8))) (fseek (-8) src)
  let h := h.store 12 got
  let (got, src) := fread 4 src
  let (_, _, src) ← findChunk dataId fuel (laid got id) size src
  let (got, src) := fread 4 src
  let inputDataLen := int (laid got [0, 0, 0, 0])
  let (got, src) := fread 8 (fseek (-8) src)
  some {
    formatSize, inputDataLen, src
    channel := (h.short 22).toInt
    sampleRate := h.int 24
    blockalign := (h.short 32).toNat
    frameBits := (h.short 34).toNat
    header := h.store (formatSize + 20) got }

/-- `struct audio_info_s`, as far as it is used. -/
structure Info where
  sampleRate : Int
  outputSampleRate : Int
  inputDataLen : Int
  outputDataLen : Int
  frameBits : Nat
  blockalign : Nat

/-- `update_datachunk_length`, with the bytes behind the header; at the end of `header_parser` too. -/
def updateDatachunkLength (formatSize len : Int) (h : Header) : Option Header := do
  let total ← checked32 (len + 20)
  let total ← checked32 (total + formatSize)
  some ((h.store (24 + formatSize) (intBytes len)).store 4 (intBytes total))

def setOutput (sizes : Nat) (rate : Int) (p : Parsed) : Option (Info × Header) := do
  let len ← getOutputBufferSize sizes p.inputDataLen p.sampleRate rate
  let h ← updateDatachunkLength p.formatSize len p.header
  let bytes ← checked32 (rate * p.channel)
  let bytes ← checked32 (bytes * (p.frameBits / 8 : Nat))
  some (⟨p.sampleRate, rate, p.inputDataLen, len, p.frameBits, p.blockalign⟩,
    (h.store 24 (intBytes rate)).store 28 (intBytes bytes))

end parsing

section bitshift

def updateBlockalign (info : Info) (h : Header) : Option Header := do
  let bytes ← checked32 (info.outputSampleRate * info.blockalign)
  some ((h.store 32 (shortBytes info.blockalign)).store 28 (intBytes bytes))

def updateSampleBitdepth (info : Info) (h : Header) : Header := h.store 34 (shortBytes info.frameBits)

/-- One of the loops that fill `input_buffer`, which has `size` bytes. -/
def fillLoop (size width : Nat) (shift : Unit32 → Unit32) :
    Nat → Int → Nat → Unit32 → Src → Option (List Unit32)
  | 0, _, _, _, _ => none
  | fuel + 1, nleft, i, data, src => do
    let (got, src) := fread width src
    let data := unitAt (laid got (unitBytes data)) 0
    if size < 4 * i + 4 then none
    else do
      let nleft ← checked32 (nleft - 1)
      if nleft = 0 then some [shift data]
      else do
        let rest ← fillLoop size width shift fuel nleft (i + 1) data src
        some (shift data :: rest)

/-- The buffers by their sizes, and what `input_buffer` is filled with. -/
structure Buffers where
  inputSize : Nat
  outputSize : Nat
  input : List Unit32

/-- The three ways to fill `input_buffer`; for the first the lengths and the header change. -/
def fillInput (fuel size : Nat) (nleft : Int) (data : Unit32) (src : Src) (info : Info) (h : Header) :
    Option (Info × Header × List Unit32) :=
  if info.frameBits ≤ 16 then do
    let input ← fillLoop size 2 (fun data => (data <<< 8) &&& 0xFFFF00#32) fuel nleft 0 data src
    let inputDataLen ← shl info.inputDataLen 1
    let outputDataLen ← shl info.outputDataLen 1
    let h ← updateDatachunkLength (h.int 16) outputDataLen h
    let info := { info with inputDataLen, outputDataLen, blockalign := 8 }
    let h ← updateBlockalign info h
    some (info, h, input)
  else if info.frameBits = 24 then do
    let input ← fillLoop size 4 id fuel nleft 0 data src
    some (info, h, input)
  else if info.frameBits = 32 then do
    let input ← fillLoop size 4 (fun data => (data >>> 8) &&& 0x00FFFFFF#32) fuel nleft 0 data src
    some (info, h, input)
  else some (info, h, [])

def samplesLeft (info : Info) : Int :=
  if info.frameBits ≤ 16 then info.inputDataLen / 2 else info.inputDataLen / 4

def bitshift (fuel : Nat) (data : Unit32) (src : Src) (info : Info) (h : Header) :
    Option (Info × Header × Buffers) := do
  let nleft := samplesLeft info
  let inputSize := u64 (4 * nleft + 4096)
  let (info, h, input) ← fillInput fuel inputSize nleft data src info h
  let info := { info with frameBits := 24 }
  let outputSize ← checked32 (info.outputDataLen + 65536)
  some (info, updateSampleBitdepth info h, ⟨inputSize, u64 outputSize, input⟩)

end bitshift

section play_file

abbrev Driver := Nat → Int → List Byte

def Driver.Polite (driver : Driver) : Prop :=
  ∀ k n, 1 ≤ n → 1 ≤ (driver k n).length ∧ ((driver k n).length : Int) ≤ n

def dmaBufSize : Nat := 4096

structure Play where
  inputPos : Nat
  inputLeft : Int
  outputPos : Nat
  outputLeft : Int
  used : Int
  output : List Byte

/-- The loop of `play_file`; the pieces that the driver is given are inside their buffers. -/
def playLoop (b : Buffers) (dma : Int) (driver : Driver) : Nat → Nat → Play → Option Play
  | 0, _, _ => none
  | fuel + 1, k, s =>
    let inputInside := s.inputLeft ≤ 0 ∨ s.inputPos + dmaBufSize ≤ b.inputSize
    if inputInside ∧ s.outputPos + dma ≤ b.outputSize then
      let taken := if s.inputLeft > dmaBufSize then (dmaBufSize : Int) else s.inputLeft
      let piece := driver k dma
      let s := { s with
        inputPos := if s.inputLeft > 0 then s.inputPos + taken.toNat else s.inputPos
        inputLeft := if s.inputLeft > 0 then s.inputLeft - taken else s.inputLeft
        output := writeAt 0 s.output s.outputPos piece }
      if s.outputLeft > (piece.length : Int) then
        playLoop b dma driver fuel (k + 1) { s with
          outputLeft := s.outputLeft - piece.length
          outputPos := s.outputPos + piece.length
          used := s.used + piece.length }
      else some { s with
        outputPos := s.outputPos + s.outputLeft.toNat
        used := s.used + s.outputLeft
        outputLeft := 0 }
    else none

def playFile (sizes fuel : Nat) (driver : Driver) (b : Buffers) (info : Info) : Option Play := do
  let dma ← getOutputBufferSize sizes dmaBufSize info.sampleRate info.outputSampleRate
  playLoop b dma driver fuel 0 ⟨0, info.inputDataLen, 0, info.outputDataLen, 0, []⟩

end play_file

section convert_data

def sample (output : List Byte) (i : Nat) : List Byte := unitBytes (unitAt output (4 * i) &&& 0x00FFFFFF#32)

def sampleLoop (b : Buffers) (output : List Byte) : Nat → Nat → Nat → Option (List Byte)
  | 0, _, _ => none
  | fuel + 1, i, size =>
    if b.outputSize < 4 * i + 4 then none
    else
      let size := (size + 4294967292) % 4294967296
      if size = 0 then some (sample output i)
      else do
        let rest ← sampleLoop b output fuel (i + 1) size
        some (sample output i ++ rest)

def convertData (fuel : Nat) (b : Buffers) (s : Play) (h : Header) : Option (Header × List Byte) := do
  let formatSize := h.int 16
  let h ← updateDatachunkLength formatSize s.used h
  let size := (h.int (24 + formatSize) % 4294967296).toNat
  let samples ← sampleLoop b s.output fuel 0 size
  some (h, h.read 0 (formatSize + 28).toNat ++ samples)

end convert_data

structure Converted where
  header : Header
  play : Play
  file : List Byte

/-- `main` behind the part of `header_parser` that can refuse the file. -/
def convert (sizes fuel : Nat) (data : Unit32) (rate : Int) (driver : Driver) (p : Parsed) : Option Converted := do
  let (info, h) ← setOutput sizes rate p
  let (info, h, b) ← bitshift fuel data p.src info h
  let play ← playFile sizes fuel driver b info
  let (header, file) ← convertData fuel b play h
  some ⟨header, play, file⟩

def convertFile (headerFuel sizes fuel : Nat) (stack : Stack) (src : List Byte) (data : Unit32) (rate : Int)
    (driver : Driver) : Option Converted := do
  let p ← readHeader headerFuel stack src
  convert sizes fuel data rate driver p

end Asrc
