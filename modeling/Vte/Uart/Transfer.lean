import Mathlib.Algebra.Order.Ring.Nat
import Vte.Base.Bytes

/-!
uart_test_addon.c: a file goes from the writer thread of one process over the line to the reader
thread of another. A step of the machine is one `write` or `read` on a port with its answer; the
code between two of them runs at once. No call on a plain file fails.
-/
namespace VteUart
open Bytes

def recBlock : Nat := 4096
def transBlock : Nat := 1024
def compareBuffer : Nat := 4096
def rwSuccess : Int := 0xCC
def dataBufferSize : Nat := 16 * 1024
def sizeLimit : Nat := 20 * 1024 * 1024

def ascii (s : String) : List Byte := s.toList.map fun c => BitVec.ofNat 8 c.toNat

def startMessage : List Byte := ascii "**Start header!"
def stopMessage : List Byte := ascii "**End header!"

/-- A string in a cleared array of `n` characters. -/
def field (n : Nat) (s : List Byte) : List Byte := s ++ List.replicate (n - s.length) 0

def cstr (bs : List Byte) : List Byte := bs.takeWhile (· ≠ 0)

/-- An `off_t` of 8 bytes, the low byte first. -/
def offT (n : Nat) : List Byte := (List.range 8).map fun i => BitVec.ofNat 8 (n / 256 ^ i)

def offTAt (bs : List Byte) : Nat := bs.foldr (fun b n => b.toNat + 256 * n) 0

structure Header where
  startMessage : List Byte
  transferFname : List Byte
  fileSize : Nat
  stopMessage : List Byte
  deriving DecidableEq

def headerSize : Nat := 296

def Header.bytes (h : Header) : List Byte :=
  field 16 h.startMessage ++ (field 256 h.transferFname ++ (offT h.fileSize ++ field 16 h.stopMessage))

def headerAt (bs : List Byte) : Header where
  startMessage := cstr (bs.take 16)
  transferFname := cstr ((bs.drop 16).take 256)
  fileSize := offTAt ((bs.drop 272).take 8)
  stopMessage := cstr ((bs.drop 280).take 16)

def checkHeader (h : Header) : Bool := h.startMessage = startMessage ∧ h.stopMessage = stopMessage

/-- The sizes of the `r_blocks_num` blocks of a file. -/
def blockSizes (block size : Nat) : List Nat :=
  let last := size % block
  let blocks := size / block + if last ≠ 0 then 1 else 0
  (List.range blocks).map fun i => if i + 1 = blocks ∧ last ≠ 0 then last else block

/-- What one `read` after the other returns of a file. -/
def pieces : List Nat → List Byte → List (List Byte)
  | [], _ => []
  | n :: ns, bs => bs.take n :: pieces ns (bs.drop n)

/-- The loop over one block: `MemPtr` as an offset, `remaining`, and `Bytes_read` or `Bytes_write` of
    the call of `read_block_from_uart` or `write_block_to_uart` that goes on. -/
structure Call where
  memPtr : Nat
  remaining : Nat
  bytes : Nat
  deriving DecidableEq

inductive Answer where
  | moved (n : Nat)
  | busy
  deriving DecidableEq

def Call.returned (c : Call) : Answer → Option Int
  | .moved n => if c.remaining - (c.bytes + n) ≠ 0 then none else some rwSuccess
  | .busy => some c.bytes

def Call.next (c : Call) (a : Answer) : Option Call :=
  match c.returned a with
  | none =>
    match a with
    | .moved n => some { c with bytes := c.bytes + n }
    | .busy => some c
  | some error =>
    if error = rwSuccess then none
    else some ⟨c.memPtr + error.toNat, c.remaining - error.toNat, 0⟩

inductive Writer where
  | sending (data : List Byte) (c : Call) (todo : List (List Byte))
  | done
  deriving DecidableEq

def writeBlocks : List (List Byte) → Writer
  | [] => .done
  | data :: todo => .sending data ⟨0, data.length, 0⟩ todo

def offered (data : List Byte) (c : Call) : List Byte :=
  (data.drop (c.memPtr + c.bytes)).take (c.remaining - c.bytes)

def Writer.step (a : Answer) : Writer → Writer
  | .done => .done
  | .sending data c todo =>
    match c.next a with
    | some c => .sending data c todo
    | none => writeBlocks todo

/-- The flags of the receiver, and what the other parts of its process and the file system hold. -/
structure Config where
  receiveToRam : Bool
  saveToFile : Bool
  /-- What `malloc` returns. -/
  malloc : Nat → List Byte
  malloc_size : ∀ n, (malloc n).length = n
  lookup : List Byte → Option (List Byte)

structure Body where
  header : Header
  /-- `uart_test.data` -/
  data : List Byte
  allRec : Nat
  c : Call
  /-- The size of the block, and those of the blocks after it. -/
  size : Nat
  todo : List Nat
  /-- What was written to the received file. -/
  file : List Byte

inductive Reader where
  | header (recHeader : List Byte) (c : Call)
  | body (b : Body)
  /-- The buffer with `all_rec_tmp`, the file, and the answer of `compare_data` if it was called. -/
  | done (data : List Byte) (allRec : Nat) (file : List Byte) (errors : Option Int)
  | failed
  /-- A read into the buffer leaves it. -/
  | overrun

def memCmp (mem1 mem2 : List Byte) (size : Nat) : Nat :=
  ((List.range size).filter fun i => byteAt mem1 i ≠ byteAt mem2 i).length

def compareBlocks : List Nat → List Byte → List Byte → Nat
  | [], _, _ => 0
  | n :: ns, recBuff, transBuff =>
    memCmp recBuff (transBuff.take n) n + compareBlocks ns (recBuff.drop n) (transBuff.drop n)

def compareData (cfg : Config) (fname : List Byte) (data : List Byte) (size : Nat) : Int :=
  match cfg.lookup fname with
  | none => -1
  | some st =>
    if size ≠ st.length then -2
    else compareBlocks (blockSizes compareBuffer st.length) data st

def received (cfg : Config) (b : Body) : Reader :=
  if cfg.receiveToRam then
    .done b.data b.allRec (if cfg.saveToFile then b.data.take b.allRec else [])
      (some (compareData cfg b.header.transferFname b.data b.allRec))
  else .done b.data b.allRec b.file none

def nextBlock (cfg : Config) (b : Body) : Reader :=
  match b.todo with
  | [] => received cfg b
  | size :: todo =>
    .body { b with
      c := ⟨if cfg.receiveToRam then b.allRec else 0, size, 0⟩
      size := size
      todo := todo }

def blockDone (cfg : Config) (b : Body) : Reader :=
  nextBlock cfg { b with
    allRec := b.allRec + b.size
    file := if cfg.receiveToRam then b.file else b.file ++ b.data.take b.size }

def headerDone (cfg : Config) (recHeader : List Byte) : Reader :=
  let h := headerAt recHeader
  if checkHeader h then
    if cfg.receiveToRam ∧ sizeLimit < h.fileSize then .failed
    else
      nextBlock cfg
        { header := h
          data := cfg.malloc
            (if cfg.receiveToRam then h.fileSize + h.fileSize % 4096 else dataBufferSize)
          allRec := 0
          c := ⟨0, 0, 0⟩
          size := 0
          todo := blockSizes recBlock h.fileSize
          file := [] }
  else .failed

/-- `read` has moved the bytes, or was busy with none. -/
def Reader.step (cfg : Config) (a : Answer) (bytes : List Byte) : Reader → Reader
  | .header recHeader c =>
    match memcpy recHeader (c.memPtr + c.bytes) bytes bytes.length with
    | none => .overrun
    | some recHeader =>
      match c.next a with
      | some c => .header recHeader c
      | none => headerDone cfg recHeader
  | .body b =>
    match memcpy b.data (b.c.memPtr + b.c.bytes) bytes bytes.length with
    | none => .overrun
    | some data =>
      match b.c.next a with
      | some c => .body { b with data := data, c := c }
      | none => blockDone cfg { b with data := data }
  | r => r

def Reader.call : Reader → Option Call
  | .header _ c => some c
  | .body b => some b.c
  | _ => none

/-- The two threads and the line; `sent` and `got` are all bytes so far. -/
structure State where
  writer : Writer
  reader : Reader
  line : List Byte
  sent : List Byte
  got : List Byte

inductive Act where
  | write (a : Answer)
  | read (a : Answer)

def step (cfg : Config) (act : Act) (s : State) : Option State :=
  match act with
  | .write a =>
    match s.writer with
    | .done => none
    | .sending data c todo =>
      match a with
      | .busy => some { s with writer := (Writer.sending data c todo).step .busy }
      | .moved n =>
        if 0 < n ∧ n ≤ c.remaining - c.bytes then
          let bytes := (offered data c).take n
          some { s with
            writer := (Writer.sending data c todo).step (.moved n)
            line := s.line ++ bytes
            sent := s.sent ++ bytes }
        else none
  | .read a =>
    match s.reader.call with
    | none => none
    | some c =>
      match a with
      | .busy => some { s with reader := s.reader.step cfg .busy [] }
      | .moved n =>
        if 0 < n ∧ n ≤ c.remaining - c.bytes ∧ n ≤ s.line.length then
          let bytes := s.line.take n
          some { s with
            reader := s.reader.step cfg (.moved n) bytes
            line := s.line.drop n
            got := s.got ++ bytes }
        else none

def transHeader (path file : List Byte) : Header := ⟨startMessage, path, file.length, stopMessage⟩

def start (path file : List Byte) : State where
  writer := writeBlocks ((transHeader path file).bytes :: pieces (blockSizes transBlock file.length) file)
  reader := .header (List.replicate headerSize 0) ⟨0, headerSize, 0⟩
  line := []
  sent := []
  got := []

end VteUart
