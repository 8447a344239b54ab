import Vte.Base.Bytes
import Vte.Base.Chunks
import Vte.Base.Digits

/-!
tools/ihex2bin.py: `ihex` reads the records of an Intel-HEX text, `flatten` lays their data out in one
string. An exception ends the run; what is only printed is kept beside the result.
-/
namespace Ihex2bin
open Bytes Chunks Digits Text

inductive Exn where
  | invalidInitial (c : Char) (line_no : Nat)
  | lineLength (line_no : Nat)
  | checksum (line_no : Nat)
  /-- an index behind the end of a list or string -/
  | index
  /-- a text that is no number, or a number that is no character -/
  | value
  /-- `overlapping sections in file` -/
  | overlapping
deriving DecidableEq

inductive Notice where
  /-- `data length does not match length field` -/
  | length (line_no : Nat)
  /-- `start address set twice` -/
  | startTwice (line_no : Nat)
deriving DecidableEq

structure DataRec where
  addr : Int
  data : List Byte
deriving DecidableEq

structure Ihex where
  data : List DataRec
  start_addr : Option Int
  printed : List Notice
deriving DecidableEq

def strip (s : Str) : Str := ((s.dropWhile isSpace).reverse.dropWhile isSpace).reverse

def fileLines (text : Str) : List Str :=
  let pieces := text.splitOn '\n'
  if pieces.getLast? = some [] then pieces.dropLast else pieces

/-- `int` of two characters, to base 16: blanks around a digit are left out, and a sign may come first. -/
def int16 (a b : Char) : Option Int :=
  if digit a < 16 ∧ digit b < 16 then some ((16 * digit a + digit b : Nat) : Int)
  else if digit b < 16 ∧ (isSpace a = true ∨ a = '+') then some (digit b : Int)
  else if digit b < 16 ∧ a = '-' then some (-(digit b : Int))
  else if digit a < 16 ∧ isSpace b = true then some (digit a : Int)
  else none

def values : Str → Option (List Int)
  | [] => some []
  | [_] => none
  | a :: b :: rest => do
    let val ← int16 a b
    let vals ← values rest
    some (val :: vals)

def multi_val (data : List Int) : Int := data.foldl (fun sum val => sum * 0x100 + val) 0

def intlist_tostr (list : List Int) : Option (List Byte) :=
  if ∀ c ∈ list, 0 ≤ c ∧ c < 256 then some (list.map fun c => BitVec.ofInt 8 c) else none

def line_parse (hexstring : Str) (line_no : Nat) : Except Exn (Int × Int × Int × List Int) :=
  match values hexstring with
  | none => .error .value
  | some tmp_list =>
    if tmp_list.sum % 0x100 ≠ 0 then .error (.checksum line_no)
    else
      match tmp_list[0]?, tmp_list[3]? with
      | some l, some type => .ok (l, multi_val ((tmp_list.drop 1).take 2), type, tmp_list.dropLast.drop 4)
      | _, _ => .error .index

section parse

def startAddress (self : Ihex) (line_no : Nat) (addr : Int) : Ihex :=
  let twice := self.start_addr ≠ none ∧ self.start_addr ≠ some 0
  { self with
    start_addr := some addr
    printed := if twice then self.printed ++ [.startTwice line_no] else self.printed }

/-- The object and `base_addr` after a record, and whether it ends the file. -/
def record (self : Ihex) (base_addr : Int) (line_no : Nat) (fields : Int × Int × Int × List Int) :
    Except Exn (Ihex × Int × Bool) :=
  let (l, addr, type, data) := fields
  let self :=
    if l ≠ data.length then { self with printed := self.printed ++ [.length line_no] } else self
  if type = 1 then .ok (self, base_addr, true)
  else
    let base_addr := if type = 2 then 0x10 * multi_val data else base_addr
    let base_addr := if type = 4 then 0x10000 * multi_val data else base_addr
    let self := if type = 3 ∨ type = 5 then startAddress self line_no (multi_val data) else self
    if type = 0 then
      match intlist_tostr data with
      | none => .error .value
      | some strdata =>
        .ok ({ self with data := self.data ++ [⟨addr + base_addr, strdata⟩] }, base_addr, false)
    else .ok (self, base_addr, false)

def parseLine (self : Ihex) (base_addr : Int) (line_no : Nat) (line : Str) :
    Except Exn (Ihex × Int × Bool) := do
  match strip line with
  | [] => .error .index
  | c :: hexstring =>
    if c ≠ ':' then .error (.invalidInitial c line_no)
    else if hexstring.length % 2 ≠ 0 then .error (.lineLength line_no)
    else
      let fields ← line_parse hexstring line_no
      record self base_addr line_no fields

def parseLines : List Str → Ihex → Int → Nat → Except Exn Ihex
  | [], self, _, _ => .ok self
  | line :: lines, self, base_addr, line_no => do
    let (self, base_addr, ended) ← parseLine self base_addr (line_no + 1) line
    if ended then .ok self else parseLines lines self base_addr (line_no + 1)

def init (text : Str) : Except Exn Ihex := parseLines (fileLines text) ⟨[], none, []⟩ 0 0

end parse

section flatten

def padding (fill : Byte) (len : Nat) : List Byte := List.replicate len fill

def joinSections (fill : Byte) : List (Int × List Byte) → Int → List Byte → Except Exn (List Byte)
  | [], _, data => .ok data
  | (addr, strdata) :: rest, last_addr, data =>
    let l : Int := strdata.length
    let pad := addr - last_addr
    if pad < 0 then .error .overlapping
    else if pad > 0 then
      joinSections fill rest (last_addr + (l + pad)) (data ++ padding fill pad.toNat ++ strdata)
    else joinSections fill rest (last_addr + l) (data ++ strdata)

def flatten (self : Ihex) (fill : Byte) : Except Exn (Int × List Byte) :=
  let sort_list := (self.data.map fun d => (d.addr, d.data)).mergeSort fun x y => x.1 ≤ y.1
  match sort_list with
  | [] => .error .index
  | e :: _ => (joinSections fill sort_list e.1 []).map fun data => (e.1, data)

end flatten

def convert (text : Str) (fill : Byte) : Except Exn (Int × List Byte) := do
  let self ← init text
  flatten self fill

section records

inductive Rec where
  | data (offset : Nat) (bytes : List Byte)
  | segment (paragraph : Nat)
  | linear (high : Nat)
  | startSegment (cs ip : Nat)
  | startLinear (eip : Nat)
deriving DecidableEq

def twoBytes (n : Nat) : List Byte := [BitVec.ofNat 8 (n / 256), BitVec.ofNat 8 (n % 256)]

def Rec.bytes : Rec → List Byte
  | .data offset bytes => BitVec.ofNat 8 bytes.length :: twoBytes offset ++ 0 :: bytes
  | .segment paragraph => [2, 0, 0, 2] ++ twoBytes paragraph
  | .linear high => [2, 0, 0, 4] ++ twoBytes high
  | .startSegment cs ip => [4, 0, 0, 3] ++ twoBytes cs ++ twoBytes ip
  | .startLinear eip => [4, 0, 0, 5] ++ twoBytes (eip / 65536) ++ twoBytes (eip % 65536)

def Rec.Valid : Rec → Prop
  | .data offset bytes => bytes ≠ [] ∧ bytes.length < 256 ∧ offset + bytes.length ≤ 65536
  | .segment paragraph => paragraph < 65536
  | .linear high => high < 65536
  | .startSegment cs ip => cs < 65536 ∧ ip < 65536
  | .startLinear eip => eip < 4294967296

inductive Hex : List Byte → Str → Prop
  | nil : Hex [] []
  | cons {b : Byte} {bs : List Byte} {high low : Char} {s : Str} (at_high : digit high = b.toNat / 16)
    (at_low : digit low = b.toNat % 16) (rest : Hex bs s) : Hex (b :: bs) (high :: low :: s)

def Written (bs : List Byte) (line : Str) : Prop :=
  ∃ (checksum : Byte) (s : Str), Hex (bs ++ [checksum]) s ∧ strip line = ':' :: s ∧
    ((bs ++ [checksum]).map BitVec.toNat).sum % 256 = 0

def chunksFrom : Nat → List Rec → List (Int × List Byte)
  | _, [] => []
  | base, .data offset bytes :: recs => (((base + offset : Nat) : Int), bytes) :: chunksFrom base recs
  | _, .segment paragraph :: recs => chunksFrom (16 * paragraph) recs
  | _, .linear high :: recs => chunksFrom (65536 * high) recs
  | base, .startSegment _ _ :: recs => chunksFrom base recs
  | base, .startLinear _ :: recs => chunksFrom base recs

/-- The text has a line for each record, then the one that ends the file, and then any others. -/
structure Spells (recs : List Rec) (text : Str) : Prop where
  valid : ∀ r ∈ recs, r.Valid
  lines : ∃ written last later, fileLines text = written ++ last :: later ∧
    List.Forall₂ (fun r line => Written r.bytes line) recs written ∧ Written [0, 0, 0, 1] last

def Encodes (map : Int → Option Byte) (recs : List Rec) : Prop :=
  ∀ a b, map a = some b ↔ HoldsIn (chunksFrom 0 recs) a b

def Overlap (recs : List Rec) : Prop :=
  ¬ (chunksFrom 0 recs).Pairwise fun c d => ¬ Meet c d

/-- The string has the bytes of the map from `start`, its lowest address, to its highest one, and the filler
where the map has none. -/
structure Image (map : Int → Option Byte) (fill : Byte) (start : Int) (s : List Byte) : Prop where
  first : map start ≠ none
  lowest : ∀ a, map a ≠ none → start ≤ a
  mapped : ∀ a b, map a = some b → s[(a - start).toNat]? = some b
  gaps : ∀ i < s.length, map (start + (i : Int)) = none → s[i]? = some fill
  highest : map (start + s.length - 1) ≠ none

end records
end Ihex2bin
