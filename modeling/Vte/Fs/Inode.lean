import Mathlib.Logic.Function.Basic
import Vte.Base.IntLoop
import Vte.Base.Words

/-!
kernel/fs/inode/inode02.c: a tree of files and directories that is generated below a new directory, with
the paths written to `path_list`, and the check that reads them back. The file system does what it is
asked for wherever it can. A program that exits before the check, writes past a buffer or overflows a
counter has no result.
-/
namespace Inode
open IntLoop Multiples Text

structure Params where
  max_depth : Int
  max_breadth : Int
  file_length : Int
deriving DecidableEq

inductive Node where
  | file (content : Str)
  | dir
deriving DecidableEq

abbrev Fs := Str → Option Node

def parent (path : Str) : Str := ((path.reverse.dropWhile (· != '/')).drop 1).reverse

def Fs.mkdir (fs : Fs) (path : Str) : Option Fs :=
  if fs path = none ∧ fs (parent path) = some .dir then some (Function.update fs path (some .dir))
  else none

def Fs.creat (fs : Fs) (path : Str) : Option Fs :=
  if fs path ≠ some .dir ∧ fs (parent path) = some .dir then
    some (Function.update fs path (some (.file [])))
  else none

/-- `write` to a file that was created. -/
def Fs.write (fs : Fs) (path text : Str) : Fs :=
  match fs path with
  | some (.file content) => Function.update fs path (some (.file (content ++ text)))
  | _ => fs

/-- A text with its terminator in a buffer of `size` bytes. -/
def buffer (size : Nat) (s : Str) : Option Str := if s.length < size then some s else none

def pathSize : Nat := 1025

def maxPathStringLength : Nat := 976

structure State where
  /-- the static counter of `get_next_name` -/
  k : Nat
  name : Str
  fs : Fs
  /-- what is in `path_list` -/
  list : Str
  /-- `Maximum path_name length reached` was printed -/
  reported : Bool
  /-- the names that `get_next_name` has given -/
  names : List Str

section names

def nextLetter (c : Char) : Char := Char.ofNat (c.toNat + 1)

def increment_name : Nat → Str → Option Str
  | 0, name => if name[0]? = some 'z' then none else some (name.modify 0 nextLetter)
  | position + 1, name =>
    if name[position + 1]? = some 'z' then increment_name position (name.set (position + 1) 'a')
    else some (name.modify (position + 1) nextLetter)

def get_next_name (st : State) : Option State := do
  let name ← if st.k = 0 then some (List.replicate 8 'a') else increment_name 7 st.name
  some { st with k := if st.k = 0 then 1 else st.k, name, names := st.names ++ [name] }

end names

/-- `escrivez`, which appends a line to `path_list`. -/
def escrivez (st : State) (string : Str) : Option State := do
  let write_string ← buffer pathSize string
  some { st with list := st.list ++ write_string ++ ['\n'] }

/-- The name with its tag, stored in `path_list`. -/
def storeName (st : State) (new_string : Str) (tag : Char) : Option State := do
  let write_string ← buffer pathSize (new_string ++ [tag])
  escrivez st write_string

/-- What a turn of the loop of `generate` changes. -/
structure Turn where
  switch_flag : Bool
  ret_val : Int
  st : State

def newFile (p : Params) (st : State) (new_string : Str) : Option (Except (Int × State) State) :=
  match st.fs.creat new_string with
  | none => some (.error (-2, st))
  | some fs => do
    let fs ← intLoop (fun _ fs => some (fs.write new_string new_string)) p.file_length.toNat 1 fs
    let st ← storeName { st with fs } new_string 'F'
    some (.ok st)

def newDirectory (below : Str → State → Option (Int × State)) (st : State) (new_string : Str) :
    Option (Except (Int × State) (Int × State)) :=
  match st.fs.mkdir new_string with
  | none => some (.error (-5, st))
  | some fs => do
    let st ← storeName { st with fs } new_string 'D'
    let (new_ret_val, st) ← below new_string st
    some (.ok (if new_ret_val < 0 then new_ret_val else 0, st))

def turn (p : Params) (below : Str → State → Option (Int × State)) (string : Str) (_i : Nat) (t : Turn) :
    Option (Except (Int × State) Turn) := do
  let st ← get_next_name t.st
  let new_string ← buffer pathSize (string ++ '/' :: st.name)
  if t.switch_flag then
    match ← newFile p st new_string with
    | .error left => some (.error left)
    | .ok st => some (.ok ⟨false, t.ret_val, st⟩)
  else
    match ← newDirectory below st new_string with
    | .error left => some (.error left)
    | .ok (ret_val, st) => some (.ok ⟨true, ret_val, st⟩)

/-- `left` levels are allowed from this one on. -/
def generate (p : Params) : Nat → Str → Nat → State → Option (Int × State)
  | left, string, level, st =>
    if maxPathStringLength ≤ string.length then some (-1, { st with reported := true })
    else
      match left with
      | 0 => some (0, st)
      | left + 1 => do
        let new_level := level + 1
        let below := fun new_string st => generate p left new_string new_level st
        match ← intLoopE (turn p below string) (p.max_breadth + 1).toNat 0 ⟨level % 2 = 1, 0, st⟩ with
        | .error result => some result
        | .ok t => some (t.ret_val, t.st)

/-- What is still to be read of an open file, if it can be read, and `ret_len`. -/
abbrev Reading := Option Str × Int

def readTurn (path_string : Str) (_j : Nat) (r : Reading) : Option (Except Int Reading) :=
  match r.1 with
  | none => some (.error (-3))
  | some content => do
    let len := path_string.length
    let read_string ← buffer pathSize (content.take len)
    if read_string.length ≠ len then some (.error (-3))
    else if read_string ≠ path_string then some (.error (-4))
    else some (.ok (some (content.drop len), len))

def checkFile (p : Params) (path_string : Str) (content : Option Str) : Option (Except Int Unit) := do
  match ← intLoopE (readTurn path_string) p.file_length.toNat 1 (content, 0) with
  | .error val => some (.error val)
  | .ok (_, ret_len) => if ret_len ≤ 0 then some (.error (-2)) else some (.ok ())

def checkRecord (p : Params) (fs : Fs) (record : Str) : Option (Except Int Unit) := do
  let record ← buffer pathSize record
  let path_string := record.dropLast
  if record.getLast? = some 'F' then
    match fs path_string with
    | none => some (.error (-1))
    | some (.file content) => checkFile p path_string (some content)
    | some .dir => checkFile p path_string none
  else
    match fs path_string with
    | none => some (.error (-4))
    | some (.file _) => some (.error (-5))
    | some .dir => some (.ok ())

def checkRecords (p : Params) (fs : Fs) : List Str → Option Int
  | [] => some 0
  | record :: records => do
    match ← checkRecord p fs record with
    | .error val => some val
    | .ok _ => checkRecords p fs records

/-- `fscanf` with `%s` reads the words of the list one after the other. -/
def check (p : Params) (st : State) : Option Int := checkRecords p st.fs (tokens isSpace st.list)

structure Outcome where
  gen_ret_val : Int
  ch_ret_val : Int
  st : State

def Outcome.exit_val (out : Outcome) : Int :=
  if out.gen_ret_val > out.ch_ret_val then out.ch_ret_val else out.gen_ret_val

/-- `sprintf(path_string, "inode02.%d", getpid())` -/
def rootPath (pid : Nat) : Str := ['i', 'n', 'o', 'd', 'e', '0', '2', '.'] ++ decimal pid

def emptyFs : Fs := fun path => if path = [] then some .dir else none

def tree (p : Params) (pid : Nat) : Option Outcome := do
  let path_string ← buffer pathSize (rootPath pid)
  let fs ← emptyFs.mkdir path_string
  let _remove_string ← buffer (pathSize + 9) (['r', 'm', ' ', '-', 'r', 'f', ' '] ++ path_string)
  let _path_list_string ←
    buffer (pathSize + 9) (path_string ++ ['/', 'p', 'a', 't', 'h', '_', 'l', 'i', 's', 't'])
  let st ← storeName ⟨0, [], fs, [], false, []⟩ path_string 'D'
  let (gen_ret_val, st) ← generate p p.max_depth.toNat path_string 0 st
  let ch_ret_val ← check p st
  some ⟨gen_ret_val, ch_ret_val, st⟩

end Inode
