import Vte.Base.FileTree
import Vte.Base.Text

/-!
lib/rmobj.c: `rmobj`, which removes an object and, if it is a directory, everything in it, and goes on with the other
entries of a directory when one of them cannot be removed.
-/
namespace Rmobj
open Text FileTree

def PATH_MAX : Nat := 4096

def ERR_MSG : Nat := 1024

def ENOENT : Nat := 2
def ENOTDIR : Nat := 20
def EISDIR : Nat := 21
def ENOTEMPTY : Nat := 39

inductive Kind
  /-- with so many further links -/
  | directory (links : Nat)
  /-- with the place that it leads to -/
  | symlink (leads : List Str)
  | other
deriving DecidableEq

def Kind.isDirectory : Kind → Bool
  | .directory _ => true
  | _ => false

abbrev Fs := Files Str Kind

/-- Where `lstat`, `opendir` and the removal of an object fail, with the values of `errno`. -/
structure Kernel where
  unseen : List Str → Option Nat
  unlisted : List Str → Option Nat
  refused : List Str → Option Nat
  strerror : Nat → Str

inductive Call
  | lstat
  | rmdir
  | unlink
  | remove
deriving DecidableEq

def Call.name : Call → Str
  | .lstat => "lstat".toList
  | .rmdir => "rmdir".toList
  | .unlink => "unlink".toList
  | .remove => "remove".toList

def dot : Str := ['.']
def dotdot : Str := ['.', '.']
def slash : Str := ['/']

def enter (fs : Fs) (p : List Str) : List Str :=
  match kindAt fs p with
  | some (.symlink leads) => leads
  | _ => p

def place (fs : Fs) : List Str → List Str → List Str
  | p, [] => p
  | p, name :: names => place fs (enter fs p ++ [name]) names

section kernel
variable (k : Kernel)

def lstat (fs : Fs) (p : List Str) : Except Nat Kind :=
  match k.unseen p with
  | some e => .error e
  | none =>
    match kindAt fs p with
    | none => .error ENOENT
    | some kind => .ok kind

def st_nlink (fs : Fs) (p : List Str) : Kind → Nat
  | .directory links =>
    2 + links + (children fs p).countP fun name => ((kindAt fs (p ++ [name])).map Kind.isDirectory).getD false
  | _ => 1

/-- The names that `readdir` returns one after the other. -/
def opendir (fs : Fs) (p : List Str) : Except Nat (List Str) :=
  match k.unlisted (enter fs p) with
  | some e => .error e
  | none => .ok (dot :: dotdot :: children fs (enter fs p))

def take (fs : Fs) (p : List Str) : Except Nat Fs :=
  match k.refused p with
  | some e => .error e
  | none => .ok (drop fs p)

def rmdir (fs : Fs) (p : List Str) : Except Nat Fs :=
  match kindAt fs p with
  | none => .error ENOENT
  | some (.directory _) =>
    match k.refused p with
    | some e => .error e
    | none => if children fs p = [] then take k fs p else .error ENOTEMPTY
  | some _ => .error ENOTDIR

def unlink (fs : Fs) (p : List Str) : Except Nat Fs :=
  match kindAt fs p with
  | none => .error ENOENT
  | some (.directory links) => if links = 0 then .error EISDIR else rmdir k fs p
  | some _ => take k fs p

def remove (fs : Fs) (p : List Str) : Except Nat Fs :=
  match kindAt fs p with
  | some (.directory _) => rmdir k fs p
  | _ => unlink k fs p

end kernel

/-- With everything that has been formatted into `dirobj` and `err_msg`. -/
structure State where
  fs : Fs
  errmsg : Option Str
  dirobjs : List Str
  messages : List Str

section program
variable (k : Kernel) (top : List Str) (obj : Str) (wanted : Bool)

def text (names : List Str) : Str := obj ++ names.flatMap fun name => '/' :: name

def message (call : Call) (names : List Str) (errno : Nat) : Str :=
  call.name ++ "(".toList ++ text obj names ++ ") failed; errno=".toList ++ decimal errno ++ ": ".toList ++
    k.strerror errno

def report (message : Str) (s : State) : State :=
  if wanted then { s with errmsg := some message, messages := s.messages ++ [message] } else s

def finish (call : Call) (names : List Str) (removed : Except Nat Fs) (s : State) : Int × State :=
  match removed with
  | .error errno => (-1, report wanted (message k obj call names errno) s)
  | .ok fs => (0, { s with fs := fs })

/-- The loop over what `readdir` returns. -/
def entries (rmobj : List Str → State → Option (Int × State)) (names : List Str) :
    List Str → Int → State → Option (Int × State)
  | [], ret_val, s => some (ret_val, s)
  | d_name :: stream, ret_val, s =>
    if d_name = dot ∨ d_name = dotdot then entries rmobj names stream ret_val s
    else
      let dirobj := names ++ [d_name]
      match rmobj dirobj { s with dirobjs := s.dirobjs ++ [text obj dirobj] } with
      | none => none
      | some (value, s) => entries rmobj names stream (if value ≠ 0 then -1 else ret_val) s

/-- What the caller's `obj` names is at `top`; `names` is what has been added to it. -/
def rmobj : Nat → List Str → State → Option (Int × State)
  | 0, _, _ => none
  | fuel + 1, names, s =>
    let p := place s.fs top names
    match lstat k s.fs p with
    | .error errno => some (finish k obj wanted .lstat names (.error errno) s)
    | .ok (.directory _) =>
      if text obj names = slash then some (-1, report wanted "Cannot remove /".toList s)
      else
        match opendir k s.fs p with
        | .error _ => some (finish k obj wanted .rmdir names (rmdir k s.fs p) s)
        | .ok stream =>
          match entries obj (rmobj fuel) names stream 0 s with
          | none => none
          | some (ret_val, s) =>
            if ret_val = -1 then some (-1, s)
            else
              let p := place s.fs top names
              match lstat k s.fs p with
              | .error errno => some (finish k obj wanted .lstat names (.error errno) s)
              | .ok kind =>
                if 3 ≤ st_nlink s.fs p kind then some (finish k obj wanted .unlink names (unlink k s.fs p) s)
                else some (finish k obj wanted .remove names (remove k s.fs p) s)
    | .ok _ => some (finish k obj wanted .unlink names (unlink k s.fs p) s)

/-- No path that `dirobj` has room for has more names. -/
def run (fs : Fs) : Option (Int × State) := rmobj k top obj wanted PATH_MAX [] ⟨fs, none, [], []⟩

end program

structure WellFormed (fs : Fs) : Prop where
  tree : Tree Kind.isDirectory fs
  proper : ∀ e ∈ fs, ∀ name ∈ e.1, name ≠ [] ∧ name ≠ dot ∧ name ≠ dotdot

/-- It cannot be removed, or cannot be found by someone who starts at `top`. -/
def Refuses (k : Kernel) (top p : List Str) : Prop :=
  k.refused p ≠ none ∨ ∃ q, top <+: q ∧ q <+: p ∧ (k.unseen q ≠ none ∨ q ≠ p ∧ k.unlisted q ≠ none)

def Reached (k : Kernel) (top p : List Str) : Prop :=
  ∀ q, top <+: q → q <+: p → q ≠ p → k.unseen q = none ∧ k.unlisted q = none

/-- The calls that fail, with their errors: for a directory that can be listed only if all of its entries can be
removed. -/
inductive Fails (k : Kernel) (top : List Str) (fs : Fs) (p : List Str) : Call → Nat → Prop
  | lstat {kind e} (reached : Reached k top p) (found : (p, kind) ∈ fs) (unseen : k.unseen p = some e) :
    Fails k top fs p .lstat e
  | rmdir {links e} (reached : Reached k top p) (found : (p, .directory links) ∈ fs) (seen : k.unseen p = none)
    (unlisted : k.unlisted p ≠ none)
    (refused : k.refused p = some e ∨ (k.refused p = none ∧ e = ENOTEMPTY ∧ ∃ name, name ∈ children fs p)) :
    Fails k top fs p .rmdir e
  | remove {links e} (reached : Reached k top p) (found : (p, .directory links) ∈ fs) (seen : k.unseen p = none)
    (listed : k.unlisted p = none) (empties : ∀ name ∈ children fs p, ¬ Stays (Refuses k top) fs (p ++ [name]))
    (refused : k.refused p = some e) : Fails k top fs p (if links = 0 then .remove else .unlink) e
  | unlink {kind e} (reached : Reached k top p) (found : (p, kind) ∈ fs) (leaf : kind.isDirectory = false)
    (seen : k.unseen p = none) (refused : k.refused p = some e) : Fails k top fs p .unlink e

/-- What is promised of a call for the object at `top`. -/
structure Sound (k : Kernel) (top : List Str) (fs : Fs) (r : Int × State) : Prop where
  zero : r.1 = 0 ↔ ∀ e ∈ r.2.fs, ¬ top <+: e.1
  failed : r.1 ≠ 0 → r.1 = -1 ∧ r.2.errmsg ≠ none
  outside : ∀ e, ¬ top <+: e.1 → (e ∈ r.2.fs ↔ e ∈ fs)
  left : ∀ e, top <+: e.1 → (e ∈ r.2.fs ↔ e ∈ fs ∧ Stays (Refuses k top) fs e.1)
  dirobjs : ∀ path ∈ r.2.dirobjs, path.length < PATH_MAX
  messages : ∀ message ∈ r.2.messages, message.length < ERR_MSG

end Rmobj
