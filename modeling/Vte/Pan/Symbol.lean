import Vte.Base.Assoc
import Vte.Base.Text

/-!
pan/symbol.c: a hierarchical symbol table, keyed by strings of components separated by commas.
The entries of a table keep the order in which they were added. An outer `none` stands for a
write or read through a NULL pointer.
-/
namespace VteSymbol
open Text Assoc

/-- The data of a node: NULL, a string, or another table (told apart by its magic number). -/
inductive Sym where
  | null
  | leaf (data : Str)
  | table (entries : List (Str × Sym))

abbrev Table := List (Str × Sym)

inductive Status where
  | ok
  | exist
  | notDir
  | inval
  deriving DecidableEq

def components (key : Str) : List Str := tokens (· == ',') key

def chain (data : Sym) : List Str → Sym
  | [] => data
  | k :: ks => .table [(k, chain data ks)]

def putKeys (data : Sym) (replace : Bool) : List Str → Table → Table × Status
  | [], entries => (entries, .exist)
  | k :: ks, entries =>
    match find k entries with
    | none => (entries ++ [(k, chain data ks)], .ok)
    | some found =>
      if ks = [] then
        if replace then (upsert k (fun _ => data) entries, .ok) else (entries, .exist)
      else
        match found with
        | .table sub =>
          let (sub, status) := putKeys data replace ks sub
          (upsert k (fun _ => .table sub) entries, status)
        | _ => (entries, .notDir)

def symPut (sym : Option Table) (key : Str) (data : Sym) (replace : Bool) :
    Option (Option Table × Status) :=
  match sym with
  | none => some (none, .inval)
  | some entries =>
    if components key = [] ∧ replace then none
    else
      let (entries, status) := putKeys data replace (components key) entries
      some (some entries, status)

def getKeys : List Str → Table → Option Sym
  | [], _ => none
  | k :: ks, entries =>
    match find k entries with
    | none => none
    | some found =>
      if ks = [] then some found
      else
        match found with
        | .table sub => getKeys ks sub
        | _ => none

def symGet (sym : Option Table) (key : Str) : Option Sym :=
  match sym with
  | none => some .null
  | some entries =>
    if components key = [] then none else some ((getKeys (components key) entries).getD .null)

theorem components_cons {w : Str} (some_word : w ≠ []) (word : ',' ∉ w) (rest : Str) :
    components (w ++ ',' :: rest) = w :: components rest := by
  have ends : ∀ c ∈ (',' :: rest).head?, (c == ',') = true := by simp
  rw [components, tokens_word some_word (without_separator word) ends, tokens_separator (by simp)]
  rfl

theorem components_single {w : Str} (some_word : w ≠ []) (word : ',' ∉ w) : components w = [w] := by
  rw [components]
  exact tokens_alone some_word (without_separator word)

section put
variable {k k' : Str} {data : Sym} {entries : Table}

theorem put_single (replace : Bool) (fresh : replace = false → find k entries = none) :
    putKeys data replace [k] entries = (upsert k (fun _ => data) entries, .ok) := by
  rw [putKeys]
  cases found : find k entries with
  | none => rw [upsert_absent found, chain]
  | some old =>
    cases replace with
    | false => cases (fresh rfl).symm.trans found
    | true => simp

end put
end VteSymbol
