import Mathlib.Data.List.Basic

/-!
Directory trees: what a directory lists, in the order in which it is read, the object at a path of names,
and the objects below a directory with their paths.
-/
namespace DirTree
variable {N α : Type}

/-- The entries of a directory from one of them on: the directory itself, its parent, an object that is not
a directory, or a directory with its own entries. -/
inductive Listing (N α : Type)
  | done : Listing N α
  | dot : Listing N α → Listing N α
  | dotdot : Listing N α → Listing N α
  | leaf : N → α → Listing N α → Listing N α
  | dir : N → Listing N α → Listing N α → Listing N α

/-- What `lstat` tells: not a directory, or one. -/
inductive Object (N α : Type)
  | leaf : α → Object N α
  | dir : Listing N α → Object N α

def stream (dot dotdot : N) : Listing N α → List N
  | .done => []
  | .dot rest => dot :: stream dot dotdot rest
  | .dotdot rest => dotdot :: stream dot dotdot rest
  | .leaf name _ rest => name :: stream dot dotdot rest
  | .dir name _ rest => name :: stream dot dotdot rest

def names : Listing N α → List N
  | .done => []
  | .dot rest => names rest
  | .dotdot rest => names rest
  | .leaf name _ rest => name :: names rest
  | .dir name _ rest => name :: names rest

def find [DecidableEq N] (name : N) : Listing N α → Option (Object N α)
  | .done => none
  | .dot rest => find name rest
  | .dotdot rest => find name rest
  | .leaf name' a rest => if name' = name then some (.leaf a) else find name rest
  | .dir name' below rest => if name' = name then some (.dir below) else find name rest

def lookup [DecidableEq N] (l : Listing N α) : List N → Option (Object N α)
  | [] => some (.dir l)
  | name :: path =>
    match find name l with
    | some (.leaf a) => if path = [] then some (.leaf a) else none
    | some (.dir below) => lookup below path
    | none => none

def leaves : Listing N α → List (List N × α)
  | .done => []
  | .dot rest => leaves rest
  | .dotdot rest => leaves rest
  | .leaf name a rest => ([name], a) :: leaves rest
  | .dir name below rest => (leaves below).map (fun f => (name :: f.1, f.2)) ++ leaves rest

def depth : Listing N α → Nat
  | .done => 0
  | .dot rest => depth rest
  | .dotdot rest => depth rest
  | .leaf _ _ rest => max 1 (depth rest)
  | .dir _ below rest => max (depth below + 1) (depth rest)

def Proper (good : N → Prop) : Listing N α → Prop
  | .done => True
  | .dot rest => Proper good rest
  | .dotdot rest => Proper good rest
  | .leaf name _ rest => good name ∧ name ∉ names rest ∧ Proper good rest
  | .dir name below rest => good name ∧ name ∉ names rest ∧ Proper good below ∧ Proper good rest

instance Proper.decidable [DecidableEq N] {good : N → Prop} [DecidablePred good] :
    (l : Listing N α) → Decidable (Proper good l)
  | .done => .isTrue trivial
  | .dot rest => Proper.decidable rest
  | .dotdot rest => Proper.decidable rest
  | .leaf _ _ rest => @instDecidableAnd _ _ inferInstance
      (@instDecidableAnd _ _ inferInstance (Proper.decidable rest))
  | .dir _ below rest => @instDecidableAnd _ _ inferInstance
      (@instDecidableAnd _ _ inferInstance
        (@instDecidableAnd _ _ (Proper.decidable below) (Proper.decidable rest)))

variable [DecidableEq N] {l rest root below : Listing N α} {name : N} {path path' : List N} {a : α}
  {o : Object N α}

theorem find_name (found : find name l = some o) : name ∈ names l := by
  induction l with
  | done => cases found
  | dot rest ih => exact ih found
  | dotdot rest ih => exact ih found
  | leaf name' a rest ih =>
    rw [find] at found
    split at found
    · rename_i same
      exact same ▸ List.mem_cons_self
    · exact List.mem_cons_of_mem _ (ih found)
  | dir name' below rest _ ih =>
    rw [find] at found
    split at found
    · rename_i same
      exact same ▸ List.mem_cons_self
    · exact List.mem_cons_of_mem _ (ih found)

theorem lookup_name (found : lookup l (name :: path) = some o) : name ∈ names l := by
  rw [lookup] at found
  cases here : find name l with
  | none =>
    rw [here] at found
    cases found
  | some _ => exact find_name here

theorem lookup_append (at_path : lookup root path = some (.dir l)) (path' : List N) :
    lookup root (path ++ path') = lookup l path' := by
  induction path generalizing root with
  | nil =>
    cases at_path
    rfl
  | cons name path ih =>
    rw [lookup] at at_path
    rw [List.cons_append, lookup]
    cases here : find name root with
    | none =>
      rw [here] at at_path
      cases at_path
    | some o =>
      rw [here] at at_path
      cases o with
      | leaf a =>
        dsimp only at at_path
        split at at_path <;> cases at_path
      | dir below => exact ih at_path

/-- What `l` lists stands below the path. -/
def Within (root : Listing N α) (path : List N) (l : Listing N α) : Prop :=
  ∀ name path' o, lookup l (name :: path') = some o → lookup root (path ++ name :: path') = some o

theorem within_dir (at_path : lookup root path = some (.dir l)) : Within root path l := by
  intro name path' o found
  rw [lookup_append at_path, found]

theorem within_leaf (inside : Within root path (.leaf name a rest)) :
    lookup root (path ++ [name]) = some (.leaf a) := by
  apply inside
  rw [lookup, find, if_pos rfl]
  rfl

theorem within_below (inside : Within root path (.dir name below rest)) :
    lookup root (path ++ [name]) = some (.dir below) := by
  apply inside
  rw [lookup, find, if_pos rfl]
  rfl

theorem within_leaf_rest (fresh : name ∉ names rest)
    (inside : Within root path (.leaf name a rest)) : Within root path rest := by
  intro name' path' o found
  apply inside
  have other : name ≠ name' := fun same => fresh (same ▸ lookup_name found)
  rw [lookup, find, if_neg other]
  rwa [lookup] at found

theorem within_dir_rest (fresh : name ∉ names rest)
    (inside : Within root path (.dir name below rest)) : Within root path rest := by
  intro name' path' o found
  apply inside
  have other : name ≠ name' := fun same => fresh (same ▸ lookup_name found)
  rw [lookup, find, if_neg other]
  rwa [lookup] at found

end DirTree
