import Mathlib.Data.BitVec
import Vte.Base.CString
import Vte.Base.Digits
import Vte.Base.DirTree
import Vte.Base.Memory

/-!
controllers/libcontrollers/libcontrollers.c: `scan_shares_files`, which adds up the `cpu.shares` files below
the mount point of the controller and keeps the path it has reached in one buffer for all levels.
-/
namespace ScanShares
open Text Digits CString DirTree Memory

def PATH_MAX : Nat := 4096

/-- The globals of the library, and the total that `shares_pointer` points to. -/
structure Globals where
  fullpath : Str
  FLAG : Int
  dir_pointer : Option Str
  retval : Int
  shares : BitVec 32

abbrev Files := Listing Str Str

def components (path : Str) : List Str := tokens (· == '/') path

def resolve (fs : Files) (path : Str) : Option (Object Str Str) := lookup fs (components path)

def ULONG_MAX : Nat := 18446744073709551615

/-- `fscanf(fp, "%u", &shares)`; none when the text does not start with a number, which leaves `shares` as
    it was. -/
def fscanf_u (text : Str) : Option (BitVec 32) :=
  let (negative, digits) := signOf (text.dropWhile isSpace)
  let digits := digits.takeWhile Char.isDigit
  if digits = [] then none
  else
    let n := number 10 digits
    if ULONG_MAX < n then some (BitVec.ofNat 32 ULONG_MAX)
    else if negative then some (-BitVec.ofNat 32 n)
    else some (BitVec.ofNat 32 n)

section scan
variable (fs : Files)

def read_shares_file (filepath : Str) : Option (BitVec 32) :=
  match resolve fs filepath with
  | some (.leaf text) => fscanf_u text
  | _ => none

def default_shares : Str := "/dev/cpuctl/cpu.shares".toList
def cpu_shares : Str := "cpu.shares".toList

/-- The loop over the names that `readdir` returns; `path_pointer` is where they go. -/
def entries (scan : Globals → Option (Int × Globals)) (path_pointer : Nat) :
    List Str → Globals → Option Globals
  | [], g => some { g with dir_pointer := none }
  | d_name :: stream, g =>
    if d_name = ['.'] ∨ d_name = ['.', '.'] then
      entries scan path_pointer stream { g with dir_pointer := some d_name }
    else do
      let fullpath ← store g.fullpath path_pointer (d_name ++ [nul])
      let (retval, g) ← scan { g with dir_pointer := some d_name, FLAG := 1, fullpath }
      if retval ≠ 0 then some { g with retval }
      else entries scan path_pointer stream { g with retval }

/-- The value and the globals after the call, which nests at most `fuel` deep; none as well where the source
    has reported an error and goes on with what the failed call has not given. -/
def scan_shares_files : Nat → Globals → Option (Int × Globals)
  | 0, _ => none
  | fuel + 1, g => do
    let path ← cstr g.fullpath 0
    match ← resolve fs path with
    | .leaf _ =>
      if g.FLAG = 1 ∧ path ≠ default_shares then do
        let d_name ← g.dir_pointer
        if d_name = cpu_shares then do
          let value ← read_shares_file fs path
          some (0, { g with shares := g.shares + value })
        else some (0, g)
      else some (0, g)
    | .dir _ =>
      let fullpath ← store g.fullpath path.length ['/']
      let fullpath ← store fullpath (path.length + 1) [nul]
      let opened ← cstr fullpath 0
      match ← resolve fs opened with
      | .leaf _ => none
      | .dir listing =>
        let g ← entries (scan_shares_files fuel) (path.length + 1)
          (stream ['.'] ['.', '.'] listing) { g with fullpath }
        let fullpath ← store g.fullpath path.length [nul]
        some (0, { g with fullpath })

end scan

def Good (name : Str) : Prop :=
  name ≠ [] ∧ '/' ∉ name ∧ nul ∉ name ∧ name ≠ ['.'] ∧ name ≠ ['.', '.']

instance (name : Str) : Decidable (Good name) := inferInstanceAs (Decidable (_ ∧ _))

def spell (path : List Str) : Str := path.flatMap fun name => '/' :: name

/-- The path to each directory, of `len` characters here, and to each entry fits the buffer with the slash
that the scan puts behind a directory. -/
def Fits (len : Nat) : Files → Prop
  | .done => len + 2 ≤ PATH_MAX
  | .dot rest => Fits len rest
  | .dotdot rest => Fits len rest
  | .leaf name _ rest => len + name.length + 2 ≤ PATH_MAX ∧ Fits len rest
  | .dir name below rest => Fits (len + name.length + 1) below ∧ Fits len rest

instance Fits.decidable (len : Nat) : (l : Files) → Decidable (Fits len l)
  | .done => inferInstanceAs (Decidable (_ ≤ _))
  | .dot rest => Fits.decidable len rest
  | .dotdot rest => Fits.decidable len rest
  | .leaf _ _ rest => @instDecidableAnd _ _ inferInstance (Fits.decidable len rest)
  | .dir _ below rest => @instDecidableAnd _ _ (Fits.decidable _ below) (Fits.decidable len rest)

def cpuctl : List Str := [['d', 'e', 'v'], ['c', 'p', 'u', 'c', 't', 'l']]

def Counted (path : List Str) : Prop := path.getLast? = some cpu_shares ∧ path ≠ [cpu_shares]

instance (path : List Str) : Decidable (Counted path) := inferInstanceAs (Decidable (_ ∧ _))

def sharesBelow (path : List Str) (l : Files) : BitVec 32 :=
  (((leaves l).filter fun f => Counted (path ++ f.1)).map fun f => (fscanf_u f.2).getD 0).sum

def Readable (path : List Str) (l : Files) : Prop :=
  ∀ f ∈ leaves l, Counted (path ++ f.1) → (fscanf_u f.2).isSome = true

structure Mounted (fs groups : Files) : Prop where
  mounted : lookup fs cpuctl = some (.dir groups)
  proper : Proper Good groups
  fits : Fits (spell cpuctl).length groups
  readable : Readable [] groups

section paths
variable {path : List Str} {name : Str}

theorem spell_snoc (path : List Str) (name : Str) :
    spell (path ++ [name]) = spell path ++ '/' :: name := by
  simp [spell]

theorem components_spell (good : ∀ name ∈ path, Good name) : components (spell path) = path := by
  induction path with
  | nil => rfl
  | cons name path ih =>
    obtain ⟨some_name, no_slash, -⟩ := good name List.mem_cons_self
    have rest := ih fun other member => good other (List.mem_cons_of_mem _ member)
    have first : ∀ c ∈ (spell path).head?, (c == '/') = true := by
      cases path with
      | nil => simp [spell]
      | cons => simp [spell]
    rw [components] at rest
    rw [components, spell, List.flatMap_cons, ← spell, List.cons_append,
      tokens_separator (by decide), tokens_word some_name (without_separator no_slash) first, rest]

theorem components_slash (path : Str) : components (path ++ ['/']) = components path := by
  rw [components, tokens_append (by decide), tokens, List.append_nil]
  rfl

theorem spell_plain (good : ∀ name ∈ path, Good name) : nul ∉ spell path := by
  rw [spell, List.mem_flatMap]
  rintro ⟨name, member, found⟩
  rcases List.mem_cons.mp found with slash | inside
  · exact absurd slash (by decide)
  · exact (good name member).2.2.1 inside

theorem good_snoc (good : ∀ name ∈ path, Good name) (last : Good name) :
    ∀ other ∈ path ++ [name], Good other := by
  intro other member
  rcases List.mem_append.mp member with before | here
  · exact good other before
  · exact List.mem_singleton.mp here ▸ last

theorem good_cpuctl : ∀ name ∈ cpuctl, Good name := by
  intro name member
  rcases List.mem_cons.mp member with rfl | member
  · exact ⟨by decide, by decide, by decide, by decide, by decide⟩
  · rw [List.mem_singleton.mp member]
    exact ⟨by decide, by decide, by decide, by decide, by decide⟩

theorem good_default : ∀ name ∈ cpuctl ++ [cpu_shares], Good name :=
  good_snoc good_cpuctl ⟨by decide, by decide, by decide, by decide, by decide⟩

theorem spell_default : spell (cpuctl ++ [cpu_shares]) = default_shares := by decide

theorem default_iff (good : ∀ name ∈ cpuctl ++ path, Good name) :
    spell (cpuctl ++ path) = default_shares ↔ path = [cpu_shares] := by
  constructor
  · intro same
    have parts := congrArg components (same.trans spell_default.symm)
    rw [components_spell good, components_spell good_default] at parts
    exact List.append_cancel_left parts
  · rintro rfl
    exact spell_default

end paths

structure Holds (path : List Str) (mem : Str) : Prop where
  size : mem.length = PATH_MAX
  string : At mem 0 (spell path)

structure Opened (path : List Str) (mem : Str) : Prop where
  size : mem.length = PATH_MAX
  starts : spell path ++ ['/'] <+: mem

section buffer
variable {path : List Str} {name mem : Str}

theorem holds_enter (holds : Holds path mem) (room : (spell path).length + 2 ≤ PATH_MAX) :
    ∃ slashed opened, store mem (spell path).length ['/'] = some slashed ∧
      store slashed ((spell path).length + 1) [nul] = some opened ∧
      cstr opened 0 = some (spell path ++ ['/']) ∧ Opened path opened := by
  obtain ⟨plain, starts⟩ := at_start.mp holds.string
  have size := holds.size
  obtain ⟨slashed, first, same, front⟩ :=
    store_behind ['/'] ((List.prefix_append _ _).trans starts) (by simp; omega)
  have length : (spell path ++ ['/']).length = (spell path).length + 1 := by simp
  obtain ⟨opened, second, same', front'⟩ :=
    store_behind [nul] front (by rw [length, List.length_singleton]; omega)
  rw [length] at second
  have plain' : nul ∉ spell path ++ ['/'] := by
    rw [List.mem_append, not_or]
    exact ⟨plain, by decide⟩
  exact ⟨slashed, opened, first, second, at_cstr (at_start.mpr ⟨plain', front'⟩), by omega,
    (List.prefix_append _ _).trans front'⟩

theorem opened_append (opened : Opened path mem) (good : ∀ other ∈ path ++ [name], Good other)
    (room : (spell path).length + name.length + 2 ≤ PATH_MAX) :
    ∃ later, store mem ((spell path).length + 1) (name ++ [nul]) = some later ∧ Holds (path ++ [name]) later := by
  have size := opened.size
  have length : (spell path ++ ['/']).length = (spell path).length + 1 := by simp
  obtain ⟨later, stored, same, front⟩ :=
    store_behind (name ++ [nul]) opened.starts (by simp; omega)
  rw [length] at stored
  refine ⟨later, stored, by omega, at_start.mpr ⟨spell_plain good, ?_⟩⟩
  rw [spell_snoc]
  simpa using front

theorem opened_of_entry (holds : Holds (path ++ [name]) mem) : Opened path mem := by
  refine ⟨holds.size, ?_⟩
  obtain ⟨_, starts⟩ := at_start.mp holds.string
  rw [spell_snoc] at starts
  refine List.IsPrefix.trans ?_ starts
  exact ⟨name ++ [nul], by simp⟩

theorem opened_leave (opened : Opened path mem) (good : ∀ name ∈ path, Good name) :
    ∃ later, store mem (spell path).length [nul] = some later ∧ Holds path later := by
  have starts := opened.starts
  have long := starts.length_le
  rw [List.length_append] at long
  obtain ⟨later, stored, same, front⟩ :=
    store_behind [nul] ((List.prefix_append _ _).trans starts) long
  exact ⟨later, stored, same.trans opened.size, at_start.mpr ⟨spell_plain good, front⟩⟩

end buffer

section sums
variable {path : List Str} {name text : Str} {below rest : Files}

theorem shares_leaf : sharesBelow path (.leaf name text rest) =
    (if Counted (path ++ [name]) then (fscanf_u text).getD 0 else 0) + sharesBelow path rest := by
  rw [sharesBelow, leaves, List.filter_cons]
  split
  · rename_i counts
    rw [if_pos (of_decide_eq_true counts), List.map_cons, List.sum_cons, sharesBelow]
  · rename_i counts
    rw [if_neg fun holds => counts (decide_eq_true holds), zero_add, sharesBelow]

theorem shares_dir : sharesBelow path (.dir name below rest) =
    sharesBelow (path ++ [name]) below + sharesBelow path rest := by
  rw [sharesBelow, leaves, List.filter_append, List.map_append, List.sum_append, List.filter_map,
    List.map_map, sharesBelow, sharesBelow]
  simp only [Function.comp_def, List.append_assoc, List.singleton_append]

end sums

structure Ready (fs : Files) (path : List Str) (l : Files) : Prop where
  good : ∀ name ∈ cpuctl ++ path, Good name
  inside : Within fs (cpuctl ++ path) l
  proper : Proper Good l
  fits : Fits (spell (cpuctl ++ path)).length l
  readable : Readable path l

section ready
variable {fs rest below : Files} {path : List Str} {name text : Str}

theorem good_entry (good : ∀ name ∈ cpuctl ++ path, Good name) (last : Good name) :
    ∀ other ∈ cpuctl ++ (path ++ [name]), Good other := by
  rw [← List.append_assoc]
  exact good_snoc good last

theorem spell_entry (path : List Str) (name : Str) :
    (spell (cpuctl ++ (path ++ [name]))).length = (spell (cpuctl ++ path)).length + name.length + 1 := by
  rw [← List.append_assoc, spell_snoc, List.length_append, List.length_cons]
  omega

theorem fits_room {len : Nat} {l : Files} (fits : Fits len l) : len + 2 ≤ PATH_MAX := by
  induction l generalizing len with
  | done => exact fits
  | dot rest ih => exact ih fits
  | dotdot rest ih => exact ih fits
  | leaf name text rest ih => exact ih fits.2
  | dir name below rest _ ih => exact ih fits.2

theorem ready_leaf_rest (ready : Ready fs path (.leaf name text rest)) : Ready fs path rest :=
  ⟨ready.good, within_leaf_rest ready.proper.2.1 ready.inside, ready.proper.2.2, ready.fits.2,
    fun f member => ready.readable f (List.mem_cons_of_mem _ member)⟩

theorem ready_dir_rest (ready : Ready fs path (.dir name below rest)) : Ready fs path rest :=
  ⟨ready.good, within_dir_rest ready.proper.2.1 ready.inside, ready.proper.2.2.2, ready.fits.2,
    fun f member => ready.readable f (List.mem_append_right _ member)⟩

theorem ready_below (ready : Ready fs path (.dir name below rest)) :
    Ready fs (path ++ [name]) below := by
  refine ⟨good_entry ready.good ready.proper.1, ?_, ready.proper.2.2.1, ?_, ?_⟩
  · rw [← List.append_assoc]
    exact within_dir (within_below ready.inside)
  · rw [spell_entry]
    exact ready.fits.1
  · intro f member counts
    have entry := ready.readable (name :: f.1, f.2)
      (List.mem_append_left _ (List.mem_map.mpr ⟨f, member, rfl⟩))
    rw [List.append_assoc] at counts
    exact entry counts

end ready

section scanning
variable {fs : Files} {path : List Str} {name text : Str} {g : Globals}

theorem resolve_spell {names : List Str} (good : ∀ name ∈ names, Good name) :
    resolve fs (spell names) = lookup fs names := by
  rw [resolve, components_spell good]

theorem scan_leaf (fuel : Nat) (good : ∀ other ∈ cpuctl ++ (path ++ [name]), Good other)
    (here : lookup fs (cpuctl ++ (path ++ [name])) = some (.leaf text))
    (readable : Counted (path ++ [name]) → (fscanf_u text).isSome = true)
    (holds : Holds (cpuctl ++ (path ++ [name])) g.fullpath) (flag : g.FLAG = 1)
    (entry : g.dir_pointer = some name) :
    ∃ g', scan_shares_files fs (fuel + 1) g = some (0, g') ∧ g'.fullpath = g.fullpath ∧
      g'.shares = g.shares + if Counted (path ++ [name]) then (fscanf_u text).getD 0 else 0 := by
  have object := (resolve_spell good).trans here
  have last : (path ++ [name]).getLast? = some name := List.getLast?_concat
  obtain ⟨fullpath, _, _, retval, total⟩ := g
  obtain rfl : _ = 1 := flag
  obtain rfl : _ = some name := entry
  rw [scan_shares_files, at_cstr holds.string]
  simp only [Option.bind_eq_bind, Option.bind_some, object, true_and, ne_eq, default_iff good]
  by_cases default : path ++ [name] = [cpu_shares]
  · refine ⟨_, by rw [if_neg (not_not.mpr default)], rfl, ?_⟩
    rw [if_neg fun counts => counts.2 default, add_zero]
  · rw [if_pos default]
    by_cases shares : name = cpu_shares
    · have counts : Counted (path ++ [name]) := ⟨shares ▸ last, default⟩
      obtain ⟨value, found⟩ := Option.isSome_iff_exists.mp (readable counts)
      have read : read_shares_file fs (spell (cpuctl ++ (path ++ [name]))) = some value := by
        rw [read_shares_file, object]
        exact found
      refine ⟨⟨fullpath, 1, some name, retval, total + value⟩, ?_, rfl, ?_⟩
      · rw [if_pos shares, read, Option.bind_some]
      · rw [if_pos counts, found, Option.getD_some]
    · refine ⟨_, by rw [if_neg shares], rfl, ?_⟩
      rw [if_neg fun counts => shares (Option.some.inj (last.symm.trans counts.1)), add_zero]

def Summed (fs : Files) (fuel : Nat) (path : List Str) (l : Files) : Prop :=
  ∀ g : Globals, Opened (cpuctl ++ path) g.fullpath →
    ∃ g', entries (scan_shares_files fs fuel) ((spell (cpuctl ++ path)).length + 1)
        (stream ['.'] ['.', '.'] l) g = some g' ∧
      Opened (cpuctl ++ path) g'.fullpath ∧ g'.shares = g.shares + sharesBelow path l

theorem scan_dir {fuel : Nat} {l : Files} (good : ∀ other ∈ cpuctl ++ path, Good other)
    (here : lookup fs (cpuctl ++ path) = some (.dir l))
    (room : (spell (cpuctl ++ path)).length + 2 ≤ PATH_MAX) (loop : Summed fs fuel path l)
    (holds : Holds (cpuctl ++ path) g.fullpath) :
    ∃ g', scan_shares_files fs (fuel + 1) g = some (0, g') ∧ Holds (cpuctl ++ path) g'.fullpath ∧
      g'.shares = g.shares + sharesBelow path l := by
  have object := (resolve_spell good).trans here
  obtain ⟨slashed, opened, first, second, string, enters⟩ := holds_enter holds room
  have object' : resolve fs (spell (cpuctl ++ path) ++ ['/']) = some (.dir l) := by
    rw [resolve, components_slash, ← object, resolve]
  obtain ⟨g', looped, stays, shares⟩ := loop { g with fullpath := opened } enters
  obtain ⟨later, third, left⟩ := opened_leave stays good
  refine ⟨{ g' with fullpath := later }, ?_, left, shares⟩
  rw [scan_shares_files, at_cstr holds.string]
  simp only [Option.bind_eq_bind, Option.bind_some, object, first, second, string, object', looped, third]

theorem good_not_dots (good : Good name) : ¬ (name = ['.'] ∨ name = ['.', '.']) := by
  rintro (dot | dotdot)
  · exact good.2.2.2.1 dot
  · exact good.2.2.2.2 dotdot

theorem entries_step {fuel : Nat} {rest : Files} {value : BitVec 32}
    (good : ∀ other ∈ cpuctl ++ (path ++ [name]), Good other)
    (room : (spell (cpuctl ++ path)).length + name.length + 2 ≤ PATH_MAX)
    (call : ∀ g : Globals, Holds (cpuctl ++ (path ++ [name])) g.fullpath → g.FLAG = 1 →
      g.dir_pointer = some name → ∃ g', scan_shares_files fs fuel g = some (0, g') ∧
        Holds (cpuctl ++ (path ++ [name])) g'.fullpath ∧ g'.shares = g.shares + value)
    (loop : Summed fs fuel path rest) (opened : Opened (cpuctl ++ path) g.fullpath) :
    ∃ g', entries (scan_shares_files fs fuel) ((spell (cpuctl ++ path)).length + 1)
        (name :: stream ['.'] ['.', '.'] rest) g = some g' ∧
      Opened (cpuctl ++ path) g'.fullpath ∧
      g'.shares = g.shares + (value + sharesBelow path rest) := by
  rw [← List.append_assoc] at good call
  obtain ⟨later, stored, entered⟩ := opened_append opened good room
  obtain ⟨g', scanned, stays, shares⟩ :=
    call { g with dir_pointer := some name, FLAG := 1, fullpath := later } entered rfl rfl
  obtain ⟨g'', looped, ends, shares'⟩ := loop { g' with retval := 0 } (opened_of_entry stays)
  have ordinary : ¬ (name = ['.'] ∨ name = ['.', '.']) := good_not_dots (good name (by simp))
  refine ⟨g'', ?_, ends, ?_⟩
  · rw [entries, if_neg ordinary]
    simp only [Option.bind_eq_bind, Option.bind_some, stored, scanned]
    exact looped
  · rw [shares', ← add_assoc]
    exact congrArg (· + _) shares

theorem entries_shares (l : Files) : ∀ {fuel : Nat} {path : List Str}, depth l ≤ fuel →
    Ready fs path l → Summed fs fuel path l := by
  induction l with
  | done =>
    intro fuel path _ _ g opened
    exact ⟨_, rfl, opened, by simp [sharesBelow, leaves]⟩
  | dot rest ih =>
    intro fuel path deep ready g opened
    rw [stream, entries, if_pos (Or.inl rfl)]
    exact ih deep ⟨ready.good, ready.inside, ready.proper, ready.fits, ready.readable⟩ _ opened
  | dotdot rest ih =>
    intro fuel path deep ready g opened
    rw [stream, entries, if_pos (Or.inr rfl)]
    exact ih deep ⟨ready.good, ready.inside, ready.proper, ready.fits, ready.readable⟩ _ opened
  | leaf name text rest ih =>
    intro fuel path deep ready g opened
    obtain ⟨one, deep'⟩ := Nat.max_le.mp deep
    obtain ⟨k, rfl⟩ := Nat.exists_eq_add_of_le' one
    have good := good_entry ready.good ready.proper.1
    have here : lookup fs (cpuctl ++ (path ++ [name])) = some (.leaf text) := by
      rw [← List.append_assoc]
      exact within_leaf ready.inside
    have readable := ready.readable ([name], text) List.mem_cons_self
    rw [shares_leaf, stream]
    refine entries_step good ready.fits.1 ?_ (ih deep' (ready_leaf_rest ready)) opened
    intro g' holds flag entry
    obtain ⟨g'', scanned, same, shares⟩ := scan_leaf k good here readable holds flag entry
    exact ⟨g'', scanned, same ▸ holds, shares⟩
  | dir name below rest ihb ih =>
    intro fuel path deep ready g opened
    obtain ⟨deeper, deep'⟩ := Nat.max_le.mp deep
    obtain ⟨k, rfl⟩ := Nat.exists_eq_add_of_le' (Nat.le_of_add_left_le deeper)
    have inner := ready_below ready
    have here : lookup fs (cpuctl ++ (path ++ [name])) = some (.dir below) := by
      rw [← List.append_assoc]
      exact within_below ready.inside
    have room := fits_room inner.fits
    rw [shares_dir, stream]
    refine entries_step inner.good ?_ ?_ (ih deep' (ready_dir_rest ready)) opened
    · rw [spell_entry] at room
      omega
    · intro g' holds _ _
      exact scan_dir inner.good here room (ihb (Nat.le_of_succ_le_succ deeper) inner) holds

end scanning

section tree
variable {fs groups l below : Files} {path : List Str} {name : Str} {g : Globals} {fuel : Nat}

theorem ready_find (ready : Ready fs path l) (found : find name l = some (.dir below)) :
    Ready fs (path ++ [name]) below := by
  induction l with
  | done => cases found
  | dot rest ih =>
    exact ih ⟨ready.good, ready.inside, ready.proper, ready.fits, ready.readable⟩ found
  | dotdot rest ih =>
    exact ih ⟨ready.good, ready.inside, ready.proper, ready.fits, ready.readable⟩ found
  | leaf name' text rest ih =>
    rw [find] at found
    split at found
    · cases found
    · exact ih (ready_leaf_rest ready) found
  | dir name' below' rest _ ih =>
    rw [find] at found
    split at found
    · rename_i same
      cases found
      exact same ▸ ready_below ready
    · exact ih (ready_dir_rest ready) found

theorem ready_lookup {path' : List Str} (ready : Ready fs path l)
    (found : lookup l path' = some (.dir below)) : Ready fs (path ++ path') below := by
  induction path' generalizing path l with
  | nil =>
    cases found
    rwa [List.append_nil]
  | cons name path' ih =>
    rw [lookup] at found
    split at found
    · split at found <;> cases found
    · rename_i inner entry
      rw [List.append_cons]
      exact ih (ready_find ready entry) found
    · cases found

theorem ready_mounted (tree : Mounted fs groups) : Ready fs [] groups :=
  ⟨good_cpuctl, within_dir tree.mounted, tree.proper, tree.fits, tree.readable⟩

/-- A call for a directory at or below the mount point adds the values of the shares files below the
directory, and the path is the same string when it returns. -/
theorem scan_shares_adds (tree : Mounted fs groups) (here : lookup groups path = some (.dir l))
    (deep : depth l < fuel) (size : g.fullpath.length = PATH_MAX)
    (string : cstr g.fullpath 0 = some (spell (cpuctl ++ path))) :
    ∃ g', scan_shares_files fs fuel g = some (0, g') ∧ cstr g'.fullpath 0 = some (spell (cpuctl ++ path)) ∧
      g'.shares = g.shares + sharesBelow path l := by
  obtain ⟨k, rfl⟩ := Nat.exists_eq_add_of_lt deep
  have ready : Ready fs path l := ready_lookup (ready_mounted tree) here
  have object : lookup fs (cpuctl ++ path) = some (.dir l) := by
    rw [lookup_append tree.mounted, here]
  have loop := entries_shares l (Nat.le_add_right (depth l) k) ready
  obtain ⟨g', scanned, holds, shares⟩ :=
    scan_dir ready.good object (fits_room ready.fits) loop ⟨size, cstr_at string⟩
  exact ⟨g', scanned, at_cstr holds.string, shares⟩

end tree

section example_tree

def twoGroups : Files :=
  .dot (.leaf cpu_shares ['1', '0', '2', '4', '\n'] (.dotdot
    (.dir ['a'] (.leaf cpu_shares ['2', '\n']
      (.dir ['b'] (.leaf ['t', 'a', 's', 'k', 's'] [] (.leaf cpu_shares ['3'] .done)) .done)) .done)))

def mountedTwo : Files := .dir ['d', 'e', 'v'] (.dir ['c', 'p', 'u', 'c', 't', 'l'] twoGroups .done) .done

theorem mounted_two : Mounted mountedTwo twoGroups :=
  ⟨rfl, by decide, by decide, by unfold Readable; decide⟩

theorem scan_shares_adds_two : ∃ g', scan_shares_files mountedTwo 4
      ⟨spell cpuctl ++ List.replicate 4085 nul, 0, none, 0, 7⟩ = some (0, g') ∧
    cstr g'.fullpath 0 = some (spell cpuctl) ∧ g'.shares = 7 + sharesBelow [] twoGroups := by
  refine scan_shares_adds mounted_two rfl (by decide) ?_ (at_cstr (at_start.mpr ⟨by decide, ?_⟩))
  · rw [List.length_append, List.length_replicate]
    rfl
  · refine ⟨List.replicate 4084 nul, ?_⟩
    rw [List.append_assoc]
    exact congrArg _ (List.replicate_succ (n := 4084)).symm

example : sharesBelow [] twoGroups = 5 := by decide

end example_tree

end ScanShares
