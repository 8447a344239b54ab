import Vte.Base.Text

/-!
lib/mount_utils.c: the mount table is read from its start, and one of the entries whose directory is a
textual prefix of the resolved path is kept. The strings of the entry kept stand in blocks of their own;
a `strcpy` past the end of its block gives nothing. Every allocation succeeds.
-/
namespace MountUtils
open Text

structure Entry where
  mnt_fsname : Str
  mnt_dir : Str
deriving DecidableEq

/-- What the calls find: the resolved path, the mount table, and the devices that do not exist. -/
structure Files where
  realpath : Str → Option Str
  mtab : Option (List Entry)
  missing : Str → Bool

def begins (path : Str) (entry : Entry) : Bool := entry.mnt_dir.isPrefixOf path

/-- `strcpy` of the strings, each into a block with `spare` bytes more than its length. -/
def copyStrings (spare : Nat) (strings : List Str) (entry : Entry) : Option Entry :=
  if strings.all fun s => s.length + 1 ≤ s.length + spare then some entry else none

section lookup
variable (copied : Entry → List Str) (resolved_path : Str)

/-- One entry. The first that fits is put into blocks of its length and a NUL; one whose directory is a
    prefix of the directory kept takes its place, in blocks of the bare length. -/
def considerEntry (kept : Option Entry) (entry : Entry) : Option (Option Entry) :=
  if begins resolved_path entry then
    match kept with
    | none => (copyStrings 1 (copied entry) entry).map some
    | some old =>
      if begins old.mnt_dir entry then (copyStrings 0 (copied entry) entry).map some
      else some (some old)
  else some kept

def readTable : Option Entry → List Entry → Option (Option Entry)
  | kept, [] => some kept
  | kept, entry :: rest => do
    let kept ← considerEntry copied resolved_path kept entry
    readTable kept rest

end lookup

def keptEntry (copied : Entry → List Str) (files : Files) (path : Option Str) :
    Option (Option Entry) :=
  match path.bind files.realpath, files.mtab with
  | some resolved_path, some table => readTable copied resolved_path none table
  | _, _ => some none

def get_mountpoint (files : Files) (path : Option Str) : Option (Option Str) :=
  (keptEntry (fun entry => [entry.mnt_dir]) files path).map (·.map Entry.mnt_dir)

def get_block_device (files : Files) (path : Option Str) : Option (Option Str) :=
  (keptEntry (fun entry => [entry.mnt_dir, entry.mnt_fsname]) files path).map fun kept =>
    (kept.map Entry.mnt_fsname).filter fun mnt_fsname => !files.missing mnt_fsname

/-- `dir` is a prefix of `path` that ends where a component ends. -/
def ComponentPrefix (dir path : Str) : Prop :=
  ∃ rest, path = dir ++ rest ∧ (rest = [] ∨ rest.head? = some '/' ∨ dir.getLast? = some '/')

/-- The directory of `entry` is the longest component-wise prefix in the table. -/
structure Longest (table : List Entry) (path : Str) (entry : Entry) : Prop where
  listed : entry ∈ table
  above : ComponentPrefix entry.mnt_dir path
  longest : ∀ other ∈ table, ComponentPrefix other.mnt_dir path → other.mnt_dir.length ≤ entry.mnt_dir.length

def Seen (files : Files) (path : Option Str) (table : List Entry) (resolved : Str) : Prop :=
  files.mtab = some table ∧ path.bind files.realpath = some resolved

/-- The two calls give the directory and the device of one entry with the longest directory; NULL when
    no entry is above the path, and for a device that does not exist. -/
structure Right (files : Files) (path : Option Str) (dir device : Option Str) : Prop where
  found : ∀ table resolved, Seen files path table resolved → (∃ entry ∈ table, ComponentPrefix entry.mnt_dir resolved) →
    ∃ entry, Longest table resolved entry ∧ dir = some entry.mnt_dir ∧
      device = if files.missing entry.mnt_fsname then none else some entry.mnt_fsname
  nothing : (¬ ∃ table resolved, Seen files path table resolved ∧
      ∃ entry ∈ table, ComponentPrefix entry.mnt_dir resolved) → dir = none ∧ device = none

/-- Among the entries whose directory is a textual prefix there is none, or the first one is above the
    path and every later one is longer and is not. -/
def FirstIsLongest (table : List Entry) (resolved : Str) : Prop :=
  match table.filter (begins resolved) with
  | [] => True
  | entry :: later => ComponentPrefix entry.mnt_dir resolved ∧
    ∀ other ∈ later, entry.mnt_dir.length < other.mnt_dir.length ∧ ¬ ComponentPrefix other.mnt_dir resolved

section scanning
variable {copied : Entry → List Str} {resolved : Str} {entry old : Entry} {table : List Entry}

theorem component_begins (above : ComponentPrefix entry.mnt_dir resolved) :
    begins resolved entry = true := by
  obtain ⟨rest, parts, _⟩ := above
  rw [begins, List.isPrefixOf_iff_prefix, parts]
  exact List.prefix_append _ _

theorem begins_shorter (first : begins resolved old = true) (second : begins resolved entry = true) :
    begins old.mnt_dir entry = true ↔ entry.mnt_dir.length ≤ old.mnt_dir.length := by
  unfold begins at first second ⊢
  rw [List.isPrefixOf_iff_prefix] at first second ⊢
  exact ⟨List.IsPrefix.length_le, List.prefix_of_prefix_length_le second first⟩

theorem copy_fits (strings : List Str) : copyStrings 1 strings entry = some entry :=
  if_pos (by simp)

theorem copy_overflows {strings : List Str} (some_string : strings ≠ []) :
    copyStrings 0 strings entry = none := by
  obtain ⟨s, rest, rfl⟩ := List.exists_cons_of_ne_nil some_string
  apply if_neg
  simp only [List.all_cons, Bool.and_eq_true, decide_eq_true_eq]
  omega

theorem read_filter (kept : Option Entry) (table : List Entry) :
    readTable copied resolved kept table = readTable copied resolved kept (table.filter (begins resolved)) := by
  induction table generalizing kept with
  | nil => rfl
  | cons entry rest ih =>
    by_cases fits : begins resolved entry = true
    · rw [List.filter_cons_of_pos fits, readTable, readTable]
      congr 1
      funext kept
      exact ih kept
    · have passed : considerEntry copied resolved kept entry = some kept := if_neg fits
      rw [List.filter_cons_of_neg fits, readTable, passed]
      exact ih kept

theorem read_first (fits : begins resolved entry = true) (rest : List Entry) :
    readTable copied resolved none (entry :: rest) = readTable copied resolved (some entry) rest := by
  rw [readTable, considerEntry, if_pos fits]
  simp only [copy_fits, Option.map_some, Option.bind_eq_bind, Option.bind_some]

theorem read_kept (strings : ∀ entry, copied entry ≠ []) (fits : begins resolved old = true)
    {later : List Entry} (textual : ∀ entry ∈ later, begins resolved entry = true) :
    readTable copied resolved (some old) later =
      if ∀ entry ∈ later, old.mnt_dir.length < entry.mnt_dir.length then some (some old)
      else none := by
  induction later with
  | nil => simp [readTable]
  | cons entry rest ih =>
    obtain ⟨here, others⟩ := List.forall_mem_cons.mp textual
    rw [readTable, considerEntry, if_pos here]
    by_cases shorter : entry.mnt_dir.length ≤ old.mnt_dir.length
    · have replaced : ¬ ∀ e ∈ entry :: rest, old.mnt_dir.length < e.mnt_dir.length := by
        intro longer
        have := longer entry (by simp)
        omega
      rw [if_neg replaced]
      simp only [(begins_shorter fits here).mpr shorter, if_true, copy_overflows (strings entry),
        Option.map_none, Option.bind_eq_bind, Option.bind_none]
    · have kept : begins old.mnt_dir entry = false := by
        rw [Bool.eq_false_iff]
        exact mt (begins_shorter fits here).mp shorter
      have longer : old.mnt_dir.length < entry.mnt_dir.length := by omega
      simp only [kept, Bool.false_eq_true, if_false, Option.bind_eq_bind, Option.bind_some,
        ih others, List.forall_mem_cons, longer, true_and]

theorem read_table (strings : ∀ entry, copied entry ≠ []) (table : List Entry) :
    readTable copied resolved none table =
      match table.filter (begins resolved) with
      | [] => some none
      | entry :: later =>
        if ∀ other ∈ later, entry.mnt_dir.length < other.mnt_dir.length then some (some entry)
        else none := by
  rw [read_filter]
  have textual : ∀ entry ∈ table.filter (begins resolved), begins resolved entry = true :=
    fun entry found => (List.mem_filter.mp found).2
  cases list : table.filter (begins resolved) with
  | nil => rfl
  | cons entry later =>
    rw [list] at textual
    obtain ⟨here, others⟩ := List.forall_mem_cons.mp textual
    rw [read_first here, read_kept strings here others]

theorem above_listed {entry : Entry} (listed : entry ∈ table)
    (above : ComponentPrefix entry.mnt_dir resolved) : entry ∈ table.filter (begins resolved) :=
  List.mem_filter.mpr ⟨listed, component_begins above⟩

end scanning

def Sane (files : Files) (path : Option Str) : Prop :=
  ∀ table resolved, Seen files path table resolved → FirstIsLongest table resolved

section results
variable {files : Files} {path : Option Str} {table : List Entry} {resolved : Str}

theorem seen_unique {table' : List Entry} {resolved' : Str} (seen : Seen files path table resolved)
    (other : Seen files path table' resolved') : table' = table ∧ resolved' = resolved :=
  ⟨Option.some.inj (other.1.symm.trans seen.1), Option.some.inj (other.2.symm.trans seen.2)⟩

theorem sane_seen (seen : Seen files path table resolved) :
    Sane files path ↔ FirstIsLongest table resolved := by
  constructor
  · intro sane
    exact sane table resolved seen
  · intro first table' resolved' other
    obtain ⟨rfl, rfl⟩ := seen_unique seen other
    exact first

theorem kept_seen (copied : Entry → List Str) (seen : Seen files path table resolved) :
    keptEntry copied files path = readTable copied resolved none table := by
  rw [keptEntry, seen.1, seen.2]

theorem kept_unseen (copied : Entry → List Str)
    (unseen : ¬ ∃ table resolved, Seen files path table resolved) :
    keptEntry copied files path = some none := by
  unfold keptEntry
  split
  · rename_i resolved table found listed
    exact absurd ⟨table, resolved, listed, found⟩ unseen
  · rfl

def deviceOf (files : Files) (entry : Entry) : Option Str :=
  if files.missing entry.mnt_fsname then none else some entry.mnt_fsname

theorem device_filter (entry : Entry) :
    (some entry.mnt_fsname).filter (fun mnt_fsname => !files.missing mnt_fsname) = deviceOf files entry := by
  unfold deviceOf
  cases gone : files.missing entry.mnt_fsname <;> simp [Option.filter, gone]

theorem right_first {entry : Entry} {later : List Entry} (seen : Seen files path table resolved)
    (list : table.filter (begins resolved) = entry :: later)
    (above : ComponentPrefix entry.mnt_dir resolved)
    (others : ∀ other ∈ later, ¬ ComponentPrefix other.mnt_dir resolved) :
    Right files path (some entry.mnt_dir) (deviceOf files entry) := by
  have listed : entry ∈ table.filter (begins resolved) := by simp [list]
  have longest : Longest table resolved entry := by
    refine ⟨(List.mem_filter.mp listed).1, above, ?_⟩
    intro other found fits
    have taken := above_listed found fits
    rw [list] at taken
    rcases List.mem_cons.mp taken with rfl | later_one
    · exact Nat.le_refl _
    · exact absurd fits (others other later_one)
  constructor
  · intro table' resolved' other _
    obtain ⟨rfl, rfl⟩ := seen_unique seen other
    exact ⟨entry, longest, rfl, rfl⟩
  · intro nothing
    exact absurd ⟨table, resolved, seen, entry, longest.listed, above⟩ nothing

theorem right_none (outside : ∀ table resolved, Seen files path table resolved →
    ∀ e ∈ table, ¬ ComponentPrefix e.mnt_dir resolved) : Right files path none none := by
  constructor
  · rintro table resolved seen ⟨e, found, fits⟩
    exact absurd fits (outside table resolved seen e found)
  · exact fun _ => ⟨rfl, rfl⟩

theorem first_of_right {entry : Entry} {later : List Entry} {device : Option Str}
    (seen : Seen files path table resolved)
    (list : table.filter (begins resolved) = entry :: later)
    (longer : ∀ other ∈ later, entry.mnt_dir.length < other.mnt_dir.length)
    (right : Right files path (some entry.mnt_dir) device) : FirstIsLongest table resolved := by
  have inside : ∃ e ∈ table, ComponentPrefix e.mnt_dir resolved := by
    by_contra outside
    have nothing := right.nothing (by
      rintro ⟨table', resolved', other, found⟩
      obtain ⟨rfl, rfl⟩ := seen_unique seen other
      exact outside found)
    cases nothing.1
  obtain ⟨e, longest, dir, _⟩ := right.found table resolved seen inside
  have same : entry.mnt_dir = e.mnt_dir := Option.some.inj dir
  unfold FirstIsLongest
  rw [list]
  refine ⟨same ▸ longest.above, fun other found => ⟨longer other found, fun fits => ?_⟩⟩
  have listed : other ∈ table := by
    have taken : other ∈ table.filter (begins resolved) := by simp [list, found]
    exact (List.mem_filter.mp taken).1
  have bound := longest.longest other listed fits
  rw [← same] at bound
  exact absurd bound (Nat.not_le.mpr (longer other found))

end results

/-- Both calls find the entry with the longest directory just when the first entry that is a textual
    prefix has it already and nothing after it takes its place. -/
theorem mount_lookup_iff (files : Files) (path : Option Str) :
    (∃ dir device, get_mountpoint files path = some dir ∧
      get_block_device files path = some device ∧ Right files path dir device) ↔ Sane files path := by
  by_cases some_table : ∃ table resolved, Seen files path table resolved
  · obtain ⟨table, resolved, seen⟩ := some_table
    rw [sane_seen seen, get_mountpoint, get_block_device, kept_seen _ seen, kept_seen _ seen,
      read_table (fun entry => by simp), read_table (fun entry => by simp)]
    cases list : table.filter (begins resolved) with
    | nil =>
      have first : FirstIsLongest table resolved := by
        unfold FirstIsLongest
        rw [list]
        trivial
      refine ⟨fun _ => first, fun _ => ⟨none, none, rfl, rfl, right_none ?_⟩⟩
      intro table' resolved' other e found fits
      obtain ⟨rfl, rfl⟩ := seen_unique seen other
      have taken := above_listed found fits
      rw [list] at taken
      cases taken
    | cons entry later =>
      by_cases longer : ∀ other ∈ later, entry.mnt_dir.length < other.mnt_dir.length
      · simp only [if_pos longer, Option.map_some, Option.some.injEq]
        constructor
        · rintro ⟨_, device, rfl, _, right⟩
          exact first_of_right seen list longer right
        · intro first
          unfold FirstIsLongest at first
          rw [list] at first
          refine ⟨_, _, rfl, rfl, ?_⟩
          rw [device_filter]
          exact right_first seen list first.1 fun other found => (first.2 other found).2
      · simp only [if_neg longer, Option.map_none]
        constructor
        · rintro ⟨_, _, run, _⟩
          cases run
        · intro first
          unfold FirstIsLongest at first
          rw [list] at first
          exact absurd (fun other found => (first.2 other found).1) longer
  · rw [get_mountpoint, get_block_device, kept_unseen _ some_table, kept_unseen _ some_table]
    constructor
    · intro _ table resolved seen
      exact absurd ⟨table, resolved, seen⟩ some_table
    · intro _
      exact ⟨none, none, rfl, rfl, right_none fun table resolved seen =>
        absurd ⟨table, resolved, seen⟩ some_table⟩

def homeMounted : Files where
  realpath path := some path
  mtab := some [⟨"/dev/sda1".toList, "/".toList⟩, ⟨"/dev/sda2".toList, "/home".toList⟩]
  missing _ := false

theorem home_found_in_root :
    get_mountpoint homeMounted (some "/home/x".toList) = some (some "/".toList) ∧
      ¬ ∃ dir device, get_mountpoint homeMounted (some "/home/x".toList) = some dir ∧
        get_block_device homeMounted (some "/home/x".toList) = some device ∧
        Right homeMounted (some "/home/x".toList) dir device := by
  have root : get_mountpoint homeMounted (some "/home/x".toList) = some (some "/".toList) := by decide
  refine ⟨root, ?_⟩
  rintro ⟨dir, device, run, _, right⟩
  obtain rfl := Option.some.inj (root.symm.trans run)
  have home : ComponentPrefix "/home".toList "/home/x".toList :=
    ⟨"/x".toList, by decide, .inr (.inl (by decide))⟩
  have listed : (⟨"/dev/sda2".toList, "/home".toList⟩ : Entry) ∈
      [⟨"/dev/sda1".toList, "/".toList⟩, ⟨"/dev/sda2".toList, "/home".toList⟩] := by simp
  obtain ⟨e, longest, same, _⟩ := right.found _ _ ⟨rfl, rfl⟩ ⟨_, listed, home⟩
  have bound := longest.longest _ listed home
  rw [← Option.some.inj same] at bound
  exact absurd bound (by decide)

end MountUtils
