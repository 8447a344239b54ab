import Mathlib.Tactic.Linarith
import Vte.Fs.Inode

/-!
What `generate` of inode02.c leaves: names in the order of the dictionary, a record for everything that is
created, and the file system that the records describe.
-/
namespace Inode
open IntLoop Multiples Text Words

section names

theorem letter_z {d : Nat} (small : d < 26) : letter d = 'z' ↔ d = 25 := by
  have z : 'z' = letter 25 := rfl
  rw [z]
  exact ⟨letter_injective small (by omega), fun same => by rw [same]⟩

theorem next_letter {d : Nat} (small : d < 26) : nextLetter (letter d) = letter (d + 1) := by
  rw [nextLetter, letter_to_nat small, letter, Nat.add_assoc]

theorem modify_at {pre post : Str} {c : Char} {k : Nat} (place : pre.length = k) (f : Char → Char) :
    (pre ++ c :: post).modify k f = pre ++ f c :: post := by
  rw [List.modify, ← place, ← Nat.add_zero pre.length, List.modifyTailIdx_add]
  rfl

theorem increment_word {position n : Nat} (post : Str) (more : n + 1 < 26 ^ (position + 1)) :
    increment_name position (word (position + 1) n ++ post) = some (word (position + 1) (n + 1) ++ post) := by
  induction position generalizing n post with
  | zero =>
    have small : n + 1 < 26 := by simpa using more
    have last : letter (n % 26) ≠ 'z' := by
      rw [ne_eq, letter_z (by omega)]
      omega
    rw [word, word, List.nil_append, List.singleton_append, increment_name, if_neg (by simpa using last)]
    have next := next_letter (show n % 26 < 26 by omega)
    simp only [List.modify_zero_cons, next, word, List.nil_append, List.singleton_append]
    rw [show n % 26 + 1 = (n + 1) % 26 by omega]
  | succ position ih =>
    have small : n + 1 < 26 ^ (position + 1) * 26 := more
    have split : ∀ m, word (position + 2) m ++ post = word (position + 1) (m / 26) ++ letter (m % 26) :: post := by
      intro m
      rw [word, List.append_assoc, List.singleton_append]
    have length : (word (position + 1) (n / 26)).length = position + 1 := word_length _ _
    have at_end : (word (position + 1) (n / 26) ++ letter (n % 26) :: post)[position + 1]? =
        some (letter (n % 26)) := by
      rw [List.getElem?_append_right (by omega), length, Nat.sub_self]
      rfl
    rw [split, split, increment_name, at_end]
    by_cases carry : n % 26 = 25
    · have set : (word (position + 1) (n / 26) ++ letter (n % 26) :: post).set (position + 1) 'a' =
          word (position + 1) (n / 26) ++ 'a' :: post := by
        rw [List.set_append_right _ _ (by omega), length, Nat.sub_self]
        rfl
      rw [if_pos (by rw [Option.some.injEq, letter_z (by omega)]; exact carry), set, ih ('a' :: post) (by omega)]
      rw [show (n + 1) / 26 = n / 26 + 1 by omega, show (n + 1) % 26 = 0 by omega]
      rfl
    · rw [if_neg (by rw [Option.some.injEq, letter_z (by omega)]; exact carry), modify_at length,
        next_letter (by omega)]
      rw [show (n + 1) / 26 = n / 26 by omega, show (n + 1) % 26 = n % 26 + 1 by omega]

/-- The first `c` names were given, and the next one follows the last. -/
structure Named (c : Nat) (st : State) : Prop where
  names : st.names = (List.range c).map (word 8)
  first : c = 0 → st.k = 0
  last : ∀ m, c = m + 1 → st.k = 1 ∧ st.name = word 8 m

theorem next_name {c : Nat} {st : State} (named : Named c st) (some_left : c < 26 ^ 8) :
    ∃ st', get_next_name st = some st' ∧ Named (c + 1) st' ∧ st'.name = word 8 c ∧ st'.fs = st.fs ∧
      st'.list = st.list ∧ st'.reported = st.reported := by
  have after : st.names ++ [word 8 c] = (List.range (c + 1)).map (word 8) := by
    rw [named.names, List.range_succ, List.map_append]
    rfl
  cases c with
  | zero =>
    have start := named.first rfl
    refine ⟨{ st with k := 1, name := word 8 0, names := st.names ++ [word 8 0] }, ?_, ⟨after, ?_, ?_⟩,
      rfl, rfl, rfl, rfl⟩
    · rw [get_next_name, if_pos start, if_pos start]
      rfl
    · intro impossible
      omega
    · intro m same
      obtain rfl : m = 0 := by omega
      exact ⟨rfl, rfl⟩
  | succ m =>
    obtain ⟨started, current⟩ := named.last m rfl
    have next := increment_word [] some_left
    rw [List.append_nil, List.append_nil] at next
    refine ⟨{ st with name := word 8 (m + 1), names := st.names ++ [word 8 (m + 1)] }, ?_,
      ⟨after, ?_, ?_⟩, rfl, rfl, rfl, rfl⟩
    · rw [get_next_name, if_neg (by omega), if_neg (by omega), current, next]
      rfl
    · intro impossible
      omega
    · intro l same
      obtain rfl : l = m + 1 := by omega
      exact ⟨started, rfl⟩

end names

structure Entry where
  path : Str
  isFile : Bool
deriving DecidableEq

def Entry.tag (e : Entry) : Char := if e.isFile then 'F' else 'D'

def Entry.record (e : Entry) : Str := e.path ++ [e.tag]

def Entry.node (p : Params) (e : Entry) : Node :=
  if e.isFile then .file (List.replicate p.file_length.toNat e.path).flatten else .dir

def fsOf (p : Params) (entries : List Entry) : Fs := fun path =>
  if path = [] then some .dir else (entries.find? (·.path = path)).map (Entry.node p)

/-- The paths that are created: the root of the tree, and then one with the next name each. -/
structure Numbered (root : Str) (entries : List Entry) : Prop where
  start : entries[0]? = some ⟨root, false⟩
  plain : '/' ∉ root
  named : ∀ i e, entries[i + 1]? = some e → ∃ dir, e.path = dir ++ '/' :: word 8 i

structure World (p : Params) (root : Str) (entries : List Entry) (st : State) : Prop where
  numbered : Numbered root entries
  few : entries.length ≤ 26 ^ 8 + 1
  names : Named (entries.length - 1) st
  list : st.list = entries.flatMap fun e => e.record ++ ['\n']
  fs : st.fs = fsOf p entries
  short : ∀ e ∈ entries, e.path.length ≤ 984
  solid : ∀ e ∈ entries, e.path ≠ [] ∧ ∀ c ∈ e.path, isSpace c = false

section paths
variable {root : Str} {entries : List Entry}

theorem word_no_slash (n : Nat) : '/' ∉ word 8 n := by
  intro member
  obtain ⟨d, small, same⟩ := word_letters member
  have code := congrArg Char.toNat same
  rw [letter_to_nat small] at code
  have slash : '/'.toNat = 47 := rfl
  omega

theorem word_no_space {n : Nat} {c : Char} (member : c ∈ word 8 n) : isSpace c = false := by
  obtain ⟨d, small, rfl⟩ := word_letters member
  have code := letter_to_nat small
  by_contra space
  simp only [isSpace, Bool.not_eq_false, Bool.or_eq_true, beq_iff_eq] at space
  rcases space with ((((same | same) | same) | same) | same) | same <;>
  · rw [same] at code
    simp at code
    omega

theorem parent_path (dir : Str) (n : Nat) : parent (dir ++ '/' :: word 8 n) = dir := by
  have skipped : ∀ c ∈ (word 8 n).reverse, (c != '/') = true := by
    intro c member
    rw [List.mem_reverse] at member
    rw [bne_iff_ne]
    intro same
    exact word_no_slash n (same ▸ member)
  have turned : (dir ++ '/' :: word 8 n).reverse = (word 8 n).reverse ++ '/' :: dir.reverse := by simp
  rw [parent, turned, List.dropWhile_append_of_pos skipped, List.dropWhile_cons_of_neg (by simp)]
  simp

theorem last_name {dir dir' : Str} {i j : Nat} (low : i < 26 ^ 8) (low' : j < 26 ^ 8)
    (same : dir ++ '/' :: word 8 i = dir' ++ '/' :: word 8 j) : i = j := by
  have tails := (List.append_inj' same (by simp)).2
  exact word_injective low low' (List.cons.inj tails).2

theorem other_path (numbered : Numbered root entries) {dir : Str} {i n : Nat} {e : Entry}
    (at_i : entries[i]? = some e) (few : i ≤ 26 ^ 8) (low : n < 26 ^ 8) (apart : i ≠ n + 1) :
    e.path ≠ dir ++ '/' :: word 8 n := by
  intro same
  cases i with
  | zero =>
    rw [numbered.start] at at_i
    obtain rfl := Option.some.inj at_i
    apply numbered.plain
    rw [show root = _ from same]
    simp
  | succ i =>
    obtain ⟨other, path⟩ := numbered.named i e at_i
    have equal := last_name (by omega) low (path.symm.trans same)
    omega

theorem new_path (numbered : Numbered root entries) {dir : Str} {n : Nat} (low : n < 26 ^ 8)
    (last : n + 1 = entries.length) {e : Entry} (member : e ∈ entries) :
    e.path ≠ dir ++ '/' :: word 8 n := by
  obtain ⟨i, at_i⟩ := List.mem_iff_getElem?.mp member
  have inside := (List.getElem?_eq_some_iff.mp at_i).1
  exact other_path numbered at_i (by omega) low (by omega)

theorem numbered_nodup (numbered : Numbered root entries) (few : entries.length ≤ 26 ^ 8 + 1) :
    (entries.map Entry.path).Nodup := by
  rw [List.Nodup, List.pairwise_map, List.pairwise_iff_getElem]
  intro i j low high order
  obtain ⟨n, rfl⟩ : ∃ n, j = n + 1 := ⟨j - 1, by omega⟩
  obtain ⟨dir, path⟩ := numbered.named n entries[n + 1] (List.getElem?_eq_getElem high)
  rw [path]
  exact other_path numbered (List.getElem?_eq_getElem low) (by omega) (by omega) (by omega)

theorem numbered_next (numbered : Numbered root entries) {n : Nat} (last : n + 1 = entries.length)
    {e : Entry} {dir : Str} (path : e.path = dir ++ '/' :: word 8 n) :
    Numbered root (entries ++ [e]) := by
  refine ⟨?_, numbered.plain, ?_⟩
  · rw [List.getElem?_append_left (by omega)]
    exact numbered.start
  · intro i e' at_i
    by_cases before : i + 1 < entries.length
    · rw [List.getElem?_append_left before] at at_i
      exact numbered.named i e' at_i
    · rw [List.getElem?_append_right (by omega), List.getElem?_singleton] at at_i
      split at at_i
      · obtain rfl := Option.some.inj at_i
        obtain rfl : i = n := by omega
        exact ⟨dir, path⟩
      · cases at_i

theorem find_new {path : Str} (new : ∀ e ∈ entries, e.path ≠ path) :
    entries.find? (·.path = path) = none := by
  simpa using new

theorem fs_next (p : Params) {e : Entry} (new : ∀ e' ∈ entries, e'.path ≠ e.path) (some_path : e.path ≠ []) :
    Function.update (fsOf p entries) e.path (some (e.node p)) = fsOf p (entries ++ [e]) := by
  funext path
  by_cases same : path = e.path
  · subst same
    simp [fsOf, some_path, List.find?_append, find_new new]
  · rw [Function.update_of_ne same]
    have other : ¬ e.path = path := fun equal => same equal.symm
    simp [fsOf, List.find?_append, other]

end paths

section counts

/-- How many of the first `k` things made at a level are directories. -/
def directories (level k : Nat) : Nat := (k + 1 - level % 2) / 2

/-- The names that a tree takes: `n` things in a directory, `left` levels, and a path of `len` characters. -/
def needed (n : Nat) : Nat → Nat → Nat → Nat
  | 0, _, _ => 0
  | left + 1, len, level =>
    if maxPathStringLength ≤ len then 0
    else n + directories level n * needed n left (len + 9) (level + 1)

def MakesFile (n : Nat) : Nat → Nat → Nat → Prop
  | 0, _, _ => False
  | left + 1, len, level => len < maxPathStringLength ∧
    (directories level n < n ∨ 0 < directories level n ∧ MakesFile n left (len + 9) (level + 1))

def Reaches (n : Nat) : Nat → Nat → Nat → Prop
  | 0, len, _ => maxPathStringLength ≤ len
  | left + 1, len, level =>
    maxPathStringLength ≤ len ∨ 0 < directories level n ∧ Reaches n left (len + 9) (level + 1)

theorem directories_file {level k : Nat} (odd : (level + k) % 2 = 1) :
    directories level (k + 1) = directories level k := by
  simp only [directories]
  omega

theorem directories_directory {level k : Nat} (even : (level + k) % 2 = 0) :
    directories level (k + 1) = directories level k + 1 := by
  simp only [directories]
  omega

theorem some_file {level k n : Nat} (odd : (level + k) % 2 = 1) (inside : k < n) :
    directories level n < n := by
  simp only [directories]
  omega

theorem directories_mono (level : Nat) {k n : Nat} (order : k ≤ n) : directories level k ≤ directories level n := by
  simp only [directories]
  omega

theorem directories_le (level k : Nat) : directories level k ≤ k := by
  simp only [directories]
  omega

theorem reaches_long {n left len level : Nat} (long : maxPathStringLength ≤ len) :
    Reaches n left len level := by
  cases left with
  | zero => exact long
  | succ left => exact Or.inl long

theorem needed_long {n left len level : Nat} (long : maxPathStringLength ≤ len) :
    needed n left len level = 0 := by
  cases left with
  | zero => rfl
  | succ left => rw [needed, if_pos long]

theorem makes_file_short {n left len level : Nat} (makes : MakesFile n left len level) :
    len < maxPathStringLength := by
  cases left with
  | zero => exact makes.elim
  | succ left => exact makes.1

end counts

/-- The counter of the loop that writes a file fits in an `int`. -/
def Params.Writable (p : Params) : Prop := p.file_length.toNat + 1 < 2147483648

def After (p : Params) (root : Str) (entries : List Entry) (reported : Bool) (count : Nat)
    (files reports : Prop) (st : State) : Prop :=
  ∃ es, World p root (entries ++ es) st ∧ es.length = count ∧ ((∃ e ∈ es, e.isFile = true) ↔ files) ∧
    (files → p.Writable) ∧ (st.reported = true ↔ reported = true ∨ reports)

section making
variable {p : Params} {root : Str} {entries : List Entry} {st : State}

theorem store_name (st : State) {path : Str} (short : path.length ≤ 984) (tag : Char) :
    storeName st path tag = some { st with list := st.list ++ (path ++ [tag]) ++ ['\n'] } := by
  have fits : (path ++ [tag]).length < pathSize := by
    rw [List.length_append, List.length_singleton, pathSize]
    omega
  simp only [storeName, escrivez, buffer, if_pos fits, Option.bind_eq_bind, Option.bind_some]

theorem world_next (world : World p root entries st) {n : Nat} (last : n + 1 = entries.length)
    (low : n < 26 ^ 8) {e : Entry} {dir : Str} (path : e.path = dir ++ '/' :: word 8 n)
    (short : e.path.length ≤ 984) (solid : ∀ c ∈ dir, isSpace c = false) (st' : State)
    (names : Named (n + 1) st') (list : st'.list = st.list ++ e.record ++ ['\n'])
    (fs : st'.fs = Function.update st.fs e.path (some (e.node p))) :
    World p root (entries ++ [e]) st' := by
  have new : ∀ e' ∈ entries, e'.path ≠ e.path := by
    intro e' member
    rw [path]
    exact new_path world.numbered low last member
  have some_path : e.path ≠ [] := by
    rw [path]
    simp
  refine ⟨numbered_next world.numbered last path, ?_, ?_, ?_, ?_, ?_, ?_⟩
  · rw [List.length_append, List.length_singleton]
    omega
  · rw [List.length_append, List.length_singleton, ← last]
    exact names
  · rw [list, world.list, List.flatMap_append, List.flatMap_singleton, List.append_assoc]
  · rw [fs, world.fs, fs_next p new some_path]
  · intro e' member
    rw [List.mem_append, List.mem_singleton] at member
    rcases member with before | rfl
    · exact world.short e' before
    · exact short
  · intro e' member
    rw [List.mem_append, List.mem_singleton] at member
    rcases member with before | rfl
    · exact world.solid e' before
    · refine ⟨some_path, fun c inside => ?_⟩
      rw [path, List.mem_append, List.mem_cons] at inside
      rcases inside with early | rfl | late
      · exact solid c early
      · rfl
      · exact word_no_space late

theorem find_member {entries : List Entry} (nodup : (entries.map Entry.path).Nodup) {e : Entry}
    (member : e ∈ entries) : entries.find? (·.path = e.path) = some e := by
  induction entries with
  | nil => cases member
  | cons first entries ih =>
    rw [List.map_cons, List.nodup_cons] at nodup
    by_cases same : first.path = e.path
    · rw [List.find?_cons_of_pos (by simpa using same)]
      rcases List.mem_cons.mp member with rfl | later
      · rfl
      · have again := List.mem_map.mpr ⟨e, later, same.symm⟩
        exact absurd again nodup.1
    · rw [List.find?_cons_of_neg (by simpa using same)]
      rcases List.mem_cons.mp member with rfl | later
      · exact absurd rfl same
      · exact ih nodup.2 later

theorem world_at (world : World p root entries st) {e : Entry} (member : e ∈ entries) :
    st.fs e.path = some (e.node p) := by
  have nodup := numbered_nodup world.numbered world.few
  rw [world.fs, fsOf, if_neg (world.solid e member).1, find_member nodup member]
  rfl

theorem world_new (world : World p root entries st) {n : Nat} (last : n + 1 = entries.length)
    (low : n < 26 ^ 8) (dir : Str) : st.fs (dir ++ '/' :: word 8 n) = none := by
  have new : ∀ e ∈ entries, e.path ≠ dir ++ '/' :: word 8 n :=
    fun e member => new_path world.numbered low last member
  rw [world.fs, fsOf, if_neg (by simp), find_new new]
  rfl

theorem write_loop (fs : Fs) (path text : Str) {count i : Nat} (fits : i + count < 2147483648)
    (content : Str) :
    intLoop (fun _ fs => some (Fs.write fs path text)) count i
        (Function.update fs path (some (.file content))) =
      some (Function.update fs path (some (.file (content ++ (List.replicate count text).flatten)))) := by
  induction count generalizing i content with
  | zero => simp [intLoop]
  | succ count ih =>
    have written : Fs.write (Function.update fs path (some (.file content))) path text =
        Function.update fs path (some (.file (content ++ text))) := by
      simp [Fs.write, Function.update_idem]
    rw [int_loop_turn (congrArg some written) (by omega), ih (by omega), List.replicate_succ,
      List.flatten_cons, List.append_assoc]

theorem write_gives (p : Params) (fs : Fs) (path : Str) :
    Gives p.Writable
      (fun fs' => p.Writable ∧ fs' = Function.update fs path (some ((Entry.mk path true).node p)))
      (intLoop (fun _ fs => some (Fs.write fs path path)) p.file_length.toNat 1
        (Function.update fs path (some (.file [])))) := by
  by_cases writable : p.Writable
  · have fits : 1 + p.file_length.toNat < 2147483648 := by
      rw [Params.Writable] at writable
      omega
    rw [write_loop fs path path fits []]
    exact gives_some ⟨writable, rfl⟩
  · have wide : 2147483648 ≤ 1 + p.file_length.toNat := by
      rw [Params.Writable] at writable
      omega
    rw [int_loop_overflow (by omega) wide]
    exact ⟨fun _ impossible => (by cases impossible), fun met => absurd met writable⟩

structure Renamed (n : Nat) (st st' : State) : Prop where
  names : Named (n + 1) st'
  name : st'.name = word 8 n
  fs : st'.fs = st.fs
  list : st'.list = st.list
  reported : st'.reported = st.reported

theorem new_file (world : World p root entries st) {n : Nat} (last : n + 1 = entries.length)
    (low : n < 26 ^ 8) {string : Str} (there : ⟨string, false⟩ ∈ entries)
    (short : string.length < maxPathStringLength) {st' : State} (renamed : Renamed n st st') :
    Gives p.Writable
      (fun r => ∃ next, r = .ok next ∧ World p root (entries ++ [⟨string ++ '/' :: word 8 n, true⟩]) next ∧
        p.Writable ∧ next.reported = st.reported)
      (newFile p st' (string ++ '/' :: word 8 n)) := by
  have long : (string ++ '/' :: word 8 n).length ≤ 984 := by
    simp only [List.length_append, List.length_cons, word_length]
    rw [maxPathStringLength] at short
    omega
  have created : st'.fs.creat (string ++ '/' :: word 8 n) =
      some (Function.update st.fs (string ++ '/' :: word 8 n) (some (.file []))) := by
    have above : st.fs string = some .dir := world_at world there
    rw [Fs.creat, renamed.fs, world_new world last low, parent_path, above, if_pos ⟨by simp, rfl⟩]
  rw [newFile, created]
  refine gives_bind (write_gives p st.fs _) fun fs written => ?_
  obtain ⟨writable, rfl⟩ := written
  rw [store_name _ long]
  refine gives_some ⟨_, rfl, ?_, writable, renamed.reported⟩
  exact world_next world last low rfl long (world.solid _ there).2 _ ⟨renamed.names.names, renamed.names.first,
    renamed.names.last⟩ (by rw [renamed.list]; rfl) rfl

def Below (p : Params) (root : Str) (cond : Prop) (below : Str → State → Option (Int × State)) (string : Str)
    (count : Nat) (files reports : Prop) : Prop :=
  ∀ entries st, World p root entries st → ⟨string, false⟩ ∈ entries → entries.length + count ≤ 26 ^ 8 + 1 →
    Gives cond (fun r => After p root entries st.reported count files reports r.2) (below string st)

theorem new_directory (world : World p root entries st) {n : Nat} (last : n + 1 = entries.length)
    (low : n < 26 ^ 8) {string : Str} (there : ⟨string, false⟩ ∈ entries)
    (short : string.length < maxPathStringLength) {st' : State} (renamed : Renamed n st st')
    {cond : Prop} {below : Str → State → Option (Int × State)} {count : Nat} {files reports : Prop}
    (room : entries.length + 1 + count ≤ 26 ^ 8 + 1)
    (sub : Below p root cond below (string ++ '/' :: word 8 n) count files reports) :
    Gives cond
      (fun r => ∃ ret next, r = .ok (ret, next) ∧
        After p root (entries ++ [⟨string ++ '/' :: word 8 n, false⟩]) st.reported count files reports next)
      (newDirectory below st' (string ++ '/' :: word 8 n)) := by
  have long : (string ++ '/' :: word 8 n).length ≤ 984 := by
    simp only [List.length_append, List.length_cons, word_length]
    rw [maxPathStringLength] at short
    omega
  have made : st'.fs.mkdir (string ++ '/' :: word 8 n) =
      some (Function.update st.fs (string ++ '/' :: word 8 n) (some .dir)) := by
    have above : st.fs string = some .dir := world_at world there
    rw [Fs.mkdir, renamed.fs, world_new world last low, parent_path, above, if_pos ⟨rfl, rfl⟩]
  rw [newDirectory, made]
  simp only [store_name _ long, Option.bind_eq_bind, Option.bind_some]
  have next := world_next (e := ⟨string ++ '/' :: word 8 n, false⟩) world last low rfl long
    (world.solid _ there).2
    { st' with
      fs := Function.update st.fs (string ++ '/' :: word 8 n) (some .dir)
      list := st'.list ++ (string ++ '/' :: word 8 n ++ ['D']) ++ ['\n'] }
    ⟨renamed.names.names, renamed.names.first, renamed.names.last⟩ (by rw [renamed.list]; rfl) rfl
  have tree := sub _ _ next (by simp) (by rw [List.length_append, List.length_singleton]; exact room)
  refine gives_bind tree fun r after => gives_some ⟨_, _, rfl, ?_⟩
  rwa [← renamed.reported]

/-- The state before the turn with the counter at `k`. -/
structure AtTurn (p : Params) (root : Str) (entries : List Entry) (reported : Bool) (level count : Nat)
    (files reports : Prop) (k : Nat) (t : Turn) : Prop where
  after : After p root entries reported (k + directories level k * count)
    (directories level k < k ∨ 0 < directories level k ∧ files) (0 < directories level k ∧ reports) t.st
  switch : t.switch_flag = true ↔ (level + k) % 2 = 1

theorem spent_le (level count : Nat) {k n : Nat} (inside : k < n) :
    k + 1 + directories level (k + 1) * count ≤ n + directories level n * count := by
  have more := Nat.mul_le_mul_right count (directories_mono level (show k + 1 ≤ n by omega))
  omega

section after
variable {level count k : Nat} {files reports : Prop} {reported : Bool} {es : List Entry} {path : Str}
  {next : State}

theorem after_file (world : World p root (entries ++ es ++ [⟨path, true⟩]) next) (odd : (level + k) % 2 = 1)
    (made : es.length = k + directories level k * count) (can : p.Writable)
    (has_reported : next.reported = true ↔ reported = true ∨ 0 < directories level k ∧ reports) :
    After p root entries reported (k + 1 + directories level (k + 1) * count)
      (directories level (k + 1) < k + 1 ∨ 0 < directories level (k + 1) ∧ files)
      (0 < directories level (k + 1) ∧ reports) next := by
  have few := directories_le level k
  rw [directories_file odd]
  refine ⟨es ++ [⟨path, true⟩], ?_, ?_, ?_, fun _ => can, has_reported⟩
  · rw [← List.append_assoc]
    exact world
  · rw [List.length_append, List.length_singleton, made]
    omega
  · have now : directories level k < k + 1 := by omega
    simp [now]

theorem files_around (es es' : List Entry) (path : Str) :
    (∃ e ∈ es ++ [⟨path, false⟩] ++ es', e.isFile = true) ↔
      (∃ e ∈ es, e.isFile = true) ∨ ∃ e ∈ es', e.isFile = true := by
  constructor
  · rintro ⟨e, member, file⟩
    rw [List.mem_append, List.mem_append, List.mem_singleton] at member
    rcases member with (before | rfl) | below
    · exact Or.inl ⟨e, before, file⟩
    · cases file
    · exact Or.inr ⟨e, below, file⟩
  · rintro (⟨e, before, file⟩ | ⟨e, below, file⟩)
    · exact ⟨e, List.mem_append_left _ (List.mem_append_left _ before), file⟩
    · exact ⟨e, List.mem_append_right _ below, file⟩

theorem or_below {early some_before sub : Prop} :
    (early ∨ some_before ∧ sub) ∨ sub ↔ early ∨ sub := by
  by_cases below : sub
  · simp [below]
  · simp [below]

theorem after_directory (even : (level + k) % 2 = 0) (made : es.length = k + directories level k * count)
    (has_file : (∃ e ∈ es, e.isFile = true) ↔ directories level k < k ∨ 0 < directories level k ∧ files)
    (can_write : directories level k < k ∨ 0 < directories level k ∧ files → p.Writable) {so_far : Bool}
    (has_reported : so_far = true ↔ reported = true ∨ 0 < directories level k ∧ reports)
    (tree : After p root (entries ++ es ++ [⟨path, false⟩]) so_far count files reports next) :
    After p root entries reported (k + 1 + directories level (k + 1) * count)
      (directories level (k + 1) < k + 1 ∨ 0 < directories level (k + 1) ∧ files)
      (0 < directories level (k + 1) ∧ reports) next := by
  obtain ⟨es', world', made', has_file', can_write', has_reported'⟩ := tree
  rw [directories_directory even]
  refine ⟨es ++ [⟨path, false⟩] ++ es', ?_, ?_, ?_, ?_, ?_⟩
  · rw [← List.append_assoc, ← List.append_assoc]
    exact world'
  · rw [List.length_append, List.length_append, List.length_singleton, made, made', Nat.add_mul, Nat.one_mul]
    omega
  · have less : directories level k + 1 < k + 1 ↔ directories level k < k := by omega
    rw [files_around, has_file, has_file', or_below, less, and_iff_right (Nat.succ_pos _)]
  · rintro (early | ⟨_, later⟩)
    · exact can_write (Or.inl (by omega))
    · exact can_write' later
  · rw [has_reported', has_reported, or_below, and_iff_right (Nat.succ_pos _)]

end after

theorem turn_gives {level count n : Nat} {files reports cond : Prop} {string : Str} {reported : Bool}
    {below : Str → State → Option (Int × State)} (there : ⟨string, false⟩ ∈ entries)
    (short : string.length < maxPathStringLength)
    (room : entries.length + (n + directories level n * count) ≤ 26 ^ 8 + 1)
    (writable : cond → directories level n < n → p.Writable)
    (sub : 0 < directories level n →
      ∀ m, Below p root cond below (string ++ '/' :: word 8 m) count files reports) {k : Nat}
    (inside : k < n) {t : Turn} (here : AtTurn p root entries reported level count files reports k t) :
    Gives cond
      (fun r => ∃ t', r = .ok t' ∧ AtTurn p root entries reported level count files reports (k + 1) t')
      (turn p below string k t) := by
  obtain ⟨⟨es, world, made, has_file, can_write, has_reported⟩, switch⟩ := here
  have spent := spent_le level count inside
  have length : (entries ++ es).length = entries.length + (k + directories level k * count) := by
    rw [List.length_append, made]
  have some_entry : 0 < entries.length := List.length_pos_of_mem there
  obtain ⟨m, last⟩ : ∃ m, m + 1 = (entries ++ es).length := ⟨(entries ++ es).length - 1, by omega⟩
  have grows := Nat.mul_le_mul_right count (directories_mono level (show k ≤ k + 1 by omega))
  have low : m < 26 ^ 8 := by omega
  have named := world.names
  rw [← last, Nat.add_sub_cancel] at named
  obtain ⟨st', given, names, name, fs, list, same⟩ := next_name named low
  have fits : (string ++ '/' :: word 8 m).length < pathSize := by
    simp only [List.length_append, List.length_cons, word_length, pathSize]
    rw [maxPathStringLength] at short
    omega
  have inner : ⟨string, false⟩ ∈ entries ++ es := List.mem_append_left es there
  have renamed : Renamed m t.st st' := ⟨names, name, fs, list, same⟩
  simp only [turn, given, name, buffer, if_pos fits, Option.bind_eq_bind, Option.bind_some]
  by_cases odd : (level + k) % 2 = 1
  · rw [if_pos (switch.mpr odd)]
    have allowed : cond → p.Writable := fun met => writable met (some_file odd inside)
    refine gives_bind (gives_cond (new_file world last low inner short renamed) allowed) fun r done => ?_
    obtain ⟨next, rfl, world', can, reported'⟩ := done
    rw [← reported'] at has_reported
    exact gives_some ⟨_, rfl, after_file world' odd made can has_reported,
      by simp only [Bool.false_eq_true, false_iff]; omega⟩
  · have even : (level + k) % 2 = 0 := by omega
    rw [if_neg fun set => odd (switch.mp set)]
    have some_directory := directories_mono level (show k + 1 ≤ n by omega)
    rw [directories_directory even] at some_directory
    rw [directories_directory even, Nat.add_mul, Nat.one_mul] at spent
    refine gives_bind (new_directory world last low inner short renamed (by omega)
      (sub (by omega) m)) fun r done => ?_
    obtain ⟨ret, next, rfl, tree⟩ := done
    exact gives_some ⟨_, rfl, after_directory even made has_file can_write has_reported tree,
      by simp only [true_iff]; omega⟩

end making

def Params.breadth (p : Params) : Nat := (p.max_breadth + 1).toNat

/-- The counters of the loops fit in an `int`. -/
def Counts (p : Params) (left len level : Nat) : Prop :=
  (left ≠ 0 → len < maxPathStringLength → p.breadth < 2147483648) ∧ (MakesFile p.breadth left len level → p.Writable)

section generate
variable {p : Params} {root : Str}

theorem counts_below {left len level : Nat} (short : len < maxPathStringLength)
    (some_directory : 0 < directories level p.breadth) (counts : Counts p (left + 1) len level) :
    Counts p left (len + 9) (level + 1) :=
  ⟨fun _ _ => counts.1 (by omega) short, fun makes => counts.2 ⟨short, Or.inr ⟨some_directory, makes⟩⟩⟩

theorem call_gives {left level : Nat} {string : Str} (short : string.length < maxPathStringLength)
    {entries : List Entry} {st : State} (world : World p root entries st)
    (there : ⟨string, false⟩ ∈ entries)
    (room : entries.length + needed p.breadth (left + 1) string.length level ≤ 26 ^ 8 + 1)
    (sub : ∀ m, Below p root (Counts p left (string.length + 9) (level + 1))
      (fun new_string st => generate p left new_string (level + 1) st) (string ++ '/' :: word 8 m)
      (needed p.breadth left (string.length + 9) (level + 1))
      (MakesFile p.breadth left (string.length + 9) (level + 1))
      (Reaches p.breadth left (string.length + 9) (level + 1))) :
    Gives (Counts p (left + 1) string.length level)
      (fun r => p.breadth < 2147483648 ∧
        After p root entries st.reported (needed p.breadth (left + 1) string.length level)
          (MakesFile p.breadth (left + 1) string.length level)
          (Reaches p.breadth (left + 1) string.length level) r.2)
      (generate p (left + 1) string level st) := by
  have not_long : ¬ maxPathStringLength ≤ string.length := by omega
  rw [needed, if_neg not_long] at room
  have begun : AtTurn p root entries st.reported level
      (needed p.breadth left (string.length + 9) (level + 1))
      (MakesFile p.breadth left (string.length + 9) (level + 1))
      (Reaches p.breadth left (string.length + 9) (level + 1)) 0 ⟨level % 2 = 1, 0, st⟩ := by
    have none_yet : directories level 0 = 0 := by
      simp only [directories]
      omega
    refine ⟨⟨[], ?_, ?_, ?_, ?_, ?_⟩, ?_⟩
    · rwa [List.append_nil]
    · simp [none_yet]
    · simp [none_yet]
    · simp [none_yet]
    · simp [none_yet]
    · simp
  have writable : Counts p (left + 1) string.length level → directories level p.breadth < p.breadth →
      p.Writable := fun counts some_file => counts.2 ⟨short, Or.inl some_file⟩
  have sub' : 0 < directories level p.breadth → ∀ m, Below p root (Counts p (left + 1) string.length level)
        (fun new_string st => generate p left new_string (level + 1) st) (string ++ '/' :: word 8 m)
        (needed p.breadth left (string.length + 9) (level + 1))
        (MakesFile p.breadth left (string.length + 9) (level + 1))
        (Reaches p.breadth left (string.length + 9) (level + 1)) :=
    fun some_directory m entries st world there room =>
      gives_cond (sub m entries st world there room) (counts_below short some_directory)
  have loop := gives_loop _ p.breadth 0
    (fun k t _ inside here => turn_gives there short room writable sub' (by omega) here)
    (fun counts => by have high := counts.1 (by omega) short; omega) (by omega) begun
  rw [generate, if_neg not_long]
  refine gives_bind loop fun r done => ?_
  obtain ⟨fits, t, rfl, after, _⟩ := done
  rw [Nat.zero_add] at after fits
  refine gives_some ⟨fits, ?_⟩
  rw [needed, if_neg not_long, MakesFile, Reaches]
  simpa only [short, true_and, not_long, false_or] using after

theorem long_gives {left level : Nat} {string : Str} (long : maxPathStringLength ≤ string.length)
    {entries : List Entry} {st : State} (world : World p root entries st) {cond : Prop} :
    Gives cond
      (fun r => After p root entries st.reported (needed p.breadth left string.length level)
        (MakesFile p.breadth left string.length level) (Reaches p.breadth left string.length level) r.2)
      (generate p left string level st) := by
  have no_file : ¬ MakesFile p.breadth left string.length level :=
    fun makes => absurd (makes_file_short makes) (by omega)
  have reaches : Reaches p.breadth left string.length level := reaches_long long
  have ended : generate p left string level st = some (-1, { st with reported := true }) := by
    cases left with
    | zero => rw [generate, if_pos long]
    | succ left => rw [generate, if_pos long]
  rw [ended, needed_long long]
  refine gives_some ⟨[], ?_, rfl, ?_, fun makes => absurd makes no_file, ?_⟩
  · rw [List.append_nil]
    obtain ⟨numbered, few, names, list, fs, short, solid⟩ := world
    exact ⟨numbered, few, ⟨names.names, names.first, names.last⟩, list, fs, short, solid⟩
  · simp [no_file]
  · simp [reaches]

theorem last_gives {level : Nat} {string : Str} (short : string.length < maxPathStringLength)
    {entries : List Entry} {st : State} (world : World p root entries st) {cond : Prop} :
    Gives cond
      (fun r => After p root entries st.reported (needed p.breadth 0 string.length level)
        (MakesFile p.breadth 0 string.length level) (Reaches p.breadth 0 string.length level) r.2)
      (generate p 0 string level st) := by
  have not_long : ¬ maxPathStringLength ≤ string.length := by omega
  rw [generate, if_neg not_long]
  refine gives_some ⟨[], by rwa [List.append_nil], rfl, ?_, fun makes => makes.elim, ?_⟩
  · simp [MakesFile]
  · simp only [Reaches, not_long, or_false]

theorem generate_gives (left : Nat) (string : Str) (level : Nat) :
    Below p root (Counts p left string.length level) (fun string st => generate p left string level st)
      string (needed p.breadth left string.length level) (MakesFile p.breadth left string.length level)
      (Reaches p.breadth left string.length level) := by
  induction left generalizing string level with
  | zero =>
    intro entries st world there room
    by_cases long : maxPathStringLength ≤ string.length
    · exact long_gives long world
    · exact last_gives (by omega) world
  | succ left ih =>
    intro entries st world there room
    by_cases long : maxPathStringLength ≤ string.length
    · exact long_gives long world
    · have sub : ∀ m, Below p root (Counts p left (string.length + 9) (level + 1))
          (fun new_string st => generate p left new_string (level + 1) st) (string ++ '/' :: word 8 m)
          (needed p.breadth left (string.length + 9) (level + 1))
          (MakesFile p.breadth left (string.length + 9) (level + 1))
          (Reaches p.breadth left (string.length + 9) (level + 1)) := by
        intro m
        have tree := ih (string ++ '/' :: word 8 m) (level + 1)
        have length : (string ++ '/' :: word 8 m).length = string.length + 9 := by simp
        rwa [length] at tree
      have call := call_gives (by omega) world there room sub
      exact ⟨fun r ran => (call.right r ran).2, call.given⟩

end generate
end Inode
