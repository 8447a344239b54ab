import Mathlib.Data.List.TakeWhile
import Vte.Fs.InodeTree

/-!
The check of inode02.c against what `generate` has left: when it passes, by the three numbers that the
program is given.
-/
namespace Inode
open IntLoop Multiples Text Words

section check
variable {p : Params} {root : Str} {entries : List Entry} {st : State}

theorem list_tokens (entries : List Entry) (solid : ∀ e ∈ entries, ∀ c ∈ e.path, isSpace c = false) :
    tokens isSpace (entries.flatMap fun e => e.record ++ ['\n']) = entries.map Entry.record := by
  induction entries with
  | nil => rfl
  | cons e entries ih =>
    have word : ∀ c ∈ e.record, isSpace c = false := by
      intro c member
      rw [Entry.record, List.mem_append, List.mem_singleton] at member
      rcases member with inside | rfl
      · exact solid e (by simp) c inside
      · cases file : e.isFile <;> simp [Entry.tag, file, isSpace]
    have some_word : e.record ≠ [] := by simp [Entry.record]
    have newline : isSpace '\n' = true := rfl
    rw [List.flatMap_cons, List.append_assoc, List.singleton_append, tokens_append newline,
      tokens_alone some_word word, ih fun e' member => solid e' (List.mem_cons_of_mem e member)]
    rfl

/-- What is left of a file before the turn with the counter at `j`. -/
def readings (path : Str) (times j : Nat) : Reading :=
  (some (List.replicate (times + 1 - j) path).flatten, if j = 1 then 0 else (path.length : Int))

theorem read_turn {path : Str} (short : path.length ≤ 984) {times j : Nat} (begun : 0 < j)
    (more : j < 1 + times) :
    readTurn path j (readings path times j) = some (.ok (readings path times (j + 1))) := by
  obtain ⟨left, again⟩ : ∃ left, times + 1 - j = left + 1 := ⟨times - j, by omega⟩
  have rest : times + 1 - (j + 1) = left := by omega
  have fits : path.length < pathSize := by
    rw [pathSize]
    omega
  have next : j + 1 ≠ 1 := by omega
  rw [readings, readings, again, rest, List.replicate_succ, List.flatten_cons, readTurn]
  simp only [List.take_left, List.drop_left, buffer, if_pos fits, Option.bind_eq_bind,
    Option.bind_some, ne_eq, not_true_eq_false, if_false, if_neg next]

theorem check_file (writable : p.Writable) {path : Str} (some_path : path ≠ []) (short : path.length ≤ 984) :
    checkFile p path (some (List.replicate p.file_length.toNat path).flatten) =
      if p.file_length.toNat = 0 then some (.error (-2)) else some (.ok ()) := by
  have positive := List.length_pos_iff.mpr some_path
  have fits : True → 1 + p.file_length.toNat < 2147483648 := by
    rw [Params.Writable] at writable
    omega
  have begun : (some (List.replicate p.file_length.toNat path).flatten, (0 : Int)) =
      readings path p.file_length.toNat 1 := rfl
  have loop : Gives True
      (fun r => 1 + p.file_length.toNat < 2147483648 ∧
        ∃ t, r = .ok t ∧ t = readings path p.file_length.toNat (1 + p.file_length.toNat))
      (intLoopE (readTurn path) p.file_length.toNat 1
        (some (List.replicate p.file_length.toNat path).flatten, 0)) := by
    refine gives_loop (fun j r => r = readings path p.file_length.toNat j) p.file_length.toNat 1
      (fun j r low high here => ?_) fits (by omega) begun
    subst here
    rw [read_turn short low high]
    exact gives_some ⟨_, rfl, rfl⟩
  obtain ⟨r, ran⟩ := loop.given trivial
  obtain ⟨_, t, rfl, rfl⟩ := loop.right r ran
  rw [checkFile, ran]
  by_cases empty : p.file_length.toNat = 0
  · simp [empty, readings]
  · simp [empty, some_path, readings]

theorem check_record (world : World p root entries st) {e : Entry} (member : e ∈ entries)
    (writable : e.isFile = true → p.Writable) :
    checkRecord p st.fs e.record =
      if e.isFile = true ∧ p.file_length.toNat = 0 then some (.error (-2)) else some (.ok ()) := by
  have short := world.short e member
  have fits : e.record.length < pathSize := by
    rw [Entry.record, List.length_append, List.length_singleton, pathSize]
    omega
  have path : e.record.dropLast = e.path := by simp [Entry.record]
  have tag : e.record.getLast? = some e.tag := by simp [Entry.record]
  have found := world_at world member
  rw [checkRecord, buffer, if_pos fits]
  simp only [Option.bind_eq_bind, Option.bind_some, path, tag]
  cases file : e.isFile with
  | false =>
    have directory : e.node p = .dir := by simp [Entry.node, file]
    rw [found, directory]
    simp [Entry.tag, file]
  | true =>
    have content : e.node p = .file (List.replicate p.file_length.toNat e.path).flatten := by
      simp [Entry.node, file]
    rw [found, content]
    simp only [Entry.tag, file, if_true, true_and]
    exact check_file (writable file) (world.solid e member).1 short

theorem check_records (world : World p root entries st) (es : List Entry) (some_of : ∀ e ∈ es, e ∈ entries)
    (writable : (∃ e ∈ es, e.isFile = true) → p.Writable) :
    checkRecords p st.fs (es.map Entry.record) =
      if (∃ e ∈ es, e.isFile = true) ∧ p.file_length.toNat = 0 then some (-2) else some 0 := by
  induction es with
  | nil => simp [checkRecords]
  | cons e es ih =>
    have first := check_record world (some_of e (by simp)) fun file => writable ⟨e, by simp, file⟩
    have rest := ih (fun e' member => some_of e' (List.mem_cons_of_mem e member)) fun file => by
      obtain ⟨e', member, is_file⟩ := file
      exact writable ⟨e', List.mem_cons_of_mem e member, is_file⟩
    rw [List.map_cons, checkRecords, first]
    by_cases bad : e.isFile = true ∧ p.file_length.toNat = 0
    · rw [if_pos bad, if_pos ⟨⟨e, by simp, bad.1⟩, bad.2⟩]
      rfl
    · rw [if_neg bad, Option.bind_eq_bind, Option.bind_some, rest]
      by_cases empty : p.file_length.toNat = 0
      · have other : e.isFile ≠ true := fun file => bad ⟨file, empty⟩
        simp [other]
      · simp [empty]

end check

section root
variable {pid : Nat}

theorem decimal_digits (pid : Nat) : decimal pid = Nat.toDigits 10 pid := by
  rw [decimal, if_neg (by omega), Int.natAbs_natCast]

theorem root_length (small : pid < 2147483648) : (rootPath pid).length ≤ 18 := by
  have digits : (Nat.toDigits 10 pid).length ≤ 10 := to_digits_length (by omega) (by omega)
  rw [rootPath, List.length_append, decimal_digits]
  simp only [List.length_cons, List.length_nil]
  omega

theorem root_chars {c : Char} (member : c ∈ rootPath pid) : c ≠ '/' ∧ isSpace c = false := by
  rw [rootPath, List.mem_append, decimal_digits] at member
  rcases member with start | digit
  · have all : (['i', 'n', 'o', 'd', 'e', '0', '2', '.'].all fun c => c != '/' && !isSpace c) = true := by decide
    have here := List.all_eq_true.mp all c start
    simpa using here
  · have is_digit := to_digits_digit digit
    refine ⟨?_, digit_not_space is_digit⟩
    rintro rfl
    exact absurd is_digit (by decide)

theorem root_parent (pid : Nat) : parent (rootPath pid) = [] := by
  have skipped : ∀ c ∈ (rootPath pid).reverse, (c != '/') = true := by
    intro c member
    rw [List.mem_reverse] at member
    exact bne_iff_ne.mpr (root_chars member).1
  rw [parent, List.dropWhile_eq_nil_iff.mpr skipped]
  rfl

theorem root_some (pid : Nat) : rootPath pid ≠ [] := by
  simp [rootPath]

def rootState (pid : Nat) : State :=
  ⟨0, [], Function.update emptyFs (rootPath pid) (some .dir), rootPath pid ++ ['D'] ++ ['\n'], false, []⟩

theorem root_world (p : Params) (small : pid < 2147483648) :
    World p (rootPath pid) [⟨rootPath pid, false⟩] (rootState pid) := by
  have length := root_length small
  refine ⟨⟨rfl, fun slash => (root_chars slash).1 rfl, ?_⟩, ?_, ⟨rfl, fun _ => rfl, ?_⟩, ?_, ?_, ?_, ?_⟩
  · intro i e at_i
    simp at at_i
  · simp
  · intro m impossible
    simp at impossible
  · simp [rootState, Entry.record, Entry.tag]
  · have next : Function.update (fsOf p []) (rootPath pid) (some .dir) = fsOf p [⟨rootPath pid, false⟩] :=
      fs_next p (e := ⟨rootPath pid, false⟩) (by simp) (root_some pid)
    have empty : fsOf p [] = emptyFs := rfl
    rw [empty] at next
    exact next
  · intro e member
    obtain rfl := List.mem_singleton.mp member
    dsimp only
    omega
  · intro e member
    obtain rfl := List.mem_singleton.mp member
    exact ⟨root_some pid, fun c inside => (root_chars inside).2⟩

theorem tree_generate (p : Params) (small : pid < 2147483648) :
    tree p pid = (generate p p.max_depth.toNat (rootPath pid) 0 (rootState pid)).bind fun r =>
      (check p r.2).map fun ch_ret_val => ⟨r.1, ch_ret_val, r.2⟩ := by
  have length := root_length small
  have made : emptyFs.mkdir (rootPath pid) = some (Function.update emptyFs (rootPath pid) (some .dir)) := by
    rw [Fs.mkdir, root_parent, if_pos ⟨by simp [emptyFs, root_some], rfl⟩]
  have path : (rootPath pid).length < pathSize := by
    rw [pathSize]
    omega
  have remove : (['r', 'm', ' ', '-', 'r', 'f', ' '] ++ rootPath pid).length < pathSize + 9 := by
    simp only [List.length_append, List.length_cons, List.length_nil, pathSize]
    omega
  have list : (rootPath pid ++ ['/', 'p', 'a', 't', 'h', '_', 'l', 'i', 's', 't']).length < pathSize + 9 := by
    simp only [List.length_append, List.length_cons, List.length_nil, pathSize]
    omega
  simp only [tree, buffer, if_pos path, made, if_pos remove, if_pos list,
    store_name _ (show (rootPath pid).length ≤ 984 by omega), Option.bind_eq_bind, Option.bind_some]
  show (generate p p.max_depth.toNat (rootPath pid) 0 (rootState pid)).bind _ = _
  congr 1
  funext r
  cases check p r.2 <;> rfl

end root

/-- What is right about a run: names in the order of the dictionary, one record for everything that there is,
and a check that finds nothing unless the maximum length was reached. -/
structure Sound (p : Params) (out : Outcome) : Prop where
  names : out.st.names.Pairwise (· < ·)
  records : ∃ entries : List Entry, out.st.list = (entries.flatMap fun e => e.record ++ ['\n']) ∧
    (entries.map Entry.path).Nodup ∧
    ∀ path node, path ≠ [] → (out.st.fs path = some node ↔ ∃ e ∈ entries, e.path = path ∧ e.node p = node)
  check : out.ch_ret_val = 0 ∨ out.st.reported = true

def Right (p : Params) (pid : Nat) : Prop := ∃ out, tree p pid = some out ∧ Sound p out

def Params.names (p : Params) (pid : Nat) : Nat :=
  needed p.breadth p.max_depth.toNat (rootPath pid).length 0

def Params.Files (p : Params) : Prop :=
  1 ≤ p.max_depth ∧ 1 ≤ p.max_breadth ∨ 2 ≤ p.max_depth ∧ 0 ≤ p.max_breadth

instance (p : Params) : Decidable p.Files :=
  inferInstanceAs (Decidable (1 ≤ p.max_depth ∧ 1 ≤ p.max_breadth ∨ 2 ≤ p.max_depth ∧ 0 ≤ p.max_breadth))

def Params.Deep (p : Params) (pid : Nat) : Prop :=
  1 ≤ p.max_breadth ∧ 976 ≤ (rootPath pid).length + 9 * p.max_depth

/-- The counters of the loops fit in an `int`, and files are written to. -/
structure Checked (p : Params) (pid : Nat) : Prop where
  breadth : 1 ≤ p.max_depth → p.max_breadth + 1 < 2147483648
  written : p.Files → p.file_length + 1 < 2147483648 ∧ (1 ≤ p.file_length ∨ p.Deep pid)

section closed
variable {n : Nat}

theorem makes_file_iff (left : Nat) {len : Nat} (short : len + 9 < maxPathStringLength) :
    MakesFile n left len 0 ↔ 1 ≤ left ∧ 2 ≤ n ∨ 2 ≤ left ∧ 1 ≤ n := by
  cases left with
  | zero => simp [MakesFile]
  | succ left =>
    have half : directories 0 n = (n + 1) / 2 := rfl
    cases left with
    | zero =>
      simp only [MakesFile, and_false, or_false, half]
      omega
    | succ left =>
      have other : directories 1 n = n / 2 := rfl
      have sub : MakesFile n (left + 1) (len + 9) 1 ↔ n / 2 < n ∨ 0 < n / 2 ∧ MakesFile n left (len + 18) 2 := by
        rw [MakesFile, other]
        exact and_iff_right short
      simp only [MakesFile, half] at sub ⊢
      constructor
      · omega
      · intro one
        refine ⟨by omega, ?_⟩
        by_cases two : (n + 1) / 2 < n
        · exact Or.inl two
        · exact Or.inr ⟨by omega, sub.mpr (Or.inl (by omega))⟩

theorem reaches_wide (wide : 2 ≤ n) (left len level : Nat) :
    Reaches n left len level ↔ maxPathStringLength ≤ len + 9 * left := by
  induction left generalizing len level with
  | zero => simp [Reaches]
  | succ left ih =>
    have some_directory : 0 < directories level n := by
      simp only [directories]
      omega
    rw [Reaches, ih (len + 9) (level + 1), and_iff_right some_directory]
    omega

theorem reaches_iff (left : Nat) {len : Nat} (short : len + 9 < maxPathStringLength) :
    Reaches n left len 0 ↔ 2 ≤ n ∧ maxPathStringLength ≤ len + 9 * left := by
  by_cases wide : 2 ≤ n
  · rw [reaches_wide wide, and_iff_right wide]
  · have half : directories 0 n = (n + 1) / 2 := rfl
    have other : directories 1 n = n / 2 := rfl
    match left with
    | 0 =>
      simp only [Reaches]
      omega
    | 1 =>
      simp only [Reaches, half]
      omega
    | left + 2 =>
      simp only [Reaches, half, other]
      omega

end closed

section runs
variable {p : Params} {pid : Nat}

theorem files_iff (small : pid < 2147483648) :
    MakesFile p.breadth p.max_depth.toNat (rootPath pid).length 0 ↔ p.Files := by
  have length := root_length small
  rw [makes_file_iff _ (by rw [maxPathStringLength]; omega), Params.Files, Params.breadth]
  omega

theorem deep_iff (small : pid < 2147483648) :
    Reaches p.breadth p.max_depth.toNat (rootPath pid).length 0 ↔ p.Deep pid := by
  have length := root_length small
  rw [reaches_iff _ (by rw [maxPathStringLength]; omega), Params.Deep, Params.breadth, maxPathStringLength]
  omega

theorem root_gives (small : pid < 2147483648) (enough : p.names pid < 26 ^ 8) :
    Gives (Counts p p.max_depth.toNat (rootPath pid).length 0)
      (fun r => After p (rootPath pid) [⟨rootPath pid, false⟩] false (p.names pid) p.Files (p.Deep pid) r.2)
      (generate p p.max_depth.toNat (rootPath pid) 0 (rootState pid)) := by
  have room : [(⟨rootPath pid, false⟩ : Entry)].length + p.names pid ≤ 26 ^ 8 + 1 := by
    rw [List.length_singleton]
    omega
  have tree := generate_gives p.max_depth.toNat (rootPath pid) 0 _ _ (root_world p small) (by simp) room
  rw [files_iff small, deep_iff small] at tree
  exact tree

theorem root_counted (small : pid < 2147483648) (enough : p.names pid < 26 ^ 8) {r : Int × State}
    (ran : generate p p.max_depth.toNat (rootPath pid) 0 (rootState pid) = some r)
    (some_level : 1 ≤ p.max_depth) : p.breadth < 2147483648 := by
  have length := root_length small
  obtain ⟨left, levels⟩ : ∃ left, p.max_depth.toNat = left + 1 := ⟨p.max_depth.toNat - 1, by omega⟩
  rw [Params.names, levels] at enough
  rw [levels] at ran
  have room : [(⟨rootPath pid, false⟩ : Entry)].length +
      needed p.breadth (left + 1) (rootPath pid).length 0 ≤ 26 ^ 8 + 1 := by
    rw [List.length_singleton]
    omega
  have call := call_gives (by rw [maxPathStringLength]; omega) (root_world p small) (by simp) room
    fun m => by
      have tree : Below p (rootPath pid) (Counts p left (rootPath pid ++ '/' :: word 8 m).length 1) _ _ _ _ _ :=
        generate_gives left (rootPath pid ++ '/' :: word 8 m) 1
      have longer : (rootPath pid ++ '/' :: word 8 m).length = (rootPath pid).length + 9 := by simp
      rwa [longer] at tree
  exact (call.right r ran).1

theorem check_after {st : State}
    (after : After p (rootPath pid) [⟨rootPath pid, false⟩] false (p.names pid) p.Files (p.Deep pid) st) :
    check p st = if p.Files ∧ p.file_length.toNat = 0 then some (-2) else some 0 := by
  obtain ⟨es, world, _, has_file, can_write, _⟩ := after
  have files : (∃ e ∈ [⟨rootPath pid, false⟩] ++ es, e.isFile = true) ↔ p.Files := by
    rw [← has_file]
    simp
  rw [check, world.list, list_tokens _ fun e member => (world.solid e member).2,
    check_records world _ (fun e member => member) fun file => can_write (files.mp file)]
  exact if_congr (and_congr_left' files) rfl rfl

theorem after_sound {r : Int × State} {ch : Int}
    (after : After p (rootPath pid) [⟨rootPath pid, false⟩] false (p.names pid) p.Files (p.Deep pid) r.2)
    (checked : ch = 0 ∨ p.Deep pid) : Sound p ⟨r.1, ch, r.2⟩ := by
  obtain ⟨es, world, _, _, _, has_reported⟩ := after
  have few := world.few
  refine ⟨?_, ⟨[⟨rootPath pid, false⟩] ++ es, world.list, numbered_nodup world.numbered world.few, ?_⟩, ?_⟩
  · rw [world.names.names, List.pairwise_map]
    refine List.pairwise_lt_range.imp_of_mem fun _ inside less => word_lt less ?_
    rw [List.mem_range] at inside
    omega
  · intro path node some_path
    constructor
    · intro found
      rw [world.fs, fsOf, if_neg some_path] at found
      obtain ⟨e, here, same⟩ := Option.map_eq_some_iff.mp found
      have path_same := List.find?_some here
      exact ⟨e, List.mem_of_find?_eq_some here, by simpa using path_same, same⟩
    · rintro ⟨e, member, rfl, rfl⟩
      exact world_at world member
  · rcases checked with zero | deep
    · exact Or.inl zero
    · exact Or.inr (has_reported.mpr (Or.inr deep))

theorem right_checked (small : pid < 2147483648) (enough : p.names pid < 26 ^ 8) (right : Right p pid) :
    Checked p pid := by
  obtain ⟨out, ran, sound⟩ := right
  rw [tree_generate p small, Option.bind_eq_some_iff] at ran
  obtain ⟨r, generated, checked⟩ := ran
  have after := (root_gives small enough).right r generated
  rw [check_after after] at checked
  obtain ⟨ch, value, rfl⟩ := Option.map_eq_some_iff.mp checked
  obtain ⟨_, _, _, _, can_write, has_reported⟩ := after
  constructor
  · intro some_level
    have fits := root_counted small enough generated some_level
    rw [Params.breadth] at fits
    omega
  · intro files
    have writable := can_write files
    rw [Params.Writable] at writable
    refine ⟨by omega, ?_⟩
    rcases sound.check with zero | reported
    · by_cases empty : p.file_length.toNat = 0
      · rw [if_pos ⟨files, empty⟩] at value
        rw [← Option.some.inj value] at zero
        cases zero
      · exact Or.inl (by omega)
    · rcases has_reported.mp reported with begun | deep
      · cases begun
      · exact Or.inr deep

theorem checked_right (small : pid < 2147483648) (enough : p.names pid < 26 ^ 8)
    (checked : Checked p pid) : Right p pid := by
  have counts : Counts p p.max_depth.toNat (rootPath pid).length 0 := by
    constructor
    · intro some_level _
      have fits := checked.breadth (by omega)
      rw [Params.breadth]
      omega
    · intro makes
      have fits := (checked.written ((files_iff small).mp makes)).1
      rw [Params.Writable]
      omega
  have gives := root_gives small enough
  obtain ⟨r, generated⟩ := gives.given counts
  have after := gives.right r generated
  have ended := check_after after
  by_cases empty : p.Files ∧ p.file_length.toNat = 0
  · rw [if_pos empty] at ended
    have deep : p.Deep pid := by
      rcases (checked.written empty.1).2 with some_write | deep
      · omega
      · exact deep
    refine ⟨⟨r.1, -2, r.2⟩, ?_, after_sound after (Or.inr deep)⟩
    rw [tree_generate p small, generated, Option.bind_some, ended]
    rfl
  · rw [if_neg empty] at ended
    refine ⟨⟨r.1, 0, r.2⟩, ?_, after_sound after (Or.inl rfl)⟩
    rw [tree_generate p small, generated, Option.bind_some, ended]
    rfl

end runs

/-- The generator and the check agree exactly when the counters fit and every file is written to, or the
maximum length of a path was reached. -/
theorem tree_right_iff (p : Params) (pid : Nat) (small : pid < 2147483648)
    (enough : p.names pid < 26 ^ 8) : Right p pid ↔ Checked p pid :=
  ⟨right_checked small enough, checked_right small enough⟩

theorem tree_right_iff_two_levels : Right ⟨2, 2, 3⟩ 77 ↔ Checked ⟨2, 2, 3⟩ 77 :=
  tree_right_iff ⟨2, 2, 3⟩ 77 (by decide) (by decide)

theorem empty_files_refused :
    ¬ ∀ (p : Params) (pid : Nat), pid < 2147483648 → p.names pid < 26 ^ 8 → Right p pid := by
  intro all
  have right := all ⟨1, 1, 0⟩ 77 (by decide) (by decide)
  have checked := right_checked (by decide) (by decide) right
  have written := checked.written (Or.inl ⟨by decide, by decide⟩)
  have short : ¬ (⟨1, 1, 0⟩ : Params).Deep 77 := by
    rintro ⟨_, deep⟩
    exact absurd deep (by decide)
  rcases written.2 with some_write | deep
  · exact absurd some_write (by decide)
  · exact short deep


end Inode
