import Vte.Base.Snprintf

/-!
lib/get_path.c: `tst_get_path`, which builds one path after the other in the caller's buffer and stops
at the first that is a readable file.
-/
namespace GetPath
open Text CString Memory Snprintf

/-- `access(path, R_OK)` succeeds; the mode that `stat` finds. -/
structure Files where
  access : Str → Bool
  stat : Str → Option (BitVec 32)

def S_IFMT : BitVec 32 := 0xF000
def S_IFREG : BitVec 32 := 0x8000

def fileExist (files : Files) (path : Str) : Bool :=
  files.access path && (files.stat path).any fun st_mode => st_mode &&& S_IFMT == S_IFREG

section lookup
variable (files : Files) (prog_name : Str) (buf buf_len : Nat)

/-- The component from `start` to `fin`, or to the end of `path`, is put into the buffer. -/
def copyComponent (path : Str) (start : Nat) (fin : Option Nat) (mem : Str) : Option Str := do
  let text ← cstr path start
  let (mem, _) ← match fin with
    | some fin => snprintf mem buf (min buf_len (fin - start + 1)) text
    | none => snprintf mem buf buf_len text
  some mem

def orDot (mem : Str) : Option Str := do
  let text ← cstr mem buf
  if text.length = 0 then
    let (mem, _) ← snprintf mem buf buf_len ['.']
    some mem
  else some mem

/-- The name is put behind the directory: the memory, `size` and `ret`. -/
def appendName (mem : Str) : Option (Str × Nat × Nat) := do
  let size := (← cstr mem buf).length
  let last ← mem[buf + size - 1]?
  let (mem, ret) ←
    if last ≠ '/' then snprintf mem (buf + size) (buf_len - size) ('/' :: prog_name)
    else snprintf mem (buf + size) (buf_len - size) prog_name
  some (mem, size, ret)

def tryComponent (path : Str) (start : Nat) (fin : Option Nat) (mem : Str) :
    Option (Bool × Str) := do
  let mem ← copyComponent buf buf_len path start fin mem
  let mem ← orDot buf buf_len mem
  let (mem, size, ret) ← appendName prog_name buf buf_len mem
  let built ← cstr mem buf
  some (decide (buf_len - size > ret) && fileExist files built, mem)

def components (path : Str) : Nat → Nat → Str → Option (Int × Str)
  | 0, _, _ => none
  | fuel + 1, start, mem => do
    let fin ← strchr path start ':'
    let (found, mem) ← tryComponent files prog_name buf buf_len path start fin mem
    if found then some (0, mem)
    else
      match fin with
      | some fin => components path fuel (fin + 1) mem
      | none => some (-1, mem)

/-- The value and the memory after the call; none when an access leaves the memory or the loop does not
    end within a pass for each byte of PATH. -/
def tst_get_path (env : Option CStr) (mem : Str) : Option (Int × Str) :=
  match env with
  | none => some (-1, mem)
  | some path =>
    components files prog_name buf buf_len path.block (path.chars.length + 1) 0 mem

end lookup

def dirName (component : Str) : Str := if component = [] then ['.'] else component

def suffix (prog_name dir : Str) : Str :=
  if dir.getLast? = some '/' then prog_name else '/' :: prog_name

def joined (prog_name component : Str) : Str :=
  dirName component ++ suffix prog_name (dirName component)

def usable (files : Files) (buf_len : Nat) (path : Str) : Bool :=
  decide (path.length < buf_len) && fileExist files path

def pieces : Option CStr → List Str
  | none => []
  | some path => path.chars.splitOn ':'

def firstPath (files : Files) (prog_name : Str) (buf_len : Nat) (list : List Str) : Option Str :=
  (list.map (joined prog_name)).find? (usable files buf_len)

section proofs
variable {files : Files} {prog_name : Str} {buf buf_len : Nat}

/-- The buffer holds `s`, and nothing outside it has changed since `mem`. -/
structure Built (mem later : Str) (buf buf_len : Nat) (s : Str) : Prop where
  text : At later buf s
  frame : Frame mem later buf buf_len

theorem built_cstr {mem later s : Str} (built : Built mem later buf buf_len s) :
    cstr later buf = some s := at_cstr built.text

theorem built_copy {mem s : Str} {size : Nat} (plain : nul ∉ s) (some_size : 0 < size)
    (inside : size ≤ buf_len) (room : buf + buf_len ≤ mem.length) :
    ∃ later, snprintf mem buf size s = some (later, s.length) ∧ Built mem later buf buf_len (s.take (size - 1)) := by
  have start : ∃ tail, mem.drop buf = [] ++ tail := ⟨_, rfl⟩
  obtain ⟨later, call, text, frame⟩ := snprintf_append start (by simp) plain some_size
    (by simp only [List.length_nil]; omega)
  exact ⟨later, call, text, frame_step (k := 0) (frame_refl mem _ _) frame (Nat.zero_le _)
    (by omega)⟩

theorem built_append {mem middle base s : Str} (before : Built mem middle buf buf_len base)
    (plain : nul ∉ s) (short : base.length < buf_len) (room : buf + buf_len ≤ mem.length) :
    ∃ later, snprintf middle (buf + base.length) (buf_len - base.length) s = some (later, s.length) ∧
      Built mem later buf buf_len (base ++ s.take (buf_len - base.length - 1)) := by
  obtain ⟨plain_base, tail, start⟩ := before.text
  have size := before.frame.length
  obtain ⟨later, call, text, frame⟩ := snprintf_append ⟨_, start⟩ plain_base plain
    (by omega) (show buf + base.length + (buf_len - base.length) ≤ middle.length by omega)
  exact ⟨later, call, text, frame_step before.frame frame (Nat.le_refl _) (by omega)⟩

theorem dir_name_some (component : Str) : dirName component ≠ [] := by
  unfold dirName
  split
  · simp
  · assumption

theorem suffix_plain {dir : Str} (plain : nul ∉ prog_name) : nul ∉ suffix prog_name dir := by
  unfold suffix
  split
  · exact plain
  · simp [plain, show nul ≠ '/' by decide]

theorem suffix_length (prog_name dir : Str) (named : prog_name ≠ []) :
    0 < (suffix prog_name dir).length := by
  unfold suffix
  split
  · exact List.length_pos_iff.mpr named
  · simp

/-- What is decided once the text has been built: the size test passes just for a joined path that
    fits, and then all of it has been built. -/
theorem size_test {dir text : Str} (named : 0 < (suffix prog_name text).length)
    (copy : text = dir.take (buf_len - 1)) (two : 2 ≤ buf_len) :
    (buf_len - text.length > (suffix prog_name text).length ↔ (dir ++ suffix prog_name dir).length < buf_len) ∧
      (buf_len - text.length > (suffix prog_name text).length →
        text ++ (suffix prog_name text).take (buf_len - text.length - 1) = dir ++ suffix prog_name dir) := by
  by_cases whole : dir.length ≤ buf_len - 1
  · obtain rfl : text = dir := by rw [copy, List.take_of_length_le whole]
    refine ⟨by rw [List.length_append]; omega, fun fits => ?_⟩
    rw [List.take_of_length_le (by omega)]
  · have size : text.length = buf_len - 1 := by
      rw [copy, List.length_take]
      omega
    have full : ¬ buf_len - text.length > (suffix prog_name text).length := by omega
    refine ⟨⟨fun fits => absurd fits full, fun fits => ?_⟩, fun fits => absurd fits full⟩
    rw [List.length_append] at fits
    omega

theorem copy_component {path mem c tail : Str} {start : Nat} {fin : Option Nat} (two : 2 ≤ buf_len)
    (room : buf + buf_len ≤ mem.length) (here : At path start (c ++ tail))
    (ends : fin = if tail = [] then none else some (start + c.length)) :
    ∃ later, copyComponent buf buf_len path start fin mem = some later ∧
      Built mem later buf buf_len (c.take (buf_len - 1)) := by
  rw [copyComponent, at_cstr here, ends]
  by_cases last : tail = []
  · obtain ⟨later, call, built⟩ := built_copy here.1 (by omega) (Nat.le_refl buf_len) room
    rw [last, List.append_nil] at built
    exact ⟨later, by simp [last] at call ⊢; simp [call], built⟩
  · obtain ⟨later, call, built⟩ := built_copy here.1 (show 0 < min buf_len (c.length + 1) by omega)
      (Nat.min_le_left _ _) room
    have part : (c ++ tail).take (min buf_len (c.length + 1) - 1) = c.take (buf_len - 1) := by
      rw [List.take_append_of_le_length (by omega)]
      by_cases short : c.length ≤ buf_len - 1
      · rw [List.take_of_length_le short, List.take_of_length_le (by omega)]
      · rw [show min buf_len (c.length + 1) - 1 = buf_len - 1 by omega]
    rw [part] at built
    refine ⟨later, ?_, built⟩
    simp only [if_neg last, Nat.add_sub_cancel_left, Option.bind_eq_bind, Option.bind_some, call]

theorem or_dot {mem first c : Str} (two : 2 ≤ buf_len) (room : buf + buf_len ≤ mem.length)
    (built : Built mem first buf buf_len (c.take (buf_len - 1))) :
    ∃ later, orDot buf buf_len first = some later ∧ Built mem later buf buf_len ((dirName c).take (buf_len - 1)) := by
  rw [orDot, built_cstr built]
  by_cases empty : c = []
  · have size : buf + buf_len ≤ first.length := by
      rw [built.frame.length]
      exact room
    obtain ⟨later, call, dot⟩ := built_copy (show nul ∉ ['.'] by decide) (by omega)
      (Nat.le_refl buf_len) size
    refine ⟨later, by simp [empty, call], ?_⟩
    rw [dirName, if_pos empty]
    exact ⟨dot.text, frame_step (k := 0) built.frame dot.frame (Nat.le_refl _) (by omega)⟩
  · have size := List.length_pos_iff.mpr empty
    have some_text : ¬ (c.take (buf_len - 1)).length = 0 := by
      rw [List.length_take]
      omega
    refine ⟨first, by simp only [Option.bind_eq_bind, Option.bind_some, if_neg some_text], ?_⟩
    rw [dirName, if_neg empty]
    exact built

theorem append_name {mem second text : Str} (room : buf + buf_len ≤ mem.length)
    (plain : nul ∉ prog_name) (dir : Built mem second buf buf_len text) (some_text : text ≠ [])
    (short : text.length < buf_len) :
    ∃ later, appendName prog_name buf buf_len second = some (later, text.length, (suffix prog_name text).length) ∧
      Built mem later buf buf_len
        (text ++ (suffix prog_name text).take (buf_len - text.length - 1)) := by
  have size := List.length_pos_iff.mpr some_text
  have last : second[buf + text.length - 1]? = text.getLast? := by
    obtain ⟨_, rest, start_eq⟩ := dir.text
    rw [List.getLast?_eq_getElem?, show buf + text.length - 1 = buf + (text.length - 1) by omega,
      ← List.getElem?_drop, start_eq, List.getElem?_append_left (by omega)]
  obtain ⟨d, last_char⟩ : ∃ d, text.getLast? = some d :=
    ⟨_, List.getLast?_eq_some_getLast some_text⟩
  obtain ⟨later, append, final⟩ := built_append dir (suffix_plain plain) (by omega) room
  refine ⟨later, ?_, final⟩
  rw [appendName, built_cstr dir]
  simp only [Option.bind_eq_bind, Option.bind_some, last, last_char]
  by_cases slash : d = '/'
  · have name : suffix prog_name text = prog_name := if_pos (by rw [last_char, slash])
    rw [name] at append ⊢
    simp only [slash, ne_eq, not_true_eq_false, if_false, append, Option.bind_some]
  · have name : suffix prog_name text = '/' :: prog_name := by
      apply if_neg
      rw [last_char, Option.some.injEq]
      exact slash
    rw [name] at append ⊢
    simp only [slash, ne_eq, not_false_eq_true, if_true, append, Option.bind_some]

theorem try_component (files : Files) {path mem c tail : Str} {start : Nat} {fin : Option Nat}
    (two : 2 ≤ buf_len)
    (room : buf + buf_len ≤ mem.length) (named : prog_name ≠ []) (plain : nul ∉ prog_name)
    (here : At path start (c ++ tail))
    (ends : fin = if tail = [] then none else some (start + c.length)) :
    ∃ later, tryComponent files prog_name buf buf_len path start fin mem =
        some (usable files buf_len (joined prog_name c), later) ∧
      Frame mem later buf buf_len ∧
      (usable files buf_len (joined prog_name c) = true → cstr later buf = some (joined prog_name c)) := by
  obtain ⟨first, copy, built⟩ := copy_component two room here ends
  obtain ⟨second, dot, dir⟩ := or_dot two room built
  have some_dir := List.length_pos_iff.mpr (dir_name_some c)
  have size : ((dirName c).take (buf_len - 1)).length = min (buf_len - 1) (dirName c).length :=
    List.length_take
  have some_text : (dirName c).take (buf_len - 1) ≠ [] := List.length_pos_iff.mp (by omega)
  generalize text_eq : (dirName c).take (buf_len - 1) = text at dir some_text size
  obtain ⟨later, append, final⟩ := append_name room plain dir some_text (by omega)
  have test := size_test (suffix_length prog_name text named) text_eq.symm two
  have found : usable files buf_len (joined prog_name c) =
      (decide (buf_len - text.length > (suffix prog_name text).length) && fileExist files
        (text ++ (suffix prog_name text).take (buf_len - text.length - 1))) := by
    rw [usable, joined]
    by_cases fits : buf_len - text.length > (suffix prog_name text).length
    · rw [test.2 fits, decide_eq_true fits, decide_eq_true (test.1.mp fits)]
    · rw [decide_eq_false fits, decide_eq_false (mt test.1.mpr fits)]
      rfl
  refine ⟨later, ?_, final.frame, ?_⟩
  · rw [tryComponent, copy]
    simp only [Option.bind_eq_bind, Option.bind_some, dot, append, built_cstr final, found]
  · intro good
    rw [found, Bool.and_eq_true, decide_eq_true_iff] at good
    rw [built_cstr final, test.2 good.1, joined]

/-- A call that went over the components `list`: it wrote to the buffer only, and it found the first
    usable path or none. -/
structure Looked (files : Files) (prog_name : Str) (buf buf_len : Nat) (list : List Str)
    (mem : Str) (value : Int) (later : Str) : Prop where
  frame : Frame mem later buf buf_len
  found : ∀ path, firstPath files prog_name buf_len list = some path → value = 0 ∧ cstr later buf = some path
  missing : firstPath files prog_name buf_len list = none → value = -1

theorem first_path_hit {c : Str} {list : List Str}
    (good : usable files buf_len (joined prog_name c) = true) :
    firstPath files prog_name buf_len (c :: list) = some (joined prog_name c) := by
  simp [firstPath, good]

theorem first_path_miss {c : Str} {list : List Str}
    (bad : usable files buf_len (joined prog_name c) = false) :
    firstPath files prog_name buf_len (c :: list) = firstPath files prog_name buf_len list := by
  simp [firstPath, bad]

theorem looked_hit {mem later c : Str} {list : List Str} (frame : Frame mem later buf buf_len)
    (good : usable files buf_len (joined prog_name c) = true)
    (text : cstr later buf = some (joined prog_name c)) :
    Looked files prog_name buf buf_len (c :: list) mem 0 later := by
  refine ⟨frame, ?_, ?_⟩
  · intro path first
    rw [first_path_hit good] at first
    exact ⟨rfl, by rw [text, Option.some.inj first]⟩
  · intro none_found
    rw [first_path_hit good] at none_found
    cases none_found

theorem looked_miss {mem middle later c : Str} {list : List Str} {value : Int}
    (frame : Frame mem middle buf buf_len)
    (bad : usable files buf_len (joined prog_name c) = false)
    (rest : Looked files prog_name buf buf_len list middle value later) :
    Looked files prog_name buf buf_len (c :: list) mem value later := by
  refine ⟨frame_step (k := 0) frame rest.frame (Nat.le_refl _) (by omega), ?_, ?_⟩
  · rw [first_path_miss bad]
    exact rest.found
  · rw [first_path_miss bad]
    exact rest.missing

theorem components_looked {path mem text : Str} {start fuel : Nat} (two : 2 ≤ buf_len)
    (room : buf + buf_len ≤ mem.length) (named : prog_name ≠ []) (plain : nul ∉ prog_name)
    (here : At path start text) (enough : text.length < fuel) :
    ∃ value later, components files prog_name buf buf_len path fuel start mem = some (value, later) ∧
      Looked files prog_name buf buf_len (text.splitOn ':') mem value later := by
  induction fuel generalizing start text mem with
  | zero => omega
  | succ fuel ih =>
    rcases pieces_cut ':' text with ⟨single, cut⟩ | ⟨c, rest, parts, fresh, cut⟩
    · have whole : At path start (text ++ []) := by rwa [List.append_nil]
      obtain ⟨later, call, frame, built⟩ := try_component files two room named plain whole
        (show none = if ([] : Str) = [] then none else some (start + text.length) from rfl)
      rw [cut, components, strchr_none here single]
      simp only [Option.bind_eq_bind, Option.bind_some, call]
      cases good : usable files buf_len (joined prog_name text) with
      | true => exact ⟨0, later, rfl, looked_hit frame good (built good)⟩
      | false =>
        refine ⟨-1, later, rfl, looked_miss frame good ⟨frame_refl _ _ _, ?_, fun _ => rfl⟩⟩
        intro path first
        cases first
    · rw [parts] at here
      obtain ⟨later, call, frame, built⟩ := try_component files two room named plain here
        (show some (start + c.length) = if ':' :: rest = [] then none else _ from rfl)
      rw [cut, components, strchr_some here fresh]
      simp only [Option.bind_eq_bind, Option.bind_some, call]
      cases good : usable files buf_len (joined prog_name c) with
      | true => exact ⟨0, later, rfl, looked_hit frame good (built good)⟩
      | false =>
        have next : At path (start + c.length + 1) rest := by
          have after : At path start ((c ++ [':']) ++ rest) := by
            rw [List.append_assoc]
            exact here
          have moved := at_suffix after
          rwa [List.length_append, List.length_singleton, ← Nat.add_assoc] at moved
        have shorter : rest.length < fuel := by
          rw [parts, List.length_append, List.length_cons] at enough
          omega
        have size : buf + buf_len ≤ later.length := by
          rw [frame.length]
          exact room
        obtain ⟨value, last, run, looked⟩ := ih size next shorter
        exact ⟨value, last, run, looked_miss frame good looked⟩

theorem first_path_some_iff {list : List Str} :
    (∃ path, firstPath files prog_name buf_len list = some path) ↔
      ∃ c ∈ list, usable files buf_len (joined prog_name c) = true := by
  rw [← Option.isSome_iff_exists, firstPath, List.find?_isSome]
  simp

end proofs

/-- The call returns 0 just when the path of some component fits the buffer and names a readable regular
    file; the buffer then holds the first such path. Otherwise it returns -1. It changes nothing outside
    the buffer. -/
theorem tst_get_path_first (files : Files) (prog : CStr) (env : Option CStr) (mem : Str)
    (buf buf_len : Nat) (named : prog.chars ≠ []) (two : 2 ≤ buf_len)
    (room : buf + buf_len ≤ mem.length) :
    ∃ value later, tst_get_path files prog.chars buf buf_len env mem = some (value, later) ∧
      Frame mem later buf buf_len ∧ (value = 0 ∨ value = -1) ∧
      (value = 0 ↔ ∃ c ∈ pieces env, usable files buf_len (joined prog.chars c) = true) ∧
      (value = 0 → ∃ path, firstPath files prog.chars buf_len (pieces env) = some path ∧
        cstr later buf = some path) := by
  obtain ⟨value, later, run, looked⟩ : ∃ value later,
      tst_get_path files prog.chars buf buf_len env mem = some (value, later) ∧
        Looked files prog.chars buf buf_len (pieces env) mem value later := by
    cases env with
    | none => exact ⟨-1, mem, rfl, frame_refl _ _ _, fun _ first => (nomatch first), fun _ => rfl⟩
    | some path =>
      exact components_looked two room named prog.plain (block_at path) (Nat.lt_succ_self _)
  refine ⟨value, later, run, looked.frame, ?_⟩
  rw [← first_path_some_iff]
  cases first : firstPath files prog.chars buf_len (pieces env) with
  | none =>
    obtain rfl := looked.missing first
    exact ⟨.inr rfl, ⟨fun zero => absurd zero (by decide), fun ⟨_, found⟩ => (nomatch found)⟩,
      fun zero => absurd zero (by decide)⟩
  | some path =>
    obtain ⟨rfl, text⟩ := looked.found path first
    exact ⟨.inl rfl, ⟨fun _ => ⟨path, rfl⟩, fun _ => rfl⟩, fun _ => ⟨path, rfl, text⟩⟩

def hereOnly : Files where
  access path := path == "./ls".toList
  stat _ := some 0x81ED

theorem tst_get_path_in_current_directory :
    ∃ later, tst_get_path hereOnly "ls".toList 1 5 (some ⟨"/bin:".toList, by decide⟩)
        "#######".toList = some (0, later) ∧
      Frame "#######".toList later 1 5 ∧ cstr later 1 = some "./ls".toList := by
  obtain ⟨value, later, run, frame, _, zero, found⟩ := tst_get_path_first hereOnly
    ⟨"ls".toList, by decide⟩ (some ⟨"/bin:".toList, by decide⟩) "#######".toList 1 5
    (by decide) (by decide) (by decide)
  obtain rfl := zero.mpr ⟨[], by decide, by decide⟩
  obtain ⟨path, first, text⟩ := found rfl
  have same : firstPath hereOnly "ls".toList 5 (pieces (some ⟨"/bin:".toList, by decide⟩)) =
      some "./ls".toList := by decide
  rw [same] at first
  obtain rfl := Option.some.inj first
  exact ⟨later, run, frame, text⟩

end GetPath
