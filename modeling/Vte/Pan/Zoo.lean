import Mathlib.Data.List.Induction
import Mathlib.Data.Multiset.MapFold
import Vte.Base.Bytes
import Vte.Base.Text

/-!
pan/zoolib.c: the file of running test tags. Each call runs under the file lock, so a run of
several processes is a sequence of calls; the streams read the current file contents.
The file is a table of 79 character slots, each free or holding one mark.
-/
namespace VteZoo
open Bytes Text

abbrev Pid := BitVec 32

def bufLen : Nat := 81

/-- The loop both calls share: the first line that `hit` accepts, with its position.
    `none` is a loop that has not ended, `some none` the end of the file. -/
def findLine (hit : Str → Bool) (file : Str) : Nat → Nat → Option (Option (Nat × Str))
  | 0, _ => none
  | fuel + 1, pos =>
    match fgets bufLen file pos with
    | none => some none
    | some (buf, next) =>
      if hit buf then some (some (pos, buf)) else findLine hit file fuel next

/-- `fprintf(fp, "%-*.*s\n", width, width, entry)` -/
def fixedLine (width : Nat) (entry : Str) : Str := padRight width (entry.take width) ++ ['\n']

def zooMark (file entry : Str) : Option (Str × Int) := do
  let found ← findLine (fun buf => buf.head? = some '#') file (file.length + 1) 0
  match found with
  | some (pos, buf) => return (writeAt ' ' file pos (fixedLine (buf.length - 1) entry), 0)
  | none => return (file ++ fixedLine 79 entry, 0)

/-- `snprintf(new_entry, 80, "%d,%s,%s", p, tag, cmdline)` -/
def newEntry (p : Pid) (tag cmdline : Str) : Str :=
  (decimal p.toInt ++ ',' :: (tag ++ ',' :: cmdline)).take 79

def zooMarkCmdline (file : Str) (p : Pid) (tag cmdline : Str) : Option (Str × Int) :=
  zooMark file (newEntry p tag cmdline)

def zooClear (file : Str) (p : Pid) : Option (Str × Int) := do
  let found ← findLine (fun buf => buf.head? ≠ some '#' ∧ BitVec.ofInt 32 (atoi buf) = p) file
    (file.length + 1) 0
  match found with
  | some (pos, _) => return (writeAt ' ' file pos ['#'], 0)
  | none => return (file, 1)

structure Mark where
  pid : Pid
  tag : Str
  cmdline : Str
  tagSingle : '\n' ∉ tag
  cmdlineSingle : '\n' ∉ cmdline

inductive Call where
  | mark (m : Mark)
  | clear (p : Pid)

def zooCall (file : Str) : Call → Option (Str × Int)
  | .mark m => zooMarkCmdline file m.pid m.tag m.cmdline
  | .clear p => zooClear file p

abbrev RunState := Str × List (Call × Int)

def runCall (st : RunState) (c : Call) : Option RunState := do
  let (file, ret) ← zooCall st.1 c
  return (file, st.2 ++ [(c, ret)])

def runCalls (calls : List Call) : Option RunState := calls.foldlM runCall ([], [])

def Mark.line (m : Mark) : Str := padRight 79 (newEntry m.pid m.tag m.cmdline)

def FixedWidth (file : Str) (lines : List Str) : Prop :=
  file = lines.flatMap (· ++ ['\n']) ∧ ∀ l ∈ lines, l.length = 79 ∧ '\n' ∉ l

def isFree (l : Str) : Bool := l.head? = some '#'

/-- The marks not yet cleared after a history of calls; a clear that returns 0 takes away one
    mark of its pid, and it returns 1 only when there is none. -/
inductive Outstanding : List (Call × Int) → Multiset Mark → Prop where
  | nil : Outstanding [] 0
  | mark {done bag} (m : Mark) : Outstanding done bag → Outstanding (done ++ [(.mark m, 0)]) (m ::ₘ bag)
  | clear {done bag} (m : Mark) : Outstanding done (m ::ₘ bag) → Outstanding (done ++ [(.clear m.pid, 0)]) bag
  | miss {done bag} (p : Pid) : Outstanding done bag → (∀ m ∈ bag, m.pid ≠ p) →
      Outstanding (done ++ [(.clear p, 1)]) bag

inductive Slot where
  | free (rest : Str) (width : rest.length = 78) (single : '\n' ∉ rest)
  | live (m : Mark)

def Slot.line : Slot → Str
  | .free rest _ _ => '#' :: rest
  | .live m => m.line

def Slot.bytes (s : Slot) : Str := s.line ++ ['\n']

def Slot.mark? : Slot → Option Mark
  | .free .. => none
  | .live m => some m

theorem new_entry_no_newline (m : Mark) : '\n' ∉ newEntry m.pid m.tag m.cmdline := by
  intro mem
  have mem := List.mem_of_mem_take mem
  simp [decimal_no_newline, m.tagSingle, m.cmdlineSingle] at mem

theorem decimal_head (i : Int) : ∃ c cs, decimal i = c :: cs ∧ c ≠ '#' := by
  obtain ⟨c, cs, digits, digit⟩ := to_digits_head i.natAbs
  unfold decimal
  split
  · exact ⟨_, _, rfl, by decide⟩
  · refine ⟨c, cs, digits, ?_⟩
    rintro rfl
    exact absurd digit (by decide)

theorem mark_not_free (m : Mark) : isFree m.line = false := by
  obtain ⟨c, cs, head, other⟩ := decimal_head m.pid.toInt
  simp [isFree, Mark.line, padRight, newEntry, head, other]

theorem decimal_short (p : Pid) : (decimal p.toInt).length ≤ 11 := by
  have range := BitVec.toInt_lt (x := p)
  have bound := BitVec.le_toInt (x := p)
  have small : (Nat.toDigits 10 p.toInt.natAbs).length ≤ 10 := by
    apply to_digits_length (by decide)
    omega
  unfold decimal
  split
  · rw [List.length_cons]
    omega
  · omega

theorem digit_free_comma (rest : Str) : DigitFree (',' :: rest) := by
  intro c mem
  obtain rfl : ',' = c := by simpa using mem
  decide

theorem mark_atoi (m : Mark) (rest : Str) : atoi (m.line ++ rest) = m.pid.toInt := by
  have short := decimal_short m.pid
  obtain ⟨k, room⟩ : ∃ k, 79 - (decimal m.pid.toInt).length = k + 1 :=
    ⟨78 - (decimal m.pid.toInt).length, by omega⟩
  simp only [Mark.line, padRight, newEntry, List.append_assoc, List.take_append, room,
    List.take_succ_cons, List.take_of_length_le (Nat.le_trans short (by decide : 11 ≤ 79)),
    List.cons_append]
  exact atoi_decimal m.pid.toInt (digit_free_comma _)

theorem mark_line_width (m : Mark) : m.line.length = 79 := by
  simp [Mark.line, padRight, newEntry]

theorem mark_line_no_newline (m : Mark) : '\n' ∉ m.line := by
  simp [Mark.line, padRight, new_entry_no_newline m]

theorem slot_width (s : Slot) : s.line.length = 79 := by
  cases s with
  | free rest width _ => simp [Slot.line, width]
  | live m => exact mark_line_width m

theorem slot_no_newline (s : Slot) : '\n' ∉ s.line := by
  cases s with
  | free rest _ single => simp [Slot.line, single]
  | live m => exact mark_line_no_newline m

theorem slot_bytes_length (s : Slot) : s.bytes.length = 80 := by
  simp [Slot.bytes, slot_width]

theorem slot_free (s : Slot) : isFree s.line = s.mark?.isNone := by
  cases s with
  | free rest _ _ => rfl
  | live m => exact mark_not_free m

theorem slot_head (s : Slot) : s.bytes.head? = s.line.head? := by
  have width := slot_width s
  rw [Slot.bytes, List.head?_append]
  cases line : s.line with
  | nil => simp [line] at width
  | cons c cs => rfl

theorem slots_fixed_width (slots : List Slot) :
    FixedWidth (slots.flatMap Slot.bytes) (slots.map Slot.line) := by
  constructor
  · rw [List.flatMap_map]
    rfl
  · intro l mem
    obtain ⟨s, _, rfl⟩ := List.mem_map.mp mem
    exact ⟨slot_width s, slot_no_newline s⟩

theorem slots_live (slots : List Slot) :
    (slots.map Slot.line).filter (fun l => !isFree l) = (slots.filterMap Slot.mark?).map Mark.line := by
  induction slots with
  | nil => rfl
  | cons s slots ih =>
    cases s with
    | free rest _ _ =>
      rw [List.map_cons, List.filter_cons_of_neg (by simp [Slot.line, isFree]), ih]
      rfl
    | live m => simp [Slot.line, Slot.mark?, mark_not_free, ih]

theorem find_slot (hit : Str → Bool) (after : List Slot) :
    ∀ (before : List Slot) (fuel : Nat), after.length < fuel →
    (∃ pre s post, after = pre ++ s :: post ∧ (∀ t ∈ pre, hit t.bytes = false) ∧ hit s.bytes = true ∧
      findLine hit ((before ++ after).flatMap Slot.bytes) fuel (before.flatMap Slot.bytes).length =
        some (some (((before ++ pre).flatMap Slot.bytes).length, s.bytes))) ∨
    ((∀ t ∈ after, hit t.bytes = false) ∧
      findLine hit ((before ++ after).flatMap Slot.bytes) fuel (before.flatMap Slot.bytes).length = some none) := by
  induction after with
  | nil =>
    intro before fuel enough
    obtain ⟨fuel, rfl⟩ : ∃ k, fuel = k + 1 := ⟨fuel - 1, by omega⟩
    right
    rw [List.append_nil, findLine, fgets_end]
    exact ⟨by simp, rfl⟩
  | cons s after ih =>
    intro before fuel enough
    obtain ⟨fuel, rfl⟩ : ∃ k, fuel = k + 1 := ⟨fuel - 1, by omega⟩
    have read := @fgets_line bufLen _ (slot_no_newline s)
      (by rw [slot_width]; decide) (before.flatMap Slot.bytes) (after.flatMap Slot.bytes)
    have file : (before ++ s :: after).flatMap Slot.bytes =
        before.flatMap Slot.bytes ++ (s.line ++ '\n' :: after.flatMap Slot.bytes) := by
      simp [Slot.bytes]
    have next : (before.flatMap Slot.bytes).length + (s.line.length + 1) =
        ((before ++ [s]).flatMap Slot.bytes).length := by
      simp [Slot.bytes]
    have step : findLine hit ((before ++ s :: after).flatMap Slot.bytes) (fuel + 1)
        (before.flatMap Slot.bytes).length =
        if hit s.bytes then some (some ((before.flatMap Slot.bytes).length, s.bytes))
        else findLine hit ((before ++ s :: after).flatMap Slot.bytes) fuel
          ((before ++ [s]).flatMap Slot.bytes).length := by
      rw [findLine, file, read, ← next]
      rfl
    rw [step]
    by_cases found : hit s.bytes = true
    · left
      refine ⟨[], s, after, rfl, by simp, found, ?_⟩
      rw [if_pos found, List.append_nil]
    · have missed : hit s.bytes = false := by simpa using found
      rw [if_neg found]
      have rest := ih (before ++ [s]) fuel (by simp at enough; omega)
      rw [List.append_assoc, List.singleton_append] at rest
      rcases rest with ⟨pre, t, post, split, others, here, run⟩ | ⟨others, run⟩
      · left
        refine ⟨s :: pre, t, post, by simp [split], ?_, here, ?_⟩
        · intro u mem
          rcases List.mem_cons.mp mem with rfl | mem
          · exact missed
          · exact others u mem
        · rw [run, List.append_assoc, List.singleton_append]
      · right
        refine ⟨?_, run⟩
        intro u mem
        rcases List.mem_cons.mp mem with rfl | mem
        · exact missed
        · exact others u mem

theorem slots_fuel (slots : List Slot) : slots.length < (slots.flatMap Slot.bytes).length + 1 := by
  induction slots with
  | nil => decide
  | cons s slots ih =>
    rw [List.flatMap_cons, List.length_append, slot_bytes_length, List.length_cons]
    omega

theorem find_in_file (hit : Str → Bool) (slots : List Slot) :
    (∃ pre s post, slots = pre ++ s :: post ∧ hit s.bytes = true ∧
      findLine hit (slots.flatMap Slot.bytes) ((slots.flatMap Slot.bytes).length + 1) 0 =
        some (some ((pre.flatMap Slot.bytes).length, s.bytes))) ∨
    ((∀ t ∈ slots, hit t.bytes = false) ∧
      findLine hit (slots.flatMap Slot.bytes) ((slots.flatMap Slot.bytes).length + 1) 0 = some none) := by
  rcases find_slot hit slots [] _ (slots_fuel slots) with ⟨pre, s, post, split, _, here, run⟩ | rest
  · exact Or.inl ⟨pre, s, post, split, here, run⟩
  · exact Or.inr rest

theorem overwrite_slot (pre post : List Slot) (s t : Slot) :
    writeAt ' ' ((pre ++ s :: post).flatMap Slot.bytes) (pre.flatMap Slot.bytes).length t.bytes =
      (pre ++ t :: post).flatMap Slot.bytes := by
  have split : ∀ u : Slot, (pre ++ u :: post).flatMap Slot.bytes =
      pre.flatMap Slot.bytes ++ u.bytes ++ post.flatMap Slot.bytes := by
    intro u
    simp
  rw [split s, split t, write_at_middle]
  rw [slot_bytes_length, slot_bytes_length]

theorem fixed_line_mark (m : Mark) :
    fixedLine 79 (newEntry m.pid m.tag m.cmdline) = (Slot.live m).bytes := by
  have short : (newEntry m.pid m.tag m.cmdline).length ≤ 79 := by
    rw [newEntry, List.length_take]
    exact Nat.min_le_left _ _
  rw [fixedLine, List.take_of_length_le short]
  rfl

theorem mark_slots (slots : List Slot) (m : Mark) :
    (∃ pre s post, slots = pre ++ s :: post ∧ s.mark? = none ∧ zooCall (slots.flatMap Slot.bytes) (.mark m) =
        some ((pre ++ Slot.live m :: post).flatMap Slot.bytes, 0)) ∨
    ((∀ s ∈ slots, s.mark? ≠ none) ∧ zooCall (slots.flatMap Slot.bytes) (.mark m) =
        some ((slots ++ [Slot.live m]).flatMap Slot.bytes, 0)) := by
  have free : ∀ s : Slot, decide (s.bytes.head? = some '#') = s.mark?.isNone := by
    intro s
    rw [slot_head, ← slot_free]
    rfl
  rcases find_in_file (fun buf => buf.head? = some '#') slots with
    ⟨pre, s, post, rfl, here, run⟩ | ⟨others, run⟩
  · left
    rw [free] at here
    refine ⟨pre, s, post, rfl, by simpa using here, ?_⟩
    simp only [zooCall, zooMarkCmdline, zooMark, run, Option.bind_eq_bind, Option.bind_some,
      slot_bytes_length, Nat.reduceSub, fixed_line_mark, overwrite_slot, Option.pure_def]
  · right
    refine ⟨?_, ?_⟩
    · intro s mem
      have other := others s mem
      rw [free] at other
      intro none
      simp [none] at other
    · simp only [zooCall, zooMarkCmdline, zooMark, run, Option.bind_eq_bind, Option.bind_some,
        fixed_line_mark, Option.pure_def, List.flatMap_append, List.flatMap_singleton]

theorem mark_line_tail (m : Mark) : m.line.tail.length = 78 ∧ '\n' ∉ m.line.tail := by
  refine ⟨by rw [List.length_tail, mark_line_width], ?_⟩
  intro mem
  exact mark_line_no_newline m (List.mem_of_mem_tail mem)

/-- The slot a cleared mark leaves behind: its first character becomes `#`. -/
def cleared (m : Mark) : Slot := .free m.line.tail (mark_line_tail m).1 (mark_line_tail m).2

theorem clear_slot (pre post : List Slot) (m : Mark) :
    writeAt ' ' ((pre ++ Slot.live m :: post).flatMap Slot.bytes) (pre.flatMap Slot.bytes).length
      ['#'] = (pre ++ cleared m :: post).flatMap Slot.bytes := by
  have width := mark_line_width m
  obtain ⟨c, cs, line⟩ : ∃ c cs, m.line = c :: cs := by
    cases line : m.line with
    | nil => simp [line] at width
    | cons c cs => exact ⟨c, cs, rfl⟩
  have split : (pre ++ Slot.live m :: post).flatMap Slot.bytes =
      pre.flatMap Slot.bytes ++ [c] ++ (cs ++ '\n' :: post.flatMap Slot.bytes) := by
    simp [Slot.bytes, Slot.line, line]
  rw [split, write_at_middle ' ' _ [c] ['#'] _ rfl]
  simp [Slot.bytes, cleared, Slot.line, line]

theorem clear_slots (slots : List Slot) (p : Pid) :
    (∃ pre m post, slots = pre ++ Slot.live m :: post ∧ m.pid = p ∧ zooCall (slots.flatMap Slot.bytes) (.clear p) =
        some ((pre ++ cleared m :: post).flatMap Slot.bytes, 0)) ∨
    ((∀ m, Slot.live m ∈ slots → m.pid ≠ p) ∧
      zooCall (slots.flatMap Slot.bytes) (.clear p) = some (slots.flatMap Slot.bytes, 1)) := by
  have hit : ∀ s : Slot, decide (s.bytes.head? ≠ some '#' ∧ BitVec.ofInt 32 (atoi s.bytes) = p) =
      true ↔ ∃ m, s = Slot.live m ∧ m.pid = p := by
    intro s
    rw [slot_head]
    cases s with
    | free rest _ _ => simp [Slot.line]
    | live m =>
      have shown := mark_not_free m
      simp only [isFree, decide_eq_false_iff_not] at shown
      simp [Slot.bytes, Slot.line, shown, mark_atoi]
  rcases find_in_file (fun buf => buf.head? ≠ some '#' ∧ BitVec.ofInt 32 (atoi buf) = p) slots with
    ⟨pre, s, post, rfl, here, run⟩ | ⟨others, run⟩
  · left
    obtain ⟨m, rfl, same⟩ := (hit s).mp here
    refine ⟨pre, m, post, rfl, same, ?_⟩
    simp only [zooCall, zooClear, run, Option.bind_eq_bind, Option.bind_some, clear_slot, Option.pure_def]
  · right
    refine ⟨?_, ?_⟩
    · intro m mem same
      have other := others _ mem
      rw [(hit (Slot.live m)).mpr ⟨m, rfl, same⟩] at other
      cases other
    · simp only [zooCall, zooClear, run, Option.bind_eq_bind, Option.bind_some, Option.pure_def]

def liveMarks (slots : List Slot) : Multiset Mark := (slots.filterMap Slot.mark? : Multiset Mark)

theorem live_marks_mem {slots : List Slot} {m : Mark} : m ∈ liveMarks slots ↔ Slot.live m ∈ slots := by
  simp only [liveMarks, Multiset.mem_coe, List.mem_filterMap]
  constructor
  · rintro ⟨s, mem, mark⟩
    cases s with
    | free rest _ _ => cases mark
    | live m' =>
      obtain rfl : m' = m := Option.some.inj mark
      exact mem
  · intro mem
    exact ⟨_, mem, rfl⟩

theorem live_marks_insert (pre post : List Slot) (m : Mark) :
    liveMarks (pre ++ Slot.live m :: post) = m ::ₘ liveMarks (pre ++ post) := by
  simp only [liveMarks, List.filterMap_append, List.filterMap_cons, Slot.mark?, Multiset.cons_coe]
  exact Multiset.coe_eq_coe.mpr List.perm_middle

theorem live_marks_free (pre post : List Slot) {s : Slot} (free : s.mark? = none) :
    liveMarks (pre ++ s :: post) = liveMarks (pre ++ post) := by
  simp [liveMarks, free]

structure Table (file : Str) (done : List (Call × Int)) (slots : List Slot) : Prop where
  file : file = slots.flatMap Slot.bytes
  marks : Outstanding done (liveMarks slots)

theorem table_call {file : Str} {done : List (Call × Int)} {slots : List Slot}
    (table : Table file done slots) (c : Call) :
    ∃ file' ret slots', zooCall file c = some (file', ret) ∧ Table file' (done ++ [(c, ret)]) slots' := by
  obtain ⟨rfl, marks⟩ := table
  cases c with
  | mark m =>
    rcases mark_slots slots m with ⟨pre, s, post, rfl, free, ran⟩ | ⟨_, ran⟩
    · refine ⟨_, 0, pre ++ Slot.live m :: post, ran, rfl, ?_⟩
      rw [live_marks_insert, ← live_marks_free pre post free]
      exact Outstanding.mark m marks
    · refine ⟨_, 0, slots ++ [Slot.live m], ran, rfl, ?_⟩
      rw [live_marks_insert, List.append_nil]
      exact Outstanding.mark m marks
  | clear p =>
    rcases clear_slots slots p with ⟨pre, m, post, rfl, rfl, ran⟩ | ⟨others, ran⟩
    · refine ⟨_, 0, pre ++ cleared m :: post, ran, rfl, ?_⟩
      rw [live_marks_insert] at marks
      rw [live_marks_free pre post (s := cleared m) rfl]
      exact Outstanding.clear m marks
    · refine ⟨_, 1, slots, ran, rfl, ?_⟩
      apply Outstanding.miss p marks
      intro m mem
      exact others m (live_marks_mem.mp mem)

theorem table_run (calls : List Call) :
    ∃ file done slots, runCalls calls = some (file, done) ∧ done.map Prod.fst = calls ∧ Table file done slots := by
  induction calls using List.reverseRecOn with
  | nil => exact ⟨[], [], [], rfl, rfl, rfl, Outstanding.nil⟩
  | append_singleton calls c ih =>
    obtain ⟨file, done, slots, run, order, table⟩ := ih
    obtain ⟨file', ret, slots', ran, table'⟩ := table_call table c
    refine ⟨file', done ++ [(c, ret)], slots', ?_, by simp [order], table'⟩
    rw [runCalls] at run ⊢
    simp [List.foldlM_append, run, runCall, ran]

def Effect (lines : List Str) (bag : Multiset Mark) (file file' : Str) (ret : Int) : Call → Prop
  | .mark m => ret = 0 ∧ ((∃ pre old post, lines = pre ++ old :: post ∧ isFree old = true ∧
        FixedWidth file' (pre ++ m.line :: post)) ∨
      ((∀ l ∈ lines, isFree l = false) ∧ FixedWidth file' (lines ++ [m.line])))
  | .clear p => (ret = 0 ∧ ∃ pre m post, lines = pre ++ m.line :: post ∧ m ∈ bag ∧ m.pid = p ∧
        FixedWidth file' (pre ++ ('#' :: m.line.tail) :: post)) ∨
      (ret = 1 ∧ file' = file ∧ ∀ m ∈ bag, m.pid ≠ p)

theorem call_effect (slots : List Slot) (c : Call) :
    ∃ file' ret, zooCall (slots.flatMap Slot.bytes) c = some (file', ret) ∧
      Effect (slots.map Slot.line) (liveMarks slots) (slots.flatMap Slot.bytes) file' ret c := by
  cases c with
  | mark m =>
    rcases mark_slots slots m with ⟨pre, s, post, rfl, free, ran⟩ | ⟨others, ran⟩
    · refine ⟨_, 0, ran, rfl, Or.inl ⟨pre.map Slot.line, s.line, post.map Slot.line, by simp, ?_, ?_⟩⟩
      · rw [slot_free, free]
        rfl
      · have fixed := slots_fixed_width (pre ++ Slot.live m :: post)
        rwa [List.map_append, List.map_cons] at fixed
    · refine ⟨_, 0, ran, rfl, Or.inr ⟨?_, ?_⟩⟩
      · intro l mem
        obtain ⟨s, inside, rfl⟩ := List.mem_map.mp mem
        have taken := others s inside
        rw [slot_free]
        cases mark : s.mark? with
        | none => exact absurd mark taken
        | some m => rfl
      · have fixed := slots_fixed_width (slots ++ [Slot.live m])
        rwa [List.map_append, List.map_singleton] at fixed
  | clear p =>
    rcases clear_slots slots p with ⟨pre, m, post, rfl, same, ran⟩ | ⟨others, ran⟩
    · refine ⟨_, 0, ran, Or.inl ⟨rfl, pre.map Slot.line, m, post.map Slot.line, ?_, ?_, same, ?_⟩⟩
      · rw [List.map_append, List.map_cons]
        rfl
      · exact live_marks_mem.mpr (by simp)
      · have fixed := slots_fixed_width (pre ++ cleared m :: post)
        rwa [List.map_append, List.map_cons] at fixed
    · refine ⟨_, 1, ran, Or.inr ⟨rfl, rfl, ?_⟩⟩
      intro m mem
      exact others m (live_marks_mem.mp mem)

/-- Every run keeps the fixed-width table, its live lines are the outstanding marks, and the
    next call changes one line as its kind says. -/
theorem zoo_integrity (calls : List Call) :
    ∃ file done lines, ∃ bag : Multiset Mark, runCalls calls = some (file, done) ∧ done.map Prod.fst = calls ∧
      FixedWidth file lines ∧ Outstanding done bag ∧
      (lines.filter (fun l => !isFree l) : Multiset Str) = bag.map Mark.line ∧
      ∀ c, ∃ file' ret, zooCall file c = some (file', ret) ∧ Effect lines bag file file' ret c := by
  obtain ⟨file, done, slots, run, order, table⟩ := table_run calls
  obtain ⟨rfl, marks⟩ := table
  refine ⟨_, done, slots.map Slot.line, liveMarks slots, run, order, slots_fixed_width slots, marks,
    ?_, call_effect slots⟩
  rw [slots_live, liveMarks, Multiset.map_coe]

end VteZoo
