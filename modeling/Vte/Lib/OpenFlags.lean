import Mathlib.Algebra.Order.BigOperators.Group.List
import Mathlib.Algebra.Order.Group.Nat
import Vte.Base.FlagSets
import Vte.Base.Text

/-!
lib/open_flags.c: the table of open(2) flags, the conversion of a word of flags into symbols and
the parser of a list of symbols, which cuts the string at its commas while it works. The values of
the flags come from the system's headers and are a parameter.
-/
namespace VteOpenFlags
open Text FlagSets

inductive Macro where
  | rdonly | wronly | rdwr | sync | creat | trunc | excl | append | nonblock | noctty | dsync
  | rsync | async | ptyign | ndelay | raw | ssd | big | place | restart | sfsxop | sfsDeferTm
  | wellformed | ldraw | t3d | parallel | largefile | direct | priv
  deriving DecidableEq

/-- What stands around an entry of the table: nothing, `#if` or `#ifdef`. -/
inductive Guard where
  | always
  | nonzero (m : Macro)
  | defined (m : Macro)
  deriving DecidableEq

structure Line where
  symbol : Str
  guard : Guard
  macros : List Macro

def lines : List Line :=
  [⟨"O_RDONLY".toList, .always, [.rdonly]⟩, ⟨"O_WRONLY".toList, .always, [.wronly]⟩,
   ⟨"O_RDWR".toList, .always, [.rdwr]⟩,
   ⟨"O_SYNC".toList, .always, [.sync]⟩,
   ⟨"O_CREAT".toList, .always, [.creat]⟩,
   ⟨"O_TRUNC".toList, .always, [.trunc]⟩,
   ⟨"O_EXCL".toList, .always, [.excl]⟩,
   ⟨"O_APPEND".toList, .always, [.append]⟩,
   ⟨"O_NONBLOCK".toList, .always, [.nonblock]⟩,
   ⟨"O_NOCTTY".toList, .nonzero .noctty, [.noctty]⟩,
   ⟨"O_DSYNC".toList, .nonzero .dsync, [.dsync]⟩,
   ⟨"O_RSYNC".toList, .nonzero .rsync, [.rsync]⟩,
   ⟨"O_ASYNC".toList, .nonzero .async, [.async]⟩,
   ⟨"O_PTYIGN".toList, .nonzero .ptyign, [.ptyign]⟩,
   ⟨"O_NDELAY".toList, .nonzero .ndelay, [.ndelay]⟩,
   ⟨"O_RAW".toList, .nonzero .raw, [.raw]⟩,
   ⟨"O_SSD".toList, .defined .ssd, [.ssd]⟩,
   ⟨"O_BIG".toList, .nonzero .big, [.big]⟩,
   ⟨"O_PLACE".toList, .nonzero .place, [.place]⟩,
   ⟨"O_RESTART".toList, .nonzero .restart, [.restart]⟩,
   ⟨"O_SFSXOP".toList, .nonzero .sfsxop, [.sfsxop]⟩,
   ⟨"O_SFS_DEFER_TM".toList, .nonzero .sfsDeferTm, [.sfsDeferTm]⟩,
   ⟨"O_WELLFORMED".toList, .nonzero .wellformed, [.wellformed]⟩,
   ⟨"O_LDRAW".toList, .nonzero .ldraw, [.ldraw]⟩,
   ⟨"O_T3D".toList, .nonzero .t3d, [.t3d]⟩,
   ⟨"O_PARALLEL".toList, .nonzero .parallel, [.parallel]⟩,
   ⟨"O_FSA".toList, .nonzero .parallel, [.parallel, .wellformed, .raw]⟩,
   ⟨"O_LARGEFILE".toList, .defined .largefile, [.largefile]⟩,
   ⟨"O_DIRECT".toList, .defined .direct, [.direct]⟩,
   ⟨"O_PRIV".toList, .defined .priv, [.priv]⟩]

structure OpenFlag where
  symbol : Str
  flag : BitVec 32

section table
variable (value : Macro → Option (BitVec 32))

def word (m : Macro) : BitVec 32 := (value m).getD 0

def Guard.holds : Guard → Bool
  | .always => true
  | .nonzero m => word value m != 0
  | .defined m => (value m).isSome

def Line.flag (line : Line) : BitVec 32 := union (line.macros.map (word value))

def Line.entry (line : Line) : OpenFlag := { symbol := line.symbol, flag := line.flag value }

def openFlags : List OpenFlag := (lines.filter (·.guard.holds value)).map (·.entry value)

end table

def nul : Char := '\x00'

def scanTo (buf : Str) (name : Nat) : Nat :=
  name + ((buf.drop name).takeWhile fun c => c != ',' && c != nul).length

/-- The string at an address, as `strcmp` reads it. -/
def stringAt (buf : Str) (name : Nat) : Str := (buf.drop name).takeWhile (· != nul)

structure Parsed where
  value : BitVec 32
  buf : Str
  /-- the offset stored through `badname`, if one is -/
  badname : Option Nat

/-- The loop of `parse_open_flags`, with the name at `name`. -/
def parseLoop (table : List OpenFlag) (wantsBadname : Bool) :
    Nat → Str → Nat → BitVec 32 → Option Parsed
  | 0, _, _, _ => none
  | fuel + 1, buf, name, bits =>
    let cc := scanTo buf name
    let savecc := buf.getD cc nul
    let cut := buf.set cc nul
    let found := table.find? (·.symbol = stringAt cut name)
    let restored := cut.set cc savecc
    match found with
    | none =>
      some { value := -1, buf := restored, badname := if wantsBadname then some name else none }
    | some entry =>
      if savecc = nul then some { value := bits ||| entry.flag, buf := restored, badname := none }
      else parseLoop table wantsBadname fuel restored (cc + 1) (bits ||| entry.flag)

def parseOpenFlags (table : List OpenFlag) (buf : Str) (wantsBadname : Bool) : Option Parsed :=
  parseLoop table wantsBadname (buf.length + 1) buf 0 0

structure Identified where
  bits : BitVec 32
  havesome : Nat
  text : Str

def Identified.cat (s : Identified) (sep symbol : Str) : Str :=
  s.text ++ (if s.havesome ≠ 0 then sep else []) ++ symbol

def identify (sep : Str) (s : Identified) (entry : OpenFlag) : Identified :=
  if s.bits &&& entry.flag = entry.flag then
    { bits := s.bits &&& ~~~entry.flag, havesome := s.havesome + 1, text := s.cat sep entry.symbol }
  else s

def openflags2symbols (value : Macro → Option (BitVec 32)) (openflags : BitVec 32) (sep : Str)
    (mode : Int) : Str :=
  let start : Identified :=
    if openflags &&& (word value .wronly ||| word value .rdwr) = 0 then
      { bits := openflags, havesome := 1, text := "O_RDONLY".toList }
    else { bits := openflags, havesome := 0, text := [] }
  let s := (openFlags value).tail.foldl (identify sep) start
  if s.bits ≠ 0 ∧ mode = 1 then s.cat sep "UNKNOWN".toList else s.text

def family : Macro → Macro
  | .dsync => .sync
  | .rsync => .sync
  | .ndelay => .nonblock
  | m => m

structure Fcntl (value : Macro → Option (BitVec 32)) : Prop where
  rdonly : word value .rdonly = 0
  distinct : ∀ m n, family m ≠ family n → Apart (word value m) (word value n)
  dsync : Within (word value .dsync) (word value .sync)
  rsync : word value .rsync = 0 ∨ word value .rsync = word value .sync
  ndelay : word value .ndelay = 0 ∨ word value .ndelay = word value .nonblock
  positive : ∀ m, (word value m).msb = false

def Free (c : Str) : Prop := ∀ x ∈ c, x ≠ ',' ∧ x ≠ nul

section buffer
variable {pre c after : Str} {d : Char}

theorem scan_name (free : Free c) (ends : d = ',' ∨ d = nul) :
    scanTo (pre ++ (c ++ d :: after)) pre.length = pre.length + c.length := by
  have stops : (d != ',' && d != nul) = false := by
    rcases ends with rfl | rfl
    · rfl
    · rfl
  have plain : ∀ x ∈ c, (x != ',' && x != nul) = true := by
    intro x mem
    simp [free x mem]
  rw [scanTo, List.drop_left, List.takeWhile_append_of_pos plain,
    List.takeWhile_cons_of_neg (by simp [stops]), List.append_nil]

theorem string_cut (free : Free c) : stringAt (pre ++ (c ++ nul :: after)) pre.length = c := by
  have plain : ∀ x ∈ c, (x != nul) = true := by
    intro x mem
    simp [free x mem]
  rw [stringAt, List.drop_left, List.takeWhile_append_of_pos plain,
    List.takeWhile_cons_of_neg (by simp), List.append_nil]

theorem set_end (x : Char) :
    (pre ++ (c ++ d :: after)).set (pre.length + c.length) x = pre ++ (c ++ x :: after) := by
  rw [← List.append_assoc, ← List.length_append, List.set_append_right _ _ (Nat.le_refl _),
    Nat.sub_self, List.set_cons_zero, List.append_assoc]

theorem get_end : (pre ++ (c ++ d :: after)).getD (pre.length + c.length) nul = d := by
  rw [← List.append_assoc, ← List.length_append, List.getD_eq_getElem?_getD,
    List.getElem?_append_right (Nat.le_refl _), Nat.sub_self]
  rfl

end buffer

theorem parse_name (table : List OpenFlag) (wants : Bool) (fuel : Nat) (bits : BitVec 32)
    {pre c after : Str} {d : Char} (free : Free c) (ends : d = ',' ∨ d = nul) :
    parseLoop table wants (fuel + 1) (pre ++ (c ++ d :: after)) pre.length bits =
      match table.find? (·.symbol = c) with
      | none => some
        { value := -1, buf := pre ++ (c ++ d :: after), badname := if wants then some pre.length else none }
      | some entry =>
        if d = nul then
          some { value := bits ||| entry.flag, buf := pre ++ (c ++ d :: after), badname := none }
        else
          parseLoop table wants fuel (pre ++ (c ++ d :: after)) (pre.length + c.length + 1)
            (bits ||| entry.flag) := by
  rw [parseLoop]
  simp only [scan_name free ends, get_end, set_end, string_cut free]

def reading (table : List OpenFlag) (wants : Bool) (buf : Str) :
    Nat → BitVec 32 → List Str → Parsed
  | _, bits, [] => { value := bits, buf, badname := none }
  | offset, bits, c :: cs =>
    match table.find? (·.symbol = c) with
    | none => { value := -1, buf, badname := if wants then some offset else none }
    | some entry => reading table wants buf (offset + c.length + 1) (bits ||| entry.flag) cs

theorem parse_loop (table : List OpenFlag) (wants : Bool) (after : Str) (cs : List Str) :
    ∀ (c pre : Str) (fuel : Nat) (bits : BitVec 32), (∀ x ∈ c :: cs, Free x) → cs.length < fuel →
      parseLoop table wants fuel (pre ++ (([','].intercalate (c :: cs)) ++ nul :: after)) pre.length
        bits =
      some (reading table wants (pre ++ (([','].intercalate (c :: cs)) ++ nul :: after)) pre.length
        bits (c :: cs)) := by
  induction cs with
  | nil =>
    intro c pre fuel bits free enough
    obtain ⟨fuel, rfl⟩ := Nat.exists_eq_add_one.mpr enough
    rw [List.intercalate_singleton, parse_name table wants fuel bits (free c (by simp)) (Or.inr rfl), reading]
    cases table.find? (·.symbol = c) with
    | none => rfl
    | some entry => rfl
  | cons c' cs ih =>
    intro c pre fuel bits free enough
    obtain ⟨fuel, rfl⟩ := Nat.exists_eq_add_one.mpr (Nat.lt_of_le_of_lt (Nat.zero_le _) enough)
    have layout : pre ++ ([','].intercalate (c :: c' :: cs) ++ nul :: after) =
        pre ++ (c ++ ',' :: ([','].intercalate (c' :: cs) ++ nul :: after)) := by
      simp [List.intercalate_cons_cons]
    have moved : pre ++ (c ++ ',' :: ([','].intercalate (c' :: cs) ++ nul :: after)) =
        (pre ++ c ++ [',']) ++ ([','].intercalate (c' :: cs) ++ nul :: after) := by
      simp
    have offset : pre.length + c.length + 1 = (pre ++ c ++ [',']).length := by
      simp only [List.length_append, List.length_singleton]
    rw [layout, parse_name table wants fuel bits (free c (by simp)) (Or.inl rfl), reading]
    cases table.find? (·.symbol = c) with
    | none => rfl
    | some entry =>
      simp only [show (',' : Char) ≠ nul by decide, if_false]
      rw [moved, offset]
      exact ih c' _ fuel _ (fun x mem => free x (by simp [mem])) (by simpa using enough)

section reading
variable {table : List OpenFlag} {wants : Bool} {buf : Str}

def Unknown (table : List OpenFlag) (c : Str) : Prop := ∀ entry ∈ table, entry.symbol ≠ c

theorem unknown_iff {c : Str} : Unknown table c ↔ table.find? (·.symbol = c) = none := by
  simp [Unknown, List.find?_eq_none]

theorem reading_buf (cs : List Str) : ∀ offset bits, (reading table wants buf offset bits cs).buf = buf := by
  induction cs with
  | nil => exact fun _ _ => rfl
  | cons c cs ih =>
    intro offset bits
    rw [reading]
    split
    · rfl
    · exact ih _ _

theorem or_positive {f g : BitVec 32} (left : f.msb = false) (right : g.msb = false) :
    (f ||| g).msb = false := by
  rw [BitVec.msb_or, left, right]
  rfl

theorem reading_value (positive : ∀ entry ∈ table, entry.flag.msb = false) (cs : List Str) :
    ∀ offset bits, bits.msb = false →
      ((reading table wants buf offset bits cs).value = -1 ↔ ∃ c ∈ cs, Unknown table c) := by
  induction cs with
  | nil =>
    intro offset bits sign
    constructor
    · intro all
      rw [reading] at all
      rw [show bits = -1 from all] at sign
      cases sign
    · rintro ⟨c, mem, _⟩
      cases mem
  | cons c cs ih =>
    intro offset bits sign
    rw [reading]
    split
    · rename_i missing
      exact ⟨fun _ => ⟨c, by simp, unknown_iff.mpr missing⟩, fun _ => rfl⟩
    · rename_i entry found
      have known : ¬ Unknown table c := by
        rw [unknown_iff, found]
        simp
      rw [ih _ _ (or_positive sign (positive entry (List.mem_of_find?_eq_some found)))]
      simp [known]

def offsetOf (before : List Str) : Nat := (before.flatMap (· ++ [','])).length

theorem reading_badname (before : List Str) {c : Str} {rest : List Str}
    (unknown : Unknown table c) : ∀ offset bits, (∀ known ∈ before, ¬ Unknown table known) →
      (reading table true buf offset bits (before ++ c :: rest)).badname = some (offset + offsetOf before) := by
  induction before with
  | nil =>
    intro offset bits _
    rw [List.nil_append, reading, unknown_iff.mp unknown]
    rfl
  | cons b before ih =>
    intro offset bits known
    obtain ⟨here, later⟩ := List.forall_mem_cons.mp known
    rw [List.cons_append, reading]
    split
    · rename_i missing
      exact absurd (unknown_iff.mpr missing) here
    · rw [ih _ _ later]
      simp only [offsetOf, List.flatMap_cons, List.length_append, List.length_singleton]
      congr 1
      omega

theorem reading_known (nodup : (table.map (·.symbol)).Nodup) (chosen : List OpenFlag) :
    ∀ offset bits, (∀ entry ∈ chosen, entry ∈ table) →
      (reading table wants buf offset bits (chosen.map (·.symbol))).value = bits ||| union (chosen.map (·.flag)) := by
  induction chosen with
  | nil => simp [reading, union]
  | cons entry chosen ih =>
    intro offset bits mem
    obtain ⟨here, later⟩ := List.forall_mem_cons.mp mem
    have found : table.find? (·.symbol = entry.symbol) = some entry := by
      cases there : table.find? (·.symbol = entry.symbol) with
      | none => exact absurd rfl (unknown_iff.mpr there entry here)
      | some other =>
        have same : other.symbol = entry.symbol := by simpa using List.find?_some there
        rw [List.inj_on_of_nodup_map nodup (List.mem_of_find?_eq_some there) here same]
    rw [List.map_cons, reading, found, List.map_cons]
    simp only
    rw [ih _ _ later, BitVec.or_assoc]
    rfl

end reading

section identified
variable {sep : Str}

structure Joined (sep : Str) (s : Identified) (names : List Str) : Prop where
  text : s.text = sep.intercalate names
  havesome : s.havesome = names.length

theorem intercalate_snoc {names : List Str} (some_names : names ≠ []) (symbol : Str) :
    sep.intercalate (names ++ [symbol]) = sep.intercalate names ++ sep ++ symbol := by
  induction names with
  | nil => exact absurd rfl some_names
  | cons n names ih =>
    cases names with
    | nil => simp [List.intercalate_cons_cons]
    | cons n' names =>
      have later := ih (by simp)
      simp only [List.cons_append, List.intercalate_cons_cons] at later ⊢
      rw [later]
      simp only [List.append_assoc]

theorem cat_joined {s : Identified} {names : List Str} (joined : Joined sep s names) (symbol : Str) :
    s.cat sep symbol = sep.intercalate (names ++ [symbol]) := by
  rw [Identified.cat, joined.text, joined.havesome]
  cases names with
  | nil => simp
  | cons n names =>
    rw [intercalate_snoc (by simp), if_pos (by simp)]

theorem identify_all (sep : Str) (entries : List OpenFlag) : ∀ (s : Identified) (names : List Str),
    Joined sep s names → (entries.foldl (identify sep) s).bits = (peel (·.flag) entries s.bits).2 ∧
      Joined sep (entries.foldl (identify sep) s)
        (names ++ (peel (·.flag) entries s.bits).1.map (·.symbol)) := by
  induction entries with
  | nil =>
    intro s names joined
    simpa [peel] using joined
  | cons entry entries ih =>
    intro s names joined
    rw [List.foldl_cons, peel, identify]
    by_cases whole : s.bits &&& entry.flag = entry.flag
    · rw [if_pos whole, if_pos whole]
      have next := ih
        { bits := s.bits &&& ~~~entry.flag, havesome := s.havesome + 1,
          text := s.cat sep entry.symbol } (names ++ [entry.symbol])
        ⟨cat_joined joined entry.symbol, by simp [joined.havesome]⟩
      simpa using next
    · rw [if_neg whole, if_neg whole]
      exact ih s names joined

end identified

section table
variable {value : Macro → Option (BitVec 32)}

def twin : Macro → Macro
  | .rsync => .sync
  | .ndelay => .nonblock
  | m => m

/-- A line repeats flags of lines before it, or has a flag of its own; of those only `O_DSYNC` has
bits of a line before it. -/
def Ordered (before : List Line) (line : Line) : Prop :=
  (∀ m ∈ line.macros, ∃ g ∈ before, g.macros = [twin m] ∧ (g.guard = .always ∨ g.guard = .nonzero m)) ∨
  ∃ m ∈ line.macros, line.macros = [m] ∧ ∀ g ∈ before,
    (m = .dsync ∧ g.macros = [.sync]) ∨ ∀ n ∈ g.macros, family m ≠ family n

instance (before : List Line) (line : Line) : Decidable (Ordered before line) :=
  inferInstanceAs (Decidable (_ ∨ _))

theorem lines_ordered : EachAfter Ordered [] lines.tail := by decide +kernel

theorem symbols_nodup : (lines.map (·.symbol)).Nodup := by decide +kernel

theorem symbols_free : ∀ line ∈ lines, Free line.symbol := by
  have all : (lines.all fun line => line.symbol.all fun x => x != ',' && x != nul) = true := by
    decide +kernel
  intro line mem x inside
  have free := List.all_eq_true.mp (List.all_eq_true.mp all line mem) x inside
  simpa using free

theorem twin_word (fcntl : Fcntl value) {m : Macro} {i : Nat}
    (set : (word value m).getLsbD i = true) : word value (twin m) = word value m := by
  have some_word : word value m ≠ 0 := by
    intro zero
    rw [zero] at set
    simp at set
  cases m with
  | rsync => exact (fcntl.rsync.resolve_left some_word).symm
  | ndelay => exact (fcntl.ndelay.resolve_left some_word).symm
  | _ => rfl

theorem flag_single {line : Line} {m : Macro} (single : line.macros = [m]) :
    line.flag value = word value m := by
  simp [Line.flag, single, union]

theorem ordered_placed (fcntl : Fcntl value) (before : List Line) (line : Line)
    (ordered : Ordered before line) :
    Placed ((before.filter (·.guard.holds value)).map (·.flag value)) (line.flag value) := by
  rcases ordered with repeated | ⟨m, _, single, own⟩
  · left
    intro i set
    obtain ⟨f, mem, set⟩ := union_bit.mp set
    obtain ⟨m, inside, rfl⟩ := List.mem_map.mp mem
    obtain ⟨g, earlier, same, guarded⟩ := repeated m inside
    have flag : g.flag value = word value m := by rw [flag_single same, twin_word fcntl set]
    have present : g.guard.holds value = true := by
      rcases guarded with always | nonzero
      · rw [always]
        rfl
      · rw [nonzero, Guard.holds, bne_iff_ne]
        intro zero
        rw [zero] at set
        simp at set
    refine ⟨g.flag value, ?_, ?_, ?_⟩
    · exact List.mem_map.mpr ⟨g, List.mem_filter.mpr ⟨earlier, present⟩, rfl⟩
    · rw [flag]
      exact within_union mem
    · rw [flag]
      exact set
  · right
    intro f mem
    obtain ⟨g, kept, rfl⟩ := List.mem_map.mp mem
    rw [flag_single single]
    rcases own g (List.mem_filter.mp kept).1 with ⟨rfl, sync⟩ | apart
    · right
      rw [flag_single sync]
      exact fcntl.dsync
    · left
      refine apart_union ?_
      intro h mem
      obtain ⟨n, inside, rfl⟩ := List.mem_map.mp mem
      exact fcntl.distinct m n (apart n inside)

theorem open_flags_tail : (openFlags value).tail = (lines.tail.filter (·.guard.holds value)).map (·.entry value) := rfl

theorem open_flags_head : openFlags value =
    { symbol := "O_RDONLY".toList, flag := union [word value .rdonly] } :: (openFlags value).tail :=
  rfl

theorem tail_placed (fcntl : Fcntl value) :
    EachAfter Placed [] ((openFlags value).tail.map (·.flag)) := by
  rw [open_flags_tail, List.map_map]
  exact each_after_filter_map (fun before line _ => ordered_placed fcntl before line) lines_ordered

theorem table_nodup : ((openFlags value).map (·.symbol)).Nodup := by
  rw [openFlags, List.map_map]
  exact symbols_nodup.sublist (List.filter_sublist.map _)

theorem table_free {entry : OpenFlag} (mem : entry ∈ openFlags value) : Free entry.symbol := by
  obtain ⟨line, inside, rfl⟩ := List.mem_map.mp mem
  exact symbols_free line (List.mem_filter.mp inside).1

theorem union_positive {fs : List (BitVec 32)} (positive : ∀ f ∈ fs, f.msb = false) :
    (union fs).msb = false := by
  induction fs with
  | nil => rfl
  | cons f fs ih =>
    obtain ⟨here, rest⟩ := List.forall_mem_cons.mp positive
    exact or_positive here (ih rest)

theorem table_positive (fcntl : Fcntl value) : ∀ entry ∈ openFlags value, entry.flag.msb = false := by
  intro entry mem
  obtain ⟨line, _, rfl⟩ := List.mem_map.mp mem
  refine union_positive ?_
  intro f inside
  obtain ⟨m, _, rfl⟩ := List.mem_map.mp inside
  exact fcntl.positive m

end table

section codec
variable {value : Macro → Option (BitVec 32)}

theorem head_flag (fcntl : Fcntl value) : union [word value .rdonly] = 0#32 := by
  rw [fcntl.rdonly]
  rfl

theorem symbols_of_union (fcntl : Fcntl value) {chosen : List OpenFlag}
    (entries : ∀ entry ∈ chosen, entry ∈ openFlags value) (mode : Int) :
    ∃ picked, (∀ entry ∈ picked, entry ∈ openFlags value) ∧ picked ≠ [] ∧
      openflags2symbols value (union (chosen.map (·.flag))) [','] mode = [','].intercalate (picked.map (·.symbol)) ∧
      union (picked.map (·.flag)) = union (chosen.map (·.flag)) := by
  generalize word_of : union (chosen.map (·.flag)) = bits
  have covered : ∀ i, bits.getLsbD i = true →
      ∃ f ∈ (openFlags value).tail.map (·.flag), Within f bits ∧ f.getLsbD i = true := by
    intro i set
    rw [← word_of] at set
    obtain ⟨f, mem, shared⟩ := union_bit.mp set
    obtain ⟨entry, inside, rfl⟩ := List.mem_map.mp mem
    have listed := entries entry inside
    rw [open_flags_head] at listed
    rcases List.mem_cons.mp listed with rfl | listed
    · rw [head_flag fcntl] at shared
      simp at shared
    · refine ⟨entry.flag, List.mem_map.mpr ⟨entry, listed, rfl⟩, ?_, shared⟩
      rw [← word_of]
      exact within_union mem
  have rest := peel_rest (·.flag) (openFlags value).tail (tail_placed fcntl) covered
  have whole := peel_union (·.flag) (openFlags value).tail bits
  rw [rest, BitVec.or_zero] at whole
  have within : ∀ entry ∈ (peel (·.flag) (openFlags value).tail bits).1, entry ∈ openFlags value :=
    fun entry mem => List.mem_of_mem_tail ((peel_sublist _ _ _).subset mem)
  rw [openflags2symbols]
  by_cases readonly : bits &&& (word value .wronly ||| word value .rdwr) = 0
  · obtain ⟨left, joined⟩ := identify_all [','] (openFlags value).tail
      { bits, havesome := 1, text := "O_RDONLY".toList } ["O_RDONLY".toList]
      ⟨List.intercalate_singleton.symm, rfl⟩
    refine ⟨{ symbol := "O_RDONLY".toList, flag := union [word value .rdonly] } ::
      (peel (·.flag) (openFlags value).tail bits).1, ?_, by simp, ?_, ?_⟩
    · refine List.forall_mem_cons.mpr ⟨?_, within⟩
      rw [open_flags_head]
      exact List.mem_cons_self
    · simp only [if_pos readonly]
      rw [left, rest, if_neg (by simp), joined.text]
      rfl
    · have unfolded (f : BitVec 32) (fs : List (BitVec 32)) : union (f :: fs) = f ||| union fs := rfl
      rw [List.map_cons, unfolded, head_flag fcntl, BitVec.zero_or]
      exact whole
  · obtain ⟨left, joined⟩ := identify_all [','] (openFlags value).tail
      { bits, havesome := 0, text := [] } [] ⟨rfl, rfl⟩
    refine ⟨(peel (·.flag) (openFlags value).tail bits).1, within, ?_, ?_, whole⟩
    · intro none
      rw [none] at whole
      have zero : bits = 0#32 := whole.symm
      rw [zero] at readonly
      simp at readonly
    · simp only [if_neg readonly]
      rw [left, rest, if_neg (by simp), joined.text]
      rfl

theorem intercalate_length (names : List Str) :
    ([','].intercalate names).length ≤ (names.map (·.length + 1)).sum := by
  induction names with
  | nil => simp
  | cons n names ih =>
    cases names with
    | nil => simp
    | cons n' names =>
      rw [List.intercalate_cons_cons, List.map_cons, List.sum_cons, List.length_append,
        List.length_append, List.length_singleton]
      omega

theorem picked_length (value : Macro → Option (BitVec 32)) (bits : BitVec 32) :
    (((peel (·.flag) (openFlags value).tail bits).1.map (·.symbol)).map (·.length + 1)).sum ≤
      (lines.map fun line => line.symbol.length + 1).sum := by
  have listed : (openFlags value).Sublist (lines.map (·.entry value)) := List.filter_sublist.map _
  have picked := ((peel_sublist (·.flag) _ bits).trans (List.tail_sublist _)).trans listed
  have sum := (picked.map fun entry => entry.symbol.length + 1).sum_le_sum (by simp)
  rw [List.map_map] at sum
  rw [List.map_map]
  exact sum

theorem symbols_fit (openflags : BitVec 32) (mode : Int) :
    (openflags2symbols value openflags [','] mode).length < 512 := by
  have all : (lines.map fun line => line.symbol.length + 1).sum < 400 := by decide +kernel
  have fits : ∀ (first : List Str) (s : Identified), (first.map (·.length + 1)).sum ≤ 9 → Joined [','] s first →
      let r := (openFlags value).tail.foldl (identify [',']) s
      r.text.length < 512 ∧ (r.cat [','] "UNKNOWN".toList).length < 512 := by
    intro first s few joined
    obtain ⟨_, after⟩ := identify_all _ (openFlags value).tail s first joined
    have picked := picked_length value s.bits
    have text := intercalate_length
      (first ++ (peel (·.flag) (openFlags value).tail s.bits).1.map (·.symbol))
    have whole := intercalate_length
      (first ++ (peel (·.flag) (openFlags value).tail s.bits).1.map (·.symbol) ++ ["UNKNOWN".toList])
    have unknown : (["UNKNOWN".toList].map (·.length + 1)).sum = 8 := rfl
    rw [List.map_append, List.sum_append] at text
    rw [List.map_append, List.map_append, List.sum_append, List.sum_append, unknown] at whole
    constructor
    · rw [after.text]
      omega
    · rw [cat_joined after]
      omega
  rw [openflags2symbols]
  by_cases readonly : openflags &&& (word value .wronly ||| word value .rdwr) = 0
  · obtain ⟨text, unknown⟩ := fits ["O_RDONLY".toList]
      { bits := openflags, havesome := 1, text := "O_RDONLY".toList } (by decide)
      ⟨List.intercalate_singleton.symm, rfl⟩
    simp only [if_pos readonly]
    split
    · exact unknown
    · exact text
  · obtain ⟨text, unknown⟩ := fits [] { bits := openflags, havesome := 0, text := [] } (by decide)
      ⟨rfl, rfl⟩
    simp only [if_neg readonly]
    split
    · exact unknown
    · exact text

theorem parse_names (table : List OpenFlag) (wants : Bool) (after : Str) {names : List Str}
    (some_names : names ≠ []) (free : ∀ x ∈ names, Free x) :
    parseOpenFlags table ([','].intercalate names ++ nul :: after) wants =
      some (reading table wants ([','].intercalate names ++ nul :: after) 0 0 names) := by
  obtain ⟨c, cs, rfl⟩ := List.exists_cons_of_ne_nil some_names
  refine parse_loop table wants after cs c [] _ 0 free ?_
  have enough : ∀ (cs : List Str) (c : Str), cs.length ≤ ([','].intercalate (c :: cs)).length := by
    intro cs
    induction cs with
    | nil => simp
    | cons d cs ih =>
      intro c
      have later := ih d
      rw [List.intercalate_cons_cons, List.length_append, List.length_append]
      simp only [List.length_cons, List.length_nil]
      omega
  have long := enough cs c
  rw [List.length_append]
  omega

theorem split_free {s : Str} (text : nul ∉ s) : ∀ c ∈ s.splitOn ',', Free c := by
  induction s with
  | nil => simp [Free]
  | cons x s ih =>
    simp only [List.mem_cons, not_or] at text
    have later := ih text.2
    rw [List.splitOn_cons_eq_if_modifyHead]
    split
    · intro c mem
      rcases List.mem_cons.mp mem with rfl | mem
      · simp [Free]
      · exact later c mem
    · rename_i plain
      obtain ⟨d, ds, split⟩ := List.exists_cons_of_ne_nil (List.splitOn_ne_nil ',' s)
      rw [split] at later ⊢
      intro c mem
      rcases List.mem_cons.mp mem with rfl | mem
      · intro y inside
        rcases List.mem_cons.mp inside with rfl | inside
        · exact ⟨by simpa using plain, Ne.symm text.1⟩
        · exact later d (by simp) y inside
      · exact later c (List.mem_cons_of_mem _ mem)

theorem offset_splits {s : Str} {before : List Str} {c : Str} {rest : List Str}
    (split : s.splitOn ',' = before ++ c :: rest) :
    s = before.flatMap (· ++ [',']) ++ [','].intercalate (c :: rest) := by
  have whole : [','].intercalate (s.splitOn ',') = s := List.intercalate_splitOn ','
  rw [← whole, split]
  clear split
  induction before with
  | nil => rfl
  | cons b before ih =>
    rw [List.cons_append, List.intercalate_cons_of_ne_nil (by simp), ih, List.flatMap_cons,
      List.append_assoc (b ++ [','])]

structure ParseSpec (table : List OpenFlag) (s after : Str) (wants : Bool) (r : Parsed) : Prop where
  restored : r.buf = s ++ nul :: after
  fails_iff : r.value = -1 ↔ ∃ c ∈ s.splitOn ',', Unknown table c
  badname : ∀ before c rest, s.splitOn ',' = before ++ c :: rest →
    (∀ known ∈ before, ¬ Unknown table known) → Unknown table c → wants = true → r.badname = some (offsetOf before) ∧
      r.buf.drop (offsetOf before) = [','].intercalate (c :: rest) ++ nul :: after

theorem parse_meets_spec (fcntl : Fcntl value) (s after : Str) (text : nul ∉ s) (wants : Bool) :
    ∃ r, parseOpenFlags (openFlags value) (s ++ nul :: after) wants = some r ∧
      ParseSpec (openFlags value) s after wants r := by
  have parsed := parse_names (openFlags value) wants after (List.splitOn_ne_nil ',' s)
    (split_free text)
  rw [List.intercalate_splitOn] at parsed
  refine ⟨_, parsed, reading_buf _ _ _, reading_value (table_positive fcntl) _ _ _ rfl, ?_⟩
  intro before c rest split known unknown wanted
  rw [reading_buf, split, wanted, reading_badname before unknown 0 0 known, Nat.zero_add]
  refine ⟨rfl, ?_⟩
  rw [List.append_cons, offset_splits split]
  simp only [offsetOf, List.append_assoc, List.drop_left]
  rfl

/-- The two functions on the table that the headers' values give: a union of entries survives the
way to symbols and back, and a list of symbols is read as documented. -/
theorem open_flags_codec (value : Macro → Option (BitVec 32)) (fcntl : Fcntl value) :
    (∀ (chosen : List OpenFlag) (mode : Int) (after : Str) (wants : Bool),
      (∀ entry ∈ chosen, entry ∈ openFlags value) → ∃ r, parseOpenFlags (openFlags value)
          (openflags2symbols value (union (chosen.map (·.flag))) [','] mode ++ nul :: after)
          wants = some r ∧ r.value = union (chosen.map (·.flag))) ∧
    ∀ (s after : Str) (wants : Bool), nul ∉ s →
      ∃ r, parseOpenFlags (openFlags value) (s ++ nul :: after) wants = some r ∧
        ParseSpec (openFlags value) s after wants r := by
  constructor
  · intro chosen mode after wants entries
    obtain ⟨picked, listed, some_picked, text, same⟩ := symbols_of_union fcntl entries mode
    have free : ∀ x ∈ picked.map (·.symbol), Free x := by
      intro x mem
      obtain ⟨entry, inside, rfl⟩ := List.mem_map.mp mem
      exact table_free (listed entry inside)
    rw [text]
    refine ⟨_, parse_names (openFlags value) wants after (by simpa using some_picked) free, ?_⟩
    rw [reading_known table_nodup picked 0 0 listed, same]
    exact BitVec.zero_or
  · intro s after wants text
    exact parse_meets_spec fcntl s after text wants

def linux : Macro → Option (BitVec 32)
  | .rdonly => some 0
  | .wronly => some 1
  | .rdwr => some 2
  | .creat => some 0x40
  | .excl => some 0x80
  | .noctty => some 0x100
  | .trunc => some 0x200
  | .append => some 0x400
  | .nonblock => some 0x800
  | .ndelay => some 0x800
  | .dsync => some 0x1000
  | .async => some 0x2000
  | .direct => some 0x4000
  | .largefile => some 0
  | .sync => some 0x101000
  | .rsync => some 0x101000
  | _ => none

def macros : List Macro :=
  [.rdonly, .wronly, .rdwr, .sync, .creat, .trunc, .excl, .append, .nonblock, .noctty, .dsync,
   .rsync, .async, .ptyign, .ndelay, .raw, .ssd, .big, .place, .restart, .sfsxop, .sfsDeferTm,
   .wellformed, .ldraw, .t3d, .parallel, .largefile, .direct, .priv]

theorem mem_macros (m : Macro) : m ∈ macros := by
  cases m <;> decide

theorem linux_fcntl : Fcntl linux where
  rdonly := rfl
  distinct m n apart := by
    have all : ∀ m ∈ macros, ∀ n ∈ macros, family m ≠ family n →
        word linux m &&& word linux n = 0#32 := by decide +kernel
    exact apart_iff.mp (all m (mem_macros m) n (mem_macros n) apart)
  dsync := within_iff.mp (by decide)
  rsync := Or.inr rfl
  ndelay := Or.inr rfl
  positive m := by
    have all : ∀ m ∈ macros, (word linux m).msb = false := by decide +kernel
    exact all m (mem_macros m)

theorem linux_codec_bad_name :
    ∃ r, parseOpenFlags (openFlags linux) ("O_RDWR,O_NONE,O_SYNC".toList ++ nul :: []) true = some r ∧
      ParseSpec (openFlags linux) "O_RDWR,O_NONE,O_SYNC".toList [] true r :=
  (open_flags_codec linux linux_fcntl).2 _ [] true (by decide)

end codec
end VteOpenFlags
