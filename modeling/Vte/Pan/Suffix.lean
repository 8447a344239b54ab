import Vte.Pan.Scheduler

/-!
pan/ltp-pan.c: the suffix of a tag that sets the time its command may take, and the name that
check_pids puts in the formatted log. The backward scans read the tag a byte at a time.
-/
namespace VteScheduler
open Text

def sizeofOricom : Nat := 255

/-- The loop over `L` and `H`; `p` is behind the first `k` bytes. None is a read in front of the tag. -/
def timeoutLoop (tag : Str) : Nat → Nat → Option Nat
  | 0, _ => none
  | k + 1, timeout =>
    match tag[k]? with
    | none => none
    | some c =>
      if c = 'L' ∨ c = 'H' then timeoutLoop tag k (timeout + if c = 'L' then 1800 else 3600)
      else some timeout

/-- The timeout as `check_pids` computes it on its way in. -/
def checkTimeout (tag : Str) : Option Nat :=
  match tag.getLast? with
  | none => none
  | some c => timeoutLoop tag tag.length (if c = 'U' then 0xffffffff else 3600)

def suffixLoop (tag : Str) : Nat → Nat → Option Nat
  | 0, _ => none
  | k + 1, c =>
    match tag[k]? with
    | none => none
    | some ch =>
      if isSuffixChar ch then if tag.length ≤ c + 1 then some (c + 1) else suffixLoop tag k (c + 1)
      else some c

/-- `strncpy` into `oricom` of at most the length of the tag; none when it leaves the buffer. -/
def copyPrefix (tag : Str) (n : Nat) : Option Str :=
  if n ≤ sizeofOricom then some (tag.take n) else none

def copyName (tag : Str) : Option Str := do
  let c ← suffixLoop tag tag.length 0
  copyPrefix tag (if c < tag.length ∧ 0 < c then tag.length - c - 1 else tag.length)

/-- `name` is the tag without its suffix, an underscore and letters, or the tag when it has none. -/
def Stripped (tag name : Str) : Prop :=
  (∃ letters, letters ≠ [] ∧ (∀ c ∈ letters, isSuffixChar c = true) ∧ tag = name ++ '_' :: letters) ∨
    name = tag ∧ ¬ ∃ base letters, letters ≠ [] ∧ (∀ c ∈ letters, isSuffixChar c = true) ∧ tag = base ++ '_' :: letters

structure SuffixHandled (tag : Str) : Prop where
  timed : ∃ timeout, checkTimeout tag = some timeout
  copied : ∃ name, Stripped tag name ∧ copyName tag = some name ∧
    (∀ (o : Opts) (s : State) (slot : Slot) (status : Status) (ret : Int), o.logfile = true →
      o.fmtPrint = true → s.running.head? = some slot → slot.cmd.map (·.name) = some tag →
      ∃ verdict w, (endSlot o 0 slot status ret s).1.log = s.log ++ [.result name verdict w]) ∧
    ∀ (o : Opts) (s : State) (slot : Slot) (pcnt : Nat), o.failcmdfile = true →
      s.running.head? = some slot → slot.cmd.map (·.name) = some tag → timeout tag < pcnt + 1 →
      (pollAgain o 0 pcnt s).log = s.log ++ [.result name "TIMEOUT".toList 255]

/-- The tag is not all `L` and `H`; an underscore comes before the letters at its end, if it has any
    and is not all letters; what is left of it fits the buffer. -/
structure SuffixFits (tag : Str) : Prop where
  timed : ∃ c ∈ tag, c ≠ 'L' ∧ c ≠ 'H'
  underscore : 0 < suffixLength tag → suffixLength tag < tag.length → tag[tag.length - suffixLength tag - 1]? = some '_'
  fits : (oricom tag).length ≤ sizeofOricom

theorem take_reverse_succ {tag : Str} {k : Nat} {c : Char} (there : tag[k]? = some c) :
    (tag.take (k + 1)).reverse = c :: (tag.take k).reverse := by
  rw [List.take_add_one, there]
  simp

theorem timeout_loop (tag : Str) (k timeout : Nat) (inside : k ≤ tag.length) :
    (∃ t, timeoutLoop tag k timeout = some t) ↔ ∃ c ∈ tag.take k, c ≠ 'L' ∧ c ≠ 'H' := by
  induction k generalizing timeout with
  | zero => simp [timeoutLoop]
  | succ k ih =>
    have there : tag[k]? = some tag[k] := List.getElem?_eq_getElem inside
    have last : tag.take (k + 1) = tag.take k ++ [tag[k]] := by
      rw [List.take_add_one, there]
      rfl
    simp only [timeoutLoop, there, last]
    split
    · rename_i letter
      rw [ih _ (by omega)]
      have out : ¬ (tag[k] ≠ 'L' ∧ tag[k] ≠ 'H') := by
        rintro ⟨notL, notH⟩
        exact letter.elim notL notH
      simp only [List.mem_append, List.mem_singleton, or_and_right, exists_or, exists_eq_left]
      exact ⟨.inl, fun h => h.resolve_right out⟩
    · rename_i other
      have stop : tag[k] ≠ 'L' ∧ tag[k] ≠ 'H' := not_or.mp other
      exact ⟨fun _ => ⟨_, List.mem_append_right _ (List.mem_singleton_self _), stop⟩, fun _ => ⟨_, rfl⟩⟩

theorem check_timeout_iff {tag : Str} (nonempty : tag ≠ []) :
    (∃ t, checkTimeout tag = some t) ↔ ∃ c ∈ tag, c ≠ 'L' ∧ c ≠ 'H' := by
  rw [checkTimeout, List.getLast?_eq_getLast_of_ne_nil nonempty]
  have loop := timeout_loop tag tag.length
  rw [List.take_length] at loop
  exact loop _ (Nat.le_refl _)

theorem suffix_loop (tag : Str) (k c : Nat) (counted : c + k = tag.length) (more : 0 < k) :
    suffixLoop tag k c = some (c + ((tag.take k).reverse.takeWhile isSuffixChar).length) := by
  induction k generalizing c with
  | zero => exact absurd more (Nat.lt_irrefl 0)
  | succ k ih =>
    have there : tag[k]? = some tag[k] := List.getElem?_eq_getElem (by omega)
    simp only [suffixLoop, there, take_reverse_succ there, List.takeWhile_cons]
    split
    · split
      · rename_i last
        obtain rfl : k = 0 := by omega
        simp
      · rename_i further
        rw [ih (c + 1) (by omega) (by omega), List.length_cons]
        congr 1
        omega
    · simp

theorem copy_name {tag : Str} (nonempty : tag ≠ []) :
    copyName tag = if (oricom tag).length ≤ sizeofOricom then some (oricom tag) else none := by
  have start := suffix_loop tag tag.length 0 (by omega) (List.length_pos_iff.mpr nonempty)
  rw [List.take_length, Nat.zero_add, ← suffixLength] at start
  simp only [copyName, start, Option.bind_eq_bind, Option.bind_some, copyPrefix, oricom]
  split
  · rw [List.length_take, Nat.min_eq_left (by omega)]
  · rw [List.take_length]

theorem suffix_length_letters {base letters : Str} {mark : Char} (other : isSuffixChar mark = false)
    (all : ∀ c ∈ letters, isSuffixChar c = true) :
    suffixLength (base ++ mark :: letters) = letters.length := by
  have reversed : (base ++ mark :: letters).reverse = letters.reverse ++ mark :: base.reverse := by
    simp
  have back : ∀ c ∈ letters.reverse, isSuffixChar c = true :=
    fun c member => all c (List.mem_reverse.mp member)
  rw [suffixLength, reversed, List.takeWhile_append_of_pos back,
    List.takeWhile_cons_of_neg (by simp [other]), List.append_nil, List.length_reverse]

theorem suffix_letters (tag : Str) :
    ∀ c ∈ tag.drop (tag.length - suffixLength tag), isSuffixChar c = true := by
  intro c member
  have taken : (tag.drop (tag.length - suffixLength tag)).reverse = tag.reverse.take (suffixLength tag) := by
    rw [List.take_reverse]
  have inside : c ∈ tag.reverse.take (suffixLength tag) := by
    rw [← taken]
    exact List.mem_reverse.mpr member
  have prefix_eq : tag.reverse.take (suffixLength tag) = tag.reverse.takeWhile isSuffixChar := by
    rw [suffixLength]
    exact (List.prefix_iff_eq_take.mp (List.takeWhile_prefix isSuffixChar)).symm
  rw [prefix_eq] at inside
  exact List.all_eq_true.mp List.all_takeWhile c inside

theorem suffix_length_le (tag : Str) : suffixLength tag ≤ tag.length := by
  have short := (List.takeWhile_prefix (l := tag.reverse) isSuffixChar).length_le
  rwa [List.length_reverse] at short

theorem oricom_stripped_iff (tag : Str) :
    Stripped tag (oricom tag) ↔ (0 < suffixLength tag → suffixLength tag < tag.length →
      tag[tag.length - suffixLength tag - 1]? = some '_') := by
  have short := suffix_length_le tag
  constructor
  · intro stripped some_ letters
    rw [oricom, if_pos ⟨letters, some_⟩] at stripped
    rcases stripped with ⟨ending, _, _, whole⟩ | ⟨same, _⟩
    · have here : (tag.take (tag.length - suffixLength tag - 1) ++ '_' :: ending)[
          tag.length - suffixLength tag - 1]? = some '_' := by
        rw [List.getElem?_append_right (by rw [List.length_take]; omega), List.length_take,
          Nat.min_eq_left (by omega), Nat.sub_self]
        rfl
      rwa [← whole] at here
    · have shorter := congrArg List.length same
      rw [List.length_take] at shorter
      omega
  · intro underscore
    by_cases strips : suffixLength tag < tag.length ∧ 0 < suffixLength tag
    · rw [oricom, if_pos strips]
      refine .inl ⟨tag.drop (tag.length - suffixLength tag), ?_, suffix_letters tag, ?_⟩
      · intro none
        have length := congrArg List.length none
        rw [List.length_drop, List.length_nil] at length
        omega
      · have mark := underscore strips.2 strips.1
        have place : tag.length - suffixLength tag - 1 < tag.length := by omega
        rw [List.getElem?_eq_getElem place, Option.some.injEq] at mark
        have rest : tag.drop (tag.length - suffixLength tag - 1) = '_' :: tag.drop (tag.length - suffixLength tag) := by
          rw [List.drop_eq_getElem_cons place, mark]
          congr 2
          omega
        rw [← rest, List.take_append_drop]
    · rw [oricom, if_neg strips]
      refine .inr ⟨rfl, ?_⟩
      rintro ⟨base, letters, some_, all, rfl⟩
      apply strips
      rw [suffix_length_letters (by decide) all]
      refine ⟨by simp; omega, List.length_pos_iff.mpr some_⟩

theorem slot_name {s : State} {slot : Slot} {tag : Str} (first : s.running.head? = some slot)
    (named : slot.cmd.map (·.name) = some tag) : s.name = tag := by
  rw [State.name, State.cmd, first, Option.bind_some, named]
  rfl

theorem normal_line (o : Opts) (s : State) (slot : Slot) (status : Status) (ret : Int)
    (logs : o.logfile = true) (formatted : o.fmtPrint = true) :
    ∃ verdict w, (endSlot o 0 slot status ret s).1.log = s.log ++ [.result (oricom s.name) verdict w] := by
  simp only [endSlot, logs, formatted, Bool.not_true, Bool.false_eq_true, if_false]
  exact ⟨_, _, rfl⟩

theorem timeout_line (o : Opts) (s : State) (pcnt : Nat) (fails : o.failcmdfile = true)
    (late : timeout s.name < pcnt + 1) :
    (pollAgain o 0 pcnt s).log = s.log ++ [.result (oricom s.name) "TIMEOUT".toList 255] := by
  simp only [pollAgain, if_pos late, fails, if_true]

end VteScheduler
