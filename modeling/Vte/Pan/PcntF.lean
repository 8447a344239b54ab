import Vte.Pan.Collection

/-!
What becomes of the %f of a command: subst_pcnt_f takes the command itself as a format. A format
never makes more of its other percent signs than they are, so that lengths tell what came out.
-/
namespace VteCollection
open Text

theorem format_plain {c : Char} (plain : c ≠ '%') (cs : Str) (arg : Option Str) :
    format (c :: cs) arg = (format cs arg).map (c :: ·) := by
  rw [format]
  · intro _ percent
    exact absurd percent plain
  · exact plain
  · intro _ _ _ percent
    exact absurd percent plain

theorem format_length {s : Str} {arg : Option Str} {r : Str} (formatted : format s arg = some r) :
    2 * r.length + s.count '%' = 2 * s.length ∨
      ∃ text, arg = some text ∧ 2 * r.length + s.count '%' + 3 = 2 * s.length + 2 * text.length := by
  induction s, arg using format.induct generalizing r with
  | case1 arg =>
    obtain rfl := Option.some.inj formatted
    exact .inl rfl
  | case2 cs arg ih =>
    rw [format] at formatted
    obtain ⟨rest, later, rfl⟩ := Option.map_eq_some_iff.mp formatted
    simp only [List.length_cons, List.count_cons_self]
    rcases ih later with plain | ⟨text, given, used⟩
    · exact .inl (by omega)
    · exact .inr ⟨text, given, by omega⟩
  | case3 cs text ih =>
    rw [format] at formatted
    obtain ⟨rest, later, rfl⟩ := Option.map_eq_some_iff.mp formatted
    rcases ih later with plain | ⟨text, given, _⟩
    · refine .inr ⟨text, rfl, ?_⟩
      simp only [List.length_cons, List.count_cons_self, List.length_append,
        List.count_cons_of_ne (show 's' ≠ '%' by decide)]
      omega
    · cases given
  | case4 cs arg notPercent notS =>
    rw [format] at formatted
    · cases formatted
    · exact notPercent
    · exact notS
  | case5 c cs arg _ _ plain ih =>
    rw [format_plain plain] at formatted
    obtain ⟨rest, later, rfl⟩ := Option.map_eq_some_iff.mp formatted
    simp only [List.length_cons, List.count_cons_of_ne plain]
    rcases ih later with same | ⟨text, given, used⟩
    · exact .inl (by omega)
    · exact .inr ⟨text, given, by omega⟩

theorem format_text {s : Str} (plain : '%' ∉ s) (t : Str) (arg : Option Str) :
    format (s ++ t) arg = (format t arg).map (s ++ ·) := by
  induction s with
  | nil => simp
  | cons c s ih =>
    obtain ⟨here, later⟩ := not_or.mp fun h => plain (List.mem_cons.mpr h)
    rw [List.cons_append, format_plain (fun same => here same.symm), ih later, Option.map_map]
    rfl

theorem format_one (before after text : Str) (plain : '%' ∉ before) (rest : '%' ∉ after) :
    format (before ++ '%' :: 's' :: after) (some text) = some (before ++ text ++ after) := by
  have behind : format after none = some after := by
    have whole := format_text rest [] none
    simpa [format] using whole
  rw [format_text plain, format, behind]
  simp

theorem format_f (before after : Str) (plain : '%' ∉ before) (arg : Option Str) :
    format (before ++ '%' :: 'f' :: after) arg = none := by
  rw [format_text plain, format]
  · rfl
  · rintro _ same
    cases same
  · rintro _ _ _ same
    cases same

/-- `result` is the command with the text for its first `%f`. -/
def Replaced (cmd text result : Str) : Prop :=
  ∃ before after, cmd = before ++ '%' :: 'f' :: after ∧ ¬ HasPcntF (before ++ ['%']) ∧ result = before ++ text ++ after

theorem replaced_length {cmd text result : Str} (replaced : Replaced cmd text result) :
    result.length + 2 = cmd.length + text.length := by
  obtain ⟨before, after, rfl, _, rfl⟩ := replaced
  simp
  omega

theorem formatted_single {fmt cmd text result out : Str} (long : 3 ≤ text.length)
    (same : fmt.length = cmd.length) (formatted : format fmt (some text) = some out)
    (replaced : Replaced cmd text result) (cut : result = out.take 1023) :
    fmt.count '%' ≤ 1 ∧ cmd.length + text.length ≤ 1025 := by
  have length := replaced_length replaced
  have short : result.length ≤ out.length ∧ result.length ≤ 1023 := by
    rw [cut, List.length_take]
    omega
  rcases format_length formatted with plain | ⟨given, is, used⟩
  · omega
  · obtain rfl := Option.some.inj is
    omega

theorem pid_and_counter_long (pid counter : Int) : 3 ≤ (pidAndCounter pid counter).length := by
  have digits (i : Int) : 1 ≤ (decimal i).length := by
    rw [decimal]
    split
    · simp
    · exact List.length_pos_iff.mpr Nat.toDigits_ne_nil
  have pids := digits pid
  have counters := digits counter
  rw [pidAndCounter, List.length_take, List.length_append, List.length_cons]
  omega

theorem marked_replaced_iff {cmd text : Str} (long : 3 ≤ text.length) (has : HasPcntF cmd) :
    (∃ result, (format (mark cmd) (some text)).map (·.take 1023) = some result ∧
      Replaced cmd text result) ↔ cmd.count '%' = 1 ∧ cmd.length + text.length ≤ 1025 := by
  rcases mark_marked cmd with ⟨before, after, whole, first, marked⟩ | ⟨none, _⟩
  · have count : (mark cmd).count '%' = cmd.count '%' := by
      rw [marked, whole]
      simp [List.count_append]
    have length : (mark cmd).length = cmd.length := by
      rw [marked, whole]
      simp
    have one : 1 ≤ cmd.count '%' := by
      rw [whole, List.count_append, List.count_cons_self]
      omega
    constructor
    · rintro ⟨result, formatted, replaced⟩
      obtain ⟨out, formatted, cut⟩ := Option.map_eq_some_iff.mp formatted
      obtain ⟨few, fits⟩ := formatted_single long length formatted replaced cut.symm
      exact ⟨by omega, fits⟩
    · rintro ⟨single, fits⟩
      have others : before.count '%' = 0 ∧ after.count '%' = 0 := by
        rw [whole] at single
        simp only [List.count_append, List.count_cons_self, List.count_cons_of_ne (show 'f' ≠ '%' by decide)] at single
        omega
      have formatted := format_one before after text (List.count_eq_zero.mp others.1)
        (List.count_eq_zero.mp others.2)
      refine ⟨before ++ text ++ after, ?_, before, after, whole, first, rfl⟩
      rw [marked, formatted, Option.map_some, List.take_of_length_le]
      have total := congrArg List.length whole
      simp only [List.length_append, List.length_cons] at total ⊢
      omega
  · exact absurd has none

theorem unmarked_not_replaced {cmd text : Str} (long : 3 ≤ text.length) (has : HasPcntF cmd) :
    ¬ ∃ result, (format cmd (some text)).map (·.take 1023) = some result ∧ Replaced cmd text result := by
  rintro ⟨result, formatted, replaced⟩
  obtain ⟨out, formatted, cut⟩ := Option.map_eq_some_iff.mp formatted
  obtain ⟨few, _⟩ := formatted_single long rfl formatted replaced cut.symm
  obtain ⟨before, after, rfl, _, _⟩ := replaced
  have plain : before.count '%' = 0 := by
    simp only [List.count_append, List.count_cons_self] at few
    omega
  rw [format_f before after (List.count_eq_zero.mp plain)] at formatted
  cases formatted

theorem pcnt_f_cons {c : Char} {cs : Str} (other : ¬ (c = '%' ∧ ∃ rest, cs = 'f' :: rest)) :
    pcntF (c :: cs) = (pcntF cs).map (· + 1) := by
  rw [pcntF]
  rintro rest percent rfl
  exact other ⟨percent, rest, rfl⟩

theorem pcnt_f_append {name : Str} (none : ¬ HasPcntF name) {b : Char} (blank : isBlank b = true)
    (cmd : Str) : pcntF (name ++ b :: cmd) = (pcntF cmd).map (· + (name.length + 1)) := by
  induction name with
  | nil =>
    have other : b ≠ '%' := by
      rintro rfl
      exact absurd blank (by decide)
    exact pcnt_f_cons fun h => other h.1
  | cons c name ih =>
    have later : ¬ HasPcntF name := fun h => none (List.infix_cons h)
    rw [List.cons_append, pcnt_f_cons, ih later, Option.map_map]
    · rfl
    · rintro ⟨rfl, rest, whole⟩
      cases name with
      | nil =>
        obtain ⟨rfl, -⟩ := List.cons.inj whole
        exact absurd blank (by decide)
      | cons d name =>
        obtain ⟨rfl, -⟩ := List.cons.inj whole
        exact none ⟨[], name, rfl⟩

theorem mark_append {name : Str} (none : ¬ HasPcntF name) {b : Char} (blank : isBlank b = true)
    (cmd : Str) : mark (name ++ b :: cmd) = name ++ b :: mark cmd := by
  rw [mark, mark, pcnt_f_append none blank]
  cases pcntF cmd with
  | none => rfl
  | some i =>
    have place : i + (name.length + 1) + 1 = name.length + (i + 1 + 1) := by omega
    simp only [Option.map_some, place]
    rw [List.set_append_right _ _ (by omega), Nat.add_sub_cancel_left, List.set_cons_succ]

theorem mark_name {name : Str} (has : HasPcntF name) (rest : Str) :
    mark (name ++ rest) = mark name ++ rest := by
  rcases mark_marked name with ⟨before, after, whole, first, marked⟩ | ⟨none, _⟩
  · have found : pcntF (before ++ '%' :: 'f' :: (after ++ rest)) = some before.length := by
      have bare : ¬ HasPcntF (before ++ ['%']) := first
      clear whole marked first has
      induction before with
      | nil => rfl
      | cons c before ih =>
        have later : ¬ HasPcntF (before ++ ['%']) := fun h => bare (List.infix_cons h)
        rw [List.cons_append, pcnt_f_cons, ih later]
        · rfl
        · rintro ⟨rfl, tail, here⟩
          cases before with
          | nil => cases (List.cons.inj here).1
          | cons d before =>
            obtain ⟨rfl, -⟩ := List.cons.inj here
            exact bare ⟨[], before ++ ['%'], rfl⟩
    rw [marked, mark, whole, List.append_assoc, List.cons_append, List.cons_append, found]
    simp
  · exact absurd has none

def nameOf (line : Str) : Str := line.takeWhile (!isBlank ·)

def commandOf (line : Str) : Str := (line.dropWhile (!isBlank ·)).tail

theorem line_parts {line : Str} (blank : hasBlank line = true) :
    ∃ b, isBlank b = true ∧ line = nameOf line ++ b :: commandOf line := by
  obtain ⟨c, member, isblank⟩ := List.any_eq_true.mp blank
  have rest : line.dropWhile (!isBlank ·) ≠ [] := by
    intro none
    have all := List.dropWhile_eq_nil_iff.mp none c member
    rw [isblank] at all
    cases all
  obtain ⟨b, cmd, split⟩ := List.exists_cons_of_ne_nil rest
  have first := List.head_dropWhile_not (!isBlank ·) rest
  refine ⟨b, by simpa [split] using first, ?_⟩
  rw [nameOf, commandOf, split, List.tail_cons, ← split, List.takeWhile_append_dropWhile]

theorem cut_at_blank {name : Str} (free : ∀ c ∈ name, isBlank c = false) {b : Char}
    (blank : isBlank b = true) (cmd : Str) :
    ((name ++ b :: cmd).dropWhile (!isBlank ·)).tail = cmd := by
  have kept : ∀ c ∈ name, (!isBlank c) = true := fun c member => by rw [free c member]; rfl
  rw [List.dropWhile_append_of_pos kept, List.dropWhile_cons_of_neg (by rw [blank]; decide), List.tail_cons]

theorem stored_command {line : Str} {e : CollEntry} (made : newEntry line = some e) :
    e.pcntF = (pcntF line).isSome ∧ (¬ HasPcntF (nameOf line) → e.cmdline = mark (commandOf line)) ∧
      (HasPcntF (nameOf line) → e.cmdline = commandOf line) := by
  rw [new_entry_of] at made
  split at made
  · rename_i blank
    obtain rfl := Option.some.inj made
    obtain ⟨b, isblank, whole⟩ := line_parts blank
    have free : ∀ c ∈ nameOf line, isBlank c = false := by
      intro c member
      have kept := List.all_eq_true.mp List.all_takeWhile c member
      simpa using kept
    refine ⟨rfl, fun none => ?_, fun has => ?_⟩
    · have marked : mark line = nameOf line ++ b :: mark (commandOf line) := by
        rw [← mark_append none isblank, ← whole]
      rw [entryOf, marked]
      exact cut_at_blank free isblank (mark (commandOf line))
    · have marked : mark line = mark (nameOf line) ++ b :: commandOf line := by
        rw [← mark_name has, ← whole]
      have still : ∀ c ∈ mark (nameOf line), isBlank c = false := by
        have same := mark_blank (nameOf line)
        have none : hasBlank (nameOf line) = false := by
          rw [hasBlank, List.any_eq_false]
          intro c member
          rw [free c member]
          decide
        rw [none, hasBlank, List.any_eq_false] at same
        intro c member
        exact Bool.eq_false_iff.mpr (same c member)
      rw [entryOf, marked]
      exact cut_at_blank still isblank (commandOf line)
  · cases made

theorem has_pcnt_f_marked {s : Str} (has : HasPcntF s) : (pcntF s).isSome = true := by
  rw [Option.isSome_iff_ne_none, ne_eq, pcnt_f_none_iff, not_not]
  exact has

/-- The entry for a line, or for pan's arguments, is run with the counter's text for its first %f
    and all else unchanged, just when that is the command's only percent sign, the name of the line
    has no %f, and the result fits the buffer. -/
theorem pcnt_f_substituted_iff (pid counter : Int) :
    (∀ line e, newEntry line = some e → HasPcntF (commandOf line) → ((∃ result, substPcntF pid counter e = some result ∧
          Replaced (commandOf line) (pidAndCounter pid counter) result) ↔
        ¬ HasPcntF (nameOf line) ∧ (commandOf line).count '%' = 1 ∧
          (commandOf line).length + (pidAndCounter pid counter).length ≤ 1025)) ∧
    ∀ workstr, HasPcntF workstr → ((∃ result, substPcntF pid counter (cmdlnEntry workstr) = some result ∧
          Replaced workstr (pidAndCounter pid counter) result) ↔
        workstr.count '%' = 1 ∧ workstr.length + (pidAndCounter pid counter).length ≤ 1025) := by
  have long := pid_and_counter_long pid counter
  constructor
  · intro line e made has
    obtain ⟨flag, marked, unmarked⟩ := stored_command made
    have present : HasPcntF line := by
      rw [new_entry_of] at made
      split at made
      · rename_i blank
        obtain ⟨b, _, whole⟩ := line_parts blank
        obtain ⟨before, after, inside⟩ := has
        have moved : nameOf line ++ b :: before ++ ['%', 'f'] ++ after =
            nameOf line ++ b :: (before ++ ['%', 'f'] ++ after) := by simp
        exact ⟨nameOf line ++ b :: before, after, by rw [moved, inside, ← whole]⟩
      · cases made
    rw [has_pcnt_f_marked present] at flag
    rw [substPcntF, if_pos flag]
    by_cases named : HasPcntF (nameOf line)
    · rw [unmarked named]
      exact ⟨fun h => absurd h (unmarked_not_replaced long has), fun h => absurd named h.1⟩
    · rw [marked named, marked_replaced_iff long has]
      exact ⟨fun h => ⟨named, h⟩, fun h => h.2⟩
  · intro workstr has
    rw [substPcntF, cmdlnEntry, if_pos (has_pcnt_f_marked has)]
    exact marked_replaced_iff long has

theorem echo_substituted : ∃ e result, newEntry "t echo %f".toList = some e ∧
    substPcntF 7 1 e = some result ∧ Replaced "echo %f".toList (pidAndCounter 7 1) result := by
  have here := (pcnt_f_substituted_iff 7 1).1 "t echo %f".toList _ rfl
    ⟨"echo ".toList, [], by decide⟩
  obtain ⟨result, formatted, replaced⟩ :=
    here.mpr ⟨(pcnt_f_none_iff _).mp (by decide), by decide, by decide⟩
  exact ⟨_, result, rfl, formatted, replaced⟩

/-- The hundred per cent are a conversion of their own. -/
theorem other_percent_not_kept :
    ¬ ∀ pid counter line e, newEntry line = some e → HasPcntF (commandOf line) →
      ∃ result, substPcntF pid counter e = some result ∧
        Replaced (commandOf line) (pidAndCounter pid counter) result := by
  intro always
  have broken : (newEntry "t echo %f 100%".toList).map (substPcntF 7 1) = some none := by decide
  obtain ⟨e, made, nothing⟩ := Option.map_eq_some_iff.mp broken
  obtain ⟨result, formatted, _⟩ := always 7 1 "t echo %f 100%".toList e made
    ⟨"echo ".toList, " 100%".toList, by decide⟩
  rw [nothing] at formatted
  cases formatted

end VteCollection
