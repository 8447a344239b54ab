import Vte.Pan.Zoo

/-!
pan/zoolib.c: `zoo_getpid`, which looks a tag up in the file of running test tags, and when the entry it
finds has the tag as its tag field.
-/
namespace VteZoo
open Text

def afterComma (buf : Str) : Option Str :=
  match buf.dropWhile (· != ',') with
  | [] => none
  | _ :: rest => some rest

/-- The line is live and `strncmp(s + 1, tag, strlen(tag))` is 0. -/
def tagHit (tag buf : Str) : Bool :=
  !isFree buf && match afterComma buf with
    | none => false
    | some s => tag.isPrefixOf s

def zooGetpid (file tag : Str) : Option Int := do
  let found ← findLine (tagHit tag) file (file.length + 1) 0
  match found with
  | some (_, buf) => return (BitVec.ofInt 32 (atoi buf)).toInt
  | none => return -1

/-- The pid and the tag field of a line: the number it starts with, and what stands between the first
    comma and the next one, or the end. -/
def pidOf (line : Str) : Int := (BitVec.ofInt 32 (atoi line)).toInt

def tagField (line : Str) : Option Str := (afterComma line).map fun s => s.takeWhile (· != ',')

def hasTag (tag line : Str) : Bool := !isFree line && tagField line = some tag

def startsTag (tag line : Str) : Bool :=
  !isFree line && match afterComma line with
    | none => false
    | some s => tag.isPrefixOf (s ++ ['\n'])

def lookup (lines : List Str) (tag : Str) : Int :=
  match lines.find? (hasTag tag) with
  | some line => pidOf line
  | none => -1

/-- The first live entry that begins with the tag has it as its tag, or has by chance the pid of the
    first that does, or -1 when none does. -/
def TagWhole (lines : List Str) (tag : Str) : Prop :=
  ∀ line, lines.find? (startsTag tag) = some line → tagField line = some tag ∨
    (∃ other, lines.find? (hasTag tag) = some other ∧ pidOf other = pidOf line) ∨
    ((∀ other ∈ lines, hasTag tag other = false) ∧ pidOf line = -1)

section lines
variable {tag line : Str}

theorem after_comma_line (line : Str) :
    afterComma (line ++ ['\n']) = (afterComma line).map (· ++ ['\n']) := by
  unfold afterComma
  induction line with
  | nil => rfl
  | cons c cs ih =>
    rw [List.cons_append, List.dropWhile_cons, List.dropWhile_cons]
    by_cases comma : (c != ',') = true
    · rw [if_pos comma, if_pos comma]
      exact ih
    · rw [if_neg comma, if_neg comma]
      rfl

theorem tag_hit_line (tag : Str) (s : Slot) : tagHit tag s.bytes = startsTag tag s.line := by
  have head := slot_head s
  rw [tagHit, isFree, head, Slot.bytes, after_comma_line, startsTag, isFree]
  cases afterComma s.line with
  | none => rfl
  | some rest => rfl

theorem has_tag_starts (has : hasTag tag line = true) : startsTag tag line = true := by
  unfold hasTag tagField at has
  unfold startsTag
  cases rest : afterComma line with
  | none => simp [rest] at has
  | some s =>
    rw [rest] at has
    simp only [Option.map_some, Bool.and_eq_true, decide_eq_true_eq, Option.some.injEq] at has
    obtain ⟨live, same⟩ := has
    rw [live, Bool.true_and, List.isPrefixOf_iff_prefix, ← same]
    exact (List.takeWhile_prefix _).trans (List.prefix_append s ['\n'])

theorem pid_of_bytes (s : Slot) (live : isFree s.line = false) :
    (BitVec.ofInt 32 (atoi s.bytes)).toInt = pidOf s.line := by
  cases s with
  | free rest _ _ => simp [Slot.line, isFree] at live
  | live m =>
    have alone := mark_atoi m []
    rw [List.append_nil] at alone
    rw [pidOf, Slot.bytes, Slot.line, mark_atoi m ['\n'], alone]

end lines

section table
variable {tag : Str}

theorem find_first (hit : Str → Bool) (slots : List Slot) :
    ∃ found, findLine hit (slots.flatMap Slot.bytes) ((slots.flatMap Slot.bytes).length + 1) 0 = some found ∧
      found.map Prod.snd = (slots.find? fun s => hit s.bytes).map Slot.bytes := by
  rcases find_slot hit slots [] _ (slots_fuel slots) with
    ⟨pre, s, post, split, others, here, run⟩ | ⟨others, run⟩
  · refine ⟨_, run, ?_⟩
    have first : (slots.find? fun s => hit s.bytes) = some s := by
      rw [List.find?_eq_some_iff_append]
      refine ⟨here, pre, post, split, ?_⟩
      intro t before
      rw [others t before]
      rfl
    rw [first]
    rfl
  · refine ⟨_, run, ?_⟩
    have nothing : (slots.find? fun s => hit s.bytes) = none := by
      rw [List.find?_eq_none]
      intro t mem
      rw [others t mem]
      decide
    rw [nothing]
    rfl

theorem getpid_first (slots : List Slot) (tag : Str) :
    zooGetpid (slots.flatMap Slot.bytes) tag = some
      (match (slots.map Slot.line).find? (startsTag tag) with
        | some line => pidOf line
        | none => -1) := by
  obtain ⟨found, run, buf⟩ := find_first (tagHit tag) slots
  have same : (slots.map Slot.line).find? (startsTag tag) =
      (slots.find? fun s => tagHit tag s.bytes).map Slot.line := by
    rw [List.find?_map]
    congr 2
    funext s
    exact (tag_hit_line tag s).symm
  rw [same, zooGetpid, run]
  simp only [Option.bind_eq_bind, Option.bind_some]
  cases first : slots.find? fun s => tagHit tag s.bytes with
  | none =>
    rw [first] at buf
    rw [Option.map_eq_none_iff.mp buf]
    rfl
  | some s =>
    rw [first] at buf
    obtain ⟨⟨pos, bytes⟩, rfl, rfl⟩ := Option.map_eq_some_iff.mp buf
    have hit := List.find?_some first
    rw [tag_hit_line, startsTag, Bool.and_eq_true] at hit
    have pid := pid_of_bytes s (by simpa using hit.1)
    simp only [Option.map_some, Option.pure_def, pid]

theorem lookup_iff (lines : List Str) (tag : Str) :
    (match lines.find? (startsTag tag) with
      | some line => pidOf line
      | none => -1) = lookup lines tag ↔ TagWhole lines tag := by
  unfold TagWhole lookup
  cases first : lines.find? (startsTag tag) with
  | none =>
    have nothing : lines.find? (hasTag tag) = none := by
      rw [List.find?_eq_none] at first ⊢
      intro line mem has
      exact first line mem (has_tag_starts has)
    simp [nothing]
  | some line =>
    simp only [Option.some.injEq, forall_eq']
    cases tagged : lines.find? (hasTag tag) with
    | none =>
      have free := List.find?_eq_none.mp tagged
      have other : tagField line ≠ some tag := by
        intro same
        have mem := List.mem_of_find?_eq_some first
        have begins := List.find?_some first
        rw [startsTag, Bool.and_eq_true] at begins
        exact free line mem (by rw [hasTag, begins.1, same]; simp)
      constructor
      · intro same
        refine .inr (.inr ⟨fun l mem => by simpa using free l mem, same⟩)
      · rintro (same | ⟨l, found, -⟩ | ⟨-, same⟩)
        · exact absurd same other
        · cases found
        · exact same
    | some other =>
      constructor
      · intro same
        exact .inr (.inl ⟨other, rfl, same.symm⟩)
      · rintro (same | ⟨l, found, pid⟩ | ⟨free, -⟩)
        · have begins := List.find?_some first
          rw [startsTag, Bool.and_eq_true] at begins
          have has : hasTag tag line = true := by
            rw [hasTag, begins.1, same]
            simp
          -- nothing before the first entry that begins with the tag has it
          obtain ⟨-, pre, post, split, others⟩ := List.find?_eq_some_iff_append.mp first
          have here : lines.find? (hasTag tag) = some line := by
            rw [List.find?_eq_some_iff_append]
            refine ⟨has, pre, post, split, fun l before => ?_⟩
            rw [Bool.not_eq_true']
            rw [Bool.eq_false_iff]
            intro early
            have missed := others l before
            rw [has_tag_starts early] at missed
            cases missed
          rw [tagged, Option.some.injEq] at here
          rw [here]
        · rw [Option.some.injEq] at found
          change pidOf line = pidOf other
          rw [found, pid]
        · have mem := List.mem_of_find?_eq_some tagged
          have has := List.find?_some tagged
          rw [free other mem] at has
          cases has

end table

/-- After every run of calls the lookup of a tag is right just when the first entry that begins with
    it is an entry with this tag. -/
theorem zoo_getpid_lookup (calls : List Call) :
    ∃ file done lines, runCalls calls = some (file, done) ∧ FixedWidth file lines ∧
      ∀ tag, zooGetpid file tag = some (lookup lines tag) ↔ TagWhole lines tag := by
  obtain ⟨file, done, slots, run, -, table⟩ := table_run calls
  obtain ⟨rfl, -⟩ := table
  refine ⟨_, done, slots.map Slot.line, run, slots_fixed_width slots, ?_⟩
  intro tag
  rw [getpid_first, Option.some.injEq]
  exact lookup_iff _ tag

/-- An entry with the tag `ls01`, and none with `ls`. -/
def longerTag : Mark := ⟨5, ['l', 's', '0', '1'], ['x'], by decide, by decide⟩

theorem longer_tag_found :
    (runCalls [.mark longerTag]).map Prod.fst = some (longerTag.line ++ ['\n']) ∧
    FixedWidth (longerTag.line ++ ['\n']) [longerTag.line] ∧
    zooGetpid (longerTag.line ++ ['\n']) ['l', 's'] = some 5 ∧
    lookup [longerTag.line] ['l', 's'] = -1 := by
  have table := slots_fixed_width [Slot.live longerTag]
  exact ⟨by decide, table, by decide, by decide⟩

end VteZoo
