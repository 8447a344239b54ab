import Mathlib.Data.List.TakeWhile
import Vte.Base.Text

/-!
pan/ltp-pan.c: get_collection, which reads the command file and joins the arguments of pan's own
command line, and subst_pcnt_f. None is a write outside a buffer or a null pointer followed.
-/
namespace VteCollection
open Text

def nul : Char := '\x00'

def isBlank (c : Char) : Bool := c = ' ' || c = '\t'

def pcntF : Str → Option Nat
  | '%' :: 'f' :: _ => some 0
  | _ :: cs => (pcntF cs).map (· + 1)
  | [] => none

/-- `pcnt_f[1] = 's'`, if there is a `%f`. -/
def mark (s : Str) : Str :=
  match pcntF s with
  | some i => s.set (i + 1) 's'
  | none => s

/-- `struct coll_entry`; of `pcnt_f`, which points into a buffer that is freed, whether it is set. -/
structure CollEntry where
  name : Str
  cmdline : Str
  pcntF : Bool
  deriving DecidableEq

/-- The first line of the buffer at `a`, and `b`, what is behind its newline. -/
def cutLine : Str → Str × Option Str
  | [] => ([], none)
  | c :: cs =>
    if c = nul then ([], none)
    else if c = '\n' then ([], some cs)
    else (c :: (cutLine cs).1, (cutLine cs).2)

def wanted (line : Str) : Bool :=
  match line.head? with
  | some c => c != '#' && c != ' '
  | none => false

/-- The entry for a line: without a blank `strsep` leaves a null pointer for `strdup`. -/
def newEntry (line : Str) : Option CollEntry :=
  let a := mark line
  match a.dropWhile (!isBlank ·) with
  | [] => none
  | _ :: rest =>
    some { name := a.takeWhile (!isBlank ·), cmdline := rest, pcntF := (pcntF line).isSome }

theorem cut_line_shorter {a line b : Str} (cut : cutLine a = (line, some b)) : b.length < a.length := by
  induction a generalizing line with
  | nil => cases cut
  | cons c cs ih =>
    rw [cutLine] at cut
    split at cut
    · cases cut
    · split at cut
      · obtain ⟨-, behind⟩ := Prod.mk.inj cut
        obtain rfl := Option.some.inj behind
        simp
      · obtain ⟨-, behind⟩ := Prod.mk.inj cut
        have later : cutLine cs = ((cutLine cs).1, some b) := by rw [← behind]
        have shorter := ih later
        rw [List.length_cons]
        omega

def addLine (line : Str) (list : List CollEntry) (cnt : Nat) : Option (List CollEntry × Nat) :=
  if wanted line then (newEntry line).map fun n => (list ++ [n], cnt + 1) else some (list, cnt)

def parseLoop (a : Str) (list : List CollEntry) (cnt : Nat) : Option (List CollEntry × Nat) :=
  match _cut : cutLine a with
  | (line, none) => addLine line list cnt
  | (line, some b) => (addLine line list cnt).bind fun r => parseLoop b r.1 r.2
termination_by a.length
decreasing_by exact cut_line_shorter _cut

def sizeofWorkstr : Nat := 1024

/-- `strncat` of at most `n` bytes, where a negative `n` is a huge one. -/
def strncat (workstr src : Str) (n : Int) : Option Str :=
  let joined := workstr ++ if n < 0 then src else src.take n.toNat
  if joined.length < sizeofWorkstr then some joined else none

def joinArgs : List Str → Str → Int → Option Str
  | [], workstr, _ => some workstr
  | arg :: args, workstr, left => do
    let workstr ← strncat workstr arg left
    let left := left - arg.length
    let workstr ← strncat workstr [' '] left
    joinArgs args workstr (left - 1)

def cmdlnEntry (workstr : Str) : CollEntry where
  name := "cmdln".toList
  cmdline := mark workstr
  pcntF := (pcntF workstr).isSome

structure Collection where
  cnt : Nat
  ary : List CollEntry
  deriving DecidableEq

/-- The array of `cnt` elements filled from the list. -/
def fillArray (cnt : Nat) (list : List CollEntry) : Option (List CollEntry) :=
  if list.length ≤ cnt then some list else none

def getCollection (file : Str) (args : List Str) : Option Collection := do
  let (list, cnt) ← parseLoop file [] 0
  let (list, cnt) ←
    if args ≠ [] then do
      let workstr ← joinArgs args [] 1023
      some (list ++ [cmdlnEntry workstr], cnt + 1)
    else some (list, cnt)
  let ary ← fillArray cnt list
  some { cnt, ary }

/-- The format of a `printf` with one string as its argument; none when a conversion wants another
    argument, or an argument of another kind. -/
def format : Str → Option Str → Option Str
  | [], _ => some []
  | '%' :: '%' :: cs, arg => (format cs arg).map ('%' :: ·)
  | '%' :: 's' :: cs, some arg => (format cs none).map (arg ++ ·)
  | '%' :: _, _ => none
  | c :: cs, arg => (format cs arg).map (c :: ·)

def pidAndCounter (pid counter : Int) : Str := (decimal pid ++ '_' :: decimal counter).take 19

def substPcntF (pid counter : Int) (colle : CollEntry) : Option Str :=
  if colle.pcntF then (format colle.cmdline (some (pidAndCounter pid counter))).map (·.take 1023)
  else some colle.cmdline

def linesOf (file : Str) : List Str := (file.takeWhile (· != nul)).splitOn '\n'

theorem lines_of_cut (file : Str) : linesOf file = (cutLine file).1 :: ((cutLine file).2.map linesOf).getD [] := by
  induction file with
  | nil => rfl
  | cons c cs ih =>
    rw [cutLine]
    by_cases ends : c = nul
    · simp [ends, linesOf]
    · rw [if_neg ends]
      by_cases newline : c = '\n'
      · subst newline
        simp [linesOf, ends, List.splitOn_cons_eq_if_modifyHead]
      · rw [if_neg newline]
        have whole : linesOf (c :: cs) = (linesOf cs).modifyHead (c :: ·) := by
          simp [linesOf, ends, List.splitOn_cons_eq_if_modifyHead, newline]
        rw [whole, ih]
        rfl

def entryLines (file : Str) : List Str := (linesOf file).filter wanted

def entryOf (line : Str) : CollEntry where
  name := (mark line).takeWhile (!isBlank ·)
  cmdline := ((mark line).dropWhile (!isBlank ·)).tail
  pcntF := (pcntF line).isSome

def hasBlank (line : Str) : Bool := line.any isBlank

theorem set_blank (s : Str) (i : Nat) (letter : s[i]? = some 'f') :
    (s.set i 's').any isBlank = s.any isBlank := by
  induction s generalizing i with
  | nil => rfl
  | cons c s ih =>
    cases i with
    | zero =>
      obtain rfl : c = 'f' := by simpa using letter
      rfl
    | succ i => rw [List.set_cons_succ, List.any_cons, List.any_cons, ih i (by simpa using letter)]

theorem pcnt_f_place {s : Str} {i : Nat} (found : pcntF s = some i) :
    s[i]? = some '%' ∧ s[i + 1]? = some 'f' := by
  induction s using pcntF.induct generalizing i with
  | case1 cs =>
    obtain rfl : 0 = i := by simpa [pcntF] using found
    exact ⟨rfl, rfl⟩
  | case2 c cs other ih =>
    rw [pcntF] at found
    · obtain ⟨j, later, rfl⟩ := Option.map_eq_some_iff.mp found
      simpa using ih later
    · exact other
  | case3 => cases found

theorem mark_blank (line : Str) : hasBlank (mark line) = hasBlank line := by
  rw [mark]
  cases found : pcntF line with
  | none => rfl
  | some i => exact set_blank line (i + 1) (pcnt_f_place found).2

theorem new_entry_of (line : Str) :
    newEntry line = if hasBlank line then some (entryOf line) else none := by
  rw [newEntry, ← mark_blank]
  cases split : (mark line).dropWhile (!isBlank ·) with
  | nil =>
    have none : hasBlank (mark line) = false := by
      rw [hasBlank, List.any_eq_false]
      intro c member blank
      have all := List.dropWhile_eq_nil_iff.mp split c member
      rw [blank] at all
      cases all
    rw [none]
    rfl
  | cons c rest =>
    have some_ : hasBlank (mark line) = true := by
      have member : c ∈ mark line := by
        have inside : c ∈ (mark line).dropWhile (!isBlank ·) := by
          rw [split]
          exact List.mem_cons_self
        exact (List.dropWhile_sublist _).subset inside
      have blank : isBlank c = true := by
        have first := List.head_dropWhile_not (!isBlank ·) (l := mark line) (by rw [split]; simp)
        simpa [split] using first
      exact List.any_eq_true.mpr ⟨c, member, blank⟩
    simp only [some_, if_true, entryOf, split, List.tail_cons]

theorem add_line (line : Str) (list : List CollEntry) (cnt : Nat) : addLine line list cnt =
    if ∀ l ∈ [line].filter wanted, hasBlank l = true then
      some (list ++ ([line].filter wanted).map entryOf, cnt + ([line].filter wanted).length)
    else none := by
  rw [addLine, new_entry_of]
  cases wants : wanted line <;> cases blank : hasBlank line <;> simp [wants, blank]

theorem parse_loop_lines (file : Str) (list : List CollEntry) (cnt : Nat) :
    parseLoop file list cnt =
      if ∀ line ∈ entryLines file, hasBlank line = true then
        some (list ++ (entryLines file).map entryOf, cnt + (entryLines file).length)
      else none := by
  induction file, list, cnt using parseLoop.induct with
  | case1 file list cnt line cut =>
    have only : entryLines file = [line].filter wanted := by
      rw [entryLines, lines_of_cut, cut]
      rfl
    rw [parseLoop, only, ← add_line]
    split
    · rename_i line' cut'
      obtain ⟨rfl, -⟩ := Prod.mk.inj (cut.symm.trans cut')
      rfl
    · rename_i line' b cut'
      cases (Prod.mk.inj (cut.symm.trans cut')).2
  | case2 file list cnt line b cut ih =>
    have first : entryLines file = [line].filter wanted ++ entryLines b := by
      rw [entryLines, lines_of_cut, cut, ← List.singleton_append, List.filter_append]
      rfl
    rw [parseLoop, first]
    split
    · rename_i line' cut'
      cases (Prod.mk.inj (cut.symm.trans cut')).2
    · rename_i line' b' cut'
      obtain ⟨rfl, same⟩ := Prod.mk.inj (cut.symm.trans cut')
      obtain rfl := Option.some.inj same
      rw [add_line]
      by_cases here : ∀ l ∈ [line].filter wanted, hasBlank l = true
      · have rest : (∀ l ∈ [line].filter wanted ++ entryLines b, hasBlank l = true) ↔
            ∀ l ∈ entryLines b, hasBlank l = true := by
          rw [List.forall_mem_append]
          exact ⟨fun all => all.2, fun all => ⟨here, all⟩⟩
        rw [if_pos here, Option.bind_some, ih]
        simp only [rest, List.map_append, List.append_assoc, List.length_append, Nat.add_assoc]
      · rw [if_neg here, Option.bind_none, if_neg fun all => here fun l member =>
          all l (List.mem_append_left _ member)]

def joined (args : List Str) : Str := (args.flatMap (· ++ [' '])).take 1023

def ArgsFit (args : List Str) : Prop := ([' '].intercalate args).length ≤ 1023

instance (args : List Str) : Decidable (ArgsFit args) :=
  inferInstanceAs (Decidable (_ ≤ _))

theorem strncat_fits {workstr src : Str} {n : Nat} (room : workstr.length + n < sizeofWorkstr) :
    strncat workstr src n = some (workstr ++ src.take n) := by
  have small : (workstr ++ src.take n).length < sizeofWorkstr := by
    rw [List.length_append, List.length_take]
    omega
  have bounded : ¬ (n : Int) < 0 := Int.not_lt.mpr (Int.natCast_nonneg n)
  simp only [strncat, if_neg bounded, Int.toNat_natCast, if_pos small]

theorem strncat_unbounded {workstr src : Str} {n : Int} (below : n < 0) :
    strncat workstr src n =
      if (workstr ++ src).length < sizeofWorkstr then some (workstr ++ src) else none := by
  simp only [strncat, if_pos below]

theorem join_args_cons (arg : Str) (args : List Str) (workstr : Str) (left : Int) :
    joinArgs (arg :: args) workstr left = (strncat workstr arg left).bind fun workstr =>
      (strncat workstr [' '] (left - arg.length)).bind fun workstr =>
        joinArgs args workstr (left - arg.length - 1) := rfl

theorem join_args_full {args : List Str} {workstr : Str} (full : workstr.length = 1023)
    (more : args ≠ []) : joinArgs args workstr (-1) = none := by
  obtain ⟨arg, args, rfl⟩ := List.exists_cons_of_ne_nil more
  rw [join_args_cons, strncat_unbounded (by decide)]
  split
  · rename_i fits
    have longer : ¬ (workstr ++ arg ++ [' ']).length < sizeofWorkstr := by
      rw [List.length_append, List.length_append, full, sizeofWorkstr, List.length_singleton]
      omega
    rw [Option.bind_some, strncat_unbounded (by omega), if_neg longer, Option.bind_none]
  · rfl

theorem intercalate_length (arg : Str) {args : List Str} (more : args ≠ []) :
    ([' '].intercalate (arg :: args)).length = arg.length + 1 + ([' '].intercalate args).length := by
  rw [List.intercalate_cons_of_ne_nil more, List.length_append, List.length_append, List.length_singleton]

theorem join_args {args : List Str} (some_ : args ≠ []) (workstr : Str) (left : Nat)
    (room : workstr.length + left = 1023) : joinArgs args workstr left =
      if ([' '].intercalate args).length ≤ left then
        some ((workstr ++ args.flatMap (· ++ [' '])).take 1023)
      else none := by
  induction args generalizing workstr left with
  | nil => exact absurd rfl some_
  | cons arg args ih =>
    rw [join_args_cons, strncat_fits (by rw [sizeofWorkstr]; omega), Option.bind_some]
    by_cases short : arg.length < left
    · have count : (left : Int) - arg.length = (left - arg.length : Nat) := by omega
      have space : [' '].take (left - arg.length) = [' '] :=
        List.take_of_length_le (by rw [List.length_singleton]; omega)
      rw [List.take_of_length_le (by omega), count,
        strncat_fits (by rw [List.length_append, sizeofWorkstr]; omega), Option.bind_some, space]
      have next : ((left - arg.length : Nat) : Int) - 1 = (left - arg.length - 1 : Nat) := by omega
      rw [next]
      by_cases last : args = []
      · subst last
        have whole : (workstr ++ [arg].flatMap (· ++ [' '])).length ≤ 1023 := by
          simp
          omega
        rw [joinArgs, List.intercalate_singleton, if_pos (by omega), List.take_of_length_le whole]
        simp
      · rw [ih last _ _ (by simp; omega), intercalate_length arg last]
        have same : ([' '].intercalate args).length ≤ left - arg.length - 1 ↔
            arg.length + 1 + ([' '].intercalate args).length ≤ left := by omega
        simp only [same, List.flatMap_cons, List.append_assoc]
    · have full : (workstr ++ arg.take left).length = 1023 := by
        rw [List.length_append, List.length_take]
        omega
      by_cases exact_ : arg.length = left
      · have none_left : (left : Int) - arg.length = (0 : Nat) := by omega
        rw [none_left, strncat_fits (by rw [full, sizeofWorkstr]; decide), Option.bind_some,
          List.take_zero, List.append_nil]
        by_cases last : args = []
        · subst last
          rw [joinArgs, List.intercalate_singleton, if_pos (by omega)]
          have cut : (workstr ++ [arg].flatMap (· ++ [' '])).take 1023 = workstr ++ arg := by
            rw [List.flatMap_singleton, ← List.append_assoc]
            exact List.take_left' (by rw [List.length_append]; omega)
          rw [cut, List.take_of_length_le (by omega)]
        · have past : ¬ ([' '].intercalate (arg :: args)).length ≤ left := by
            rw [intercalate_length arg last]
            omega
          rw [if_neg past]
          exact join_args_full full last
      · have past : ¬ ([' '].intercalate (arg :: args)).length ≤ left := by
          by_cases last : args = []
          · rw [last, List.intercalate_singleton]
            omega
          · rw [intercalate_length arg last]
            omega
        have spills : ¬ (workstr ++ arg.take left ++ [' ']).length < sizeofWorkstr := by
          rw [List.length_append, full, sizeofWorkstr, List.length_singleton]
          omega
        rw [if_neg past, strncat_unbounded (by omega), if_neg spills, Option.bind_none]

def HasPcntF (s : Str) : Prop := ['%', 'f'] <:+: s

theorem pcnt_f_none_iff (s : Str) : pcntF s = none ↔ ¬ HasPcntF s := by
  induction s using pcntF.induct with
  | case1 cs => simp [pcntF, HasPcntF, List.infix_cons_iff]
  | case2 c cs other ih =>
    have here : ¬ ['%', 'f'] <+: c :: cs := by
      rintro ⟨after, whole⟩
      obtain ⟨rfl, rfl⟩ := List.cons.inj whole
      exact other after rfl rfl
    rw [pcntF, Option.map_eq_none_iff, ih, HasPcntF, HasPcntF, List.infix_cons_iff]
    · exact ⟨fun later => fun h => h.elim here later, fun none later => none (.inr later)⟩
    · exact other
  | case3 => simp [pcntF, HasPcntF]

/-- `marked` is the line with an `s` for the `f` of its first `%f`, if it has one. -/
def Marked (line marked : Str) : Prop :=
  (∃ before after, line = before ++ '%' :: 'f' :: after ∧ ¬ HasPcntF (before ++ ['%']) ∧
    marked = before ++ '%' :: 's' :: after) ∨ ¬ HasPcntF line ∧ marked = line

theorem pcnt_f_some {s : Str} {i : Nat} (found : pcntF s = some i) :
    ∃ before after, s = before ++ '%' :: 'f' :: after ∧ before.length = i ∧ pcntF (before ++ ['%']) = none := by
  induction s using pcntF.induct generalizing i with
  | case1 cs =>
    obtain rfl : 0 = i := by simpa [pcntF] using found
    exact ⟨[], cs, rfl, rfl, rfl⟩
  | case2 c cs other ih =>
    rw [pcntF] at found
    · obtain ⟨j, later, rfl⟩ := Option.map_eq_some_iff.mp found
      obtain ⟨before, after, rfl, rfl, none⟩ := ih later
      refine ⟨c :: before, after, rfl, rfl, ?_⟩
      rw [List.cons_append, pcntF, none]
      · rfl
      · rintro _ rfl rest
        cases before with
        | nil => cases rest
        | cons d before =>
          obtain ⟨rfl, -⟩ := List.cons.inj rest
          exact other _ rfl rfl
    · exact other
  | case3 => cases found

theorem mark_marked (line : Str) : Marked line (mark line) := by
  rw [mark]
  cases found : pcntF line with
  | none => exact .inr ⟨(pcnt_f_none_iff line).mp found, rfl⟩
  | some i =>
    obtain ⟨before, after, rfl, rfl, none⟩ := pcnt_f_some found
    refine .inl ⟨before, after, rfl, (pcnt_f_none_iff _).mp none, ?_⟩
    simp

/-- The name is what comes before the first blank of the line as marked, the command what comes
    after it. -/
structure EntryFor (line : Str) (e : CollEntry) : Prop where
  parts : ∃ blank, isBlank blank = true ∧ Marked line (e.name ++ blank :: e.cmdline)
  name : ∀ c ∈ e.name, isBlank c = false
  pcntF : e.pcntF = true ↔ HasPcntF line

theorem entry_of_line {line : Str} (blank : hasBlank line = true) : EntryFor line (entryOf line) := by
  rw [← mark_blank, hasBlank, List.any_eq_true] at blank
  obtain ⟨c, member, isblank⟩ := blank
  have rest : (mark line).dropWhile (!isBlank ·) ≠ [] := by
    intro none
    have all := List.dropWhile_eq_nil_iff.mp none c member
    rw [isblank] at all
    cases all
  obtain ⟨b, cmdline, split⟩ := List.exists_cons_of_ne_nil rest
  have first := List.head_dropWhile_not (!isBlank ·) rest
  refine ⟨⟨b, ?_, ?_⟩, ?_, ?_⟩
  · simpa [split] using first
  · have whole := List.takeWhile_append_dropWhile (p := (!isBlank ·)) (l := mark line)
    rw [split] at whole
    simp only [entryOf, split, List.tail_cons, whole]
    exact mark_marked line
  · intro c inside
    have kept := List.all_eq_true.mp List.all_takeWhile c inside
    simpa using kept
  · rw [entryOf, Option.isSome_iff_ne_none, ne_eq, pcnt_f_none_iff, not_not]

def entries (file : Str) (args : List Str) : List CollEntry :=
  (entryLines file).map entryOf ++ if args = [] then [] else [cmdlnEntry (joined args)]

theorem collection_exact (file : Str) (args : List Str) :
    (getCollection file args =
      if (∀ line ∈ entryLines file, hasBlank line = true) ∧ (args ≠ [] → ArgsFit args) then
        some { cnt := (entries file args).length, ary := entries file args }
      else none) ∧
    ∀ line, hasBlank line = true → EntryFor line (entryOf line) := by
  refine ⟨?_, fun line => entry_of_line⟩
  rw [getCollection, parse_loop_lines]
  by_cases blanks : ∀ line ∈ entryLines file, hasBlank line = true
  · rw [if_pos blanks]
    by_cases more : args = []
    · rw [if_pos ⟨blanks, fun some_ => absurd more some_⟩]
      simp [entries, fillArray, more]
    · have text : joinArgs args [] 1023 = if ArgsFit args then some (joined args) else none :=
        join_args more [] 1023 rfl
      by_cases fits : ArgsFit args
      · rw [if_pos fits] at text
        rw [if_pos ⟨blanks, fun _ => fits⟩]
        simp [entries, fillArray, more, text]
      · rw [if_neg fits] at text
        rw [if_neg fun both => fits (both.2 more)]
        simp [more, text]
  · rw [if_neg blanks, if_neg fun both => blanks both.1]
    rfl

theorem pcnt_f_stored_as_s :
    ¬ ∀ file : Str, ∃ coll, getCollection file [] = some coll ∧ coll.ary.map (·.cmdline) =
      (entryLines file).map fun line => (line.dropWhile (!isBlank ·)).tail := by
  intro always
  obtain ⟨coll, parsed, stored⟩ := always "t %f".toList
  have lines : entryLines "t %f".toList = ["t %f".toList] := by decide
  rw [getCollection, parse_loop_lines, lines, if_pos (by decide)] at parsed
  obtain rfl := Option.some.inj parsed
  rw [lines] at stored
  exact absurd stored (by decide)

end VteCollection
