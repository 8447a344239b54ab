import Vte.Base.Runs
import Vte.Lib.TstRes

/-!
Condensing in NOPASS mode, for results without attached files and errno flags. The pass over
the results that `tst_condense` makes with its one held result prints the head of each maximal
run of equal results, if it is a FAIL or BROK; warnings go out at once.
-/
namespace VteTstRes
open Text Runs

/-- A call of `tst_res` with no file, and `errno` and `TEST_ERRNO` as they stand at the call. -/
structure ResCall where
  ttype : CInt
  mesg : Str
  errno : CInt
  testErrno : CInt

def callRes (env : Env) (fuel : Nat) (s : State) (c : ResCall) : Outcome :=
  tstRes env fuel c.ttype none c.mesg { s with errno := c.errno, testErrno := c.testErrno }

def runRes (env : Env) (fuel : Nat) (calls : List ResCall) (s : State) : Outcome :=
  calls.foldlM (callRes env fuel) s

structure Numbered where
  num : Nat
  type : CInt
  mesg : Str
  deriving DecidableEq

def isFailOrBrok (type : CInt) : Bool := type = tFail ∨ type = tBrok

def Numbered.isCounted (r : Numbered) : Bool := VteTstRes.isCounted r.type

def Numbered.isFailOrBrok (r : Numbered) : Bool := VteTstRes.isFailOrBrok r.type

/-- The result of a call made after `n` counted ones; those that do not count have number 0. -/
def number (n : Nat) (c : ResCall) : Numbered :=
  ⟨if isCounted (ttypeResult c.ttype) then n + 1 else 0, ttypeResult c.ttype, expandVarArgs c.mesg⟩

def countAfter (n : Nat) (c : ResCall) : Nat := if isCounted (ttypeResult c.ttype) then n + 1 else n

def numbered : Nat → List ResCall → List Numbered
  | _, [] => []
  | n, c :: calls => number n c :: numbered (countAfter n c) calls

def sameResult (r : Numbered) : CInt × Str := (r.type, r.mesg)

def condensed (rs : List Numbered) : List Numbered :=
  (heads sameResult (rs.filter Numbered.isCounted)).filter Numbered.isFailOrBrok

def listLine (mode : Mode) (tcid : Str) (r : Numbered) : Str :=
  resultLine mode tcid r.num r.type r.mesg

def render (mode : Mode) (tcid : Str) (rs : List Numbered) : Str :=
  rs.flatMap (fun r => listLine mode tcid r ++ ['\n'])

structure Listing (rs : List Numbered) (chunks : List (List Numbered)) (last : List Numbered) :
    Prop where
  each : chunks.length = rs.length
  warned : ∀ (i : Nat) (r : Numbered), rs[i]? = some r → r.type = tWarn → chunks[i]? = some [r]
  others : ∀ (i : Nat) (r : Numbered) (chunk : List Numbered), rs[i]? = some r → r.type ≠ tWarn →
    chunks[i]? = some chunk → ∀ p ∈ chunk, p.isFailOrBrok = true
  exit : ∀ p ∈ last, p.isFailOrBrok = true
  runs : (chunks.flatten ++ last).filter Numbered.isFailOrBrok = condensed rs

/-- The test runs to its `tst_exit` and prints the condensed listing as the calls are made. -/
def Condenses (env : Env) (fuel : Nat) (tcid : Str) (calls : List ResCall) : Prop :=
  ∃ chunks last, Listing (numbered 0 calls) chunks last ∧
    (∀ k, ∃ s, runRes env fuel (calls.take k) (init tcid) = .ok s ∧
      s.tOut.getD [] = render .nopass tcid (chunks.take k).flatten) ∧
    ∃ status s, (runRes env fuel calls (init tcid)).bind (tstExit env fuel) =
      .error (.exit status s) ∧ s.tOut.getD [] = render .nopass tcid (chunks.flatten ++ last)

def Lists (env : Env) (fuel : Nat) (tcid : Str) (calls : List ResCall) : Prop :=
  ∃ status s, (runRes env fuel calls (init tcid)).bind (tstExit env fuel) =
    .error (.exit status s) ∧ s.tOut.getD [] = render .verbose tcid (numbered 0 calls)

def Flagless (c : ResCall) : Prop := c.ttype &&& tErrno = 0 ∧ c.ttype &&& tTErrno = 0

def LineFits (mode : Mode) (tcid : Str) (r : Numbered) : Prop :=
  (listLine mode tcid r).length + 1 < userMesg

def listed (rs : List Numbered) : List Numbered :=
  condensed rs ++ rs.filter (fun r => r.type = tWarn)

section print
variable (env : Env) {s : State} {out : Str} {ttype : CInt}

theorem print_filtered (fuel : Nat) (tcid : Str) (tnum : Int) (tmesg : Str)
    (mode : s.mode = .nopass) (filtered : isPrinted .nopass ttype = false) :
    tstPrint env (fuel + 1) tcid tnum ttype tmesg s = .ok { s with exitval := s.exitval ||| ttypeResult ttype } := by
  simp [tstPrint, mode, filtered]

theorem print_line (fuel : Nat) (tcid : Str) (r : Numbered) {mode : Mode} (inMode : s.mode = mode)
    (noFile : s.file = none) (opened : s.tOut = some out)
    (same : ttypeResult ttype = r.type) (printed : isPrinted mode ttype = true)
    (flagless : ttype &&& tErrno = 0 ∧ ttype &&& tTErrno = 0) (fits : LineFits mode tcid r) :
    tstPrint env (fuel + 1) tcid r.num ttype r.mesg s = .ok { s with
        exitval := s.exitval ||| ttypeResult ttype
        tOut := some (out ++ (listLine mode tcid r ++ ['\n'])) } := by
  have line : resultLine mode tcid r.num ttype r.mesg = listLine mode tcid r := by
    rw [listLine, ← same]
    simp only [resultLine, strttype_result]
  have short : ¬ userMesg ≤ (listLine mode tcid r).length + 1 := Nat.not_le.mpr fits
  simp only [tstPrint, inMode, printed, if_true, line, no_errno_suffix env _ _ flagless,
    List.append_nil, if_neg short, fputs, opened, noFile]
  rfl

end print

def lastChunk (pending : Option Numbered) : List Numbered :=
  pending.toList.filter Numbered.isFailOrBrok

/-- What one call prints, `pending` being the head of the current run. -/
def chunk (pending : Option Numbered) (r : Numbered) : List Numbered :=
  if r.type = tWarn then [r]
  else if r.isCounted ∧ pending.map sameResult ≠ some (sameResult r) then lastChunk pending
  else []

def held (pending : Option Numbered) (r : Numbered) : Option Numbered :=
  if r.isCounted ∧ pending.map sameResult ≠ some (sameResult r) then some r else pending

def chunks (pending : Option Numbered) : List Numbered → List (List Numbered)
  | [] => []
  | r :: rs => chunk pending r :: chunks (held pending r) rs

/-- What a result does to the pass: a warning goes out, an information is dropped, a counted
    result continues the current run or ends it. -/
theorem chunk_cases (pending : Option Numbered) (r : Numbered) :
    (r.type = tWarn ∧ r.isCounted = false ∧ chunk pending r = [r] ∧ held pending r = pending) ∨
    (r.type = tInfo ∧ r.isCounted = false ∧ chunk pending r = [] ∧ held pending r = pending) ∨
    (r.isCounted = true ∧ pending.map sameResult = some (sameResult r) ∧
      chunk pending r = [] ∧ held pending r = pending) ∨
    (r.isCounted = true ∧ pending.map sameResult ≠ some (sameResult r) ∧
      chunk pending r = lastChunk pending ∧ held pending r = some r) := by
  by_cases warned : r.type = tWarn
  · exact Or.inl (by simp [chunk, held, Numbered.isCounted, isCounted, warned])
  · by_cases info : r.type = tInfo
    · exact Or.inr (Or.inl (by
        simp [chunk, held, Numbered.isCounted, isCounted, info, tInfo, tWarn]))
    · have counted : r.isCounted = true := by
        simp [Numbered.isCounted, isCounted, warned, info]
      by_cases same : pending.map sameResult = some (sameResult r)
      · exact Or.inr (Or.inr (Or.inl (by simp [chunk, held, counted, warned, same])))
      · exact Or.inr (Or.inr (Or.inr (by simp [chunk, held, counted, warned, same])))

theorem chunks_each (pending : Option Numbered) (rs : List Numbered) :
    (chunks pending rs).length = rs.length := by
  induction rs generalizing pending with
  | nil => rfl
  | cons r rs ih => simp [chunks, ih]

theorem chunks_take (pending : Option Numbered) (rs : List Numbered) (k : Nat) :
    chunks pending (rs.take k) = (chunks pending rs).take k := by
  induction rs generalizing pending k with
  | nil => simp [chunks]
  | cons r rs ih =>
    cases k with
    | zero => rfl
    | succ k => simp [chunks, ih]

theorem last_fail_or_brok {pending : Option Numbered} :
    ∀ p ∈ lastChunk pending, p.isFailOrBrok = true :=
  fun _ mem => (List.mem_filter.mp mem).2

theorem chunk_fail_or_brok {pending : Option Numbered} {r : Numbered} (other : r.type ≠ tWarn) :
    ∀ p ∈ chunk pending r, p.isFailOrBrok = true := by
  rcases chunk_cases pending r with ⟨warned, _⟩ | ⟨_, _, none, _⟩ | ⟨_, _, none, _⟩ | ⟨_, _, new, _⟩
  · exact absurd warned other
  · simp [none]
  · simp [none]
  · rw [new]
    exact last_fail_or_brok

theorem chunks_at (pending : Option Numbered) (rs : List Numbered) (i : Nat) (r : Numbered)
    (at_i : rs[i]? = some r) : ∃ p, (chunks pending rs)[i]? = some (chunk p r) := by
  induction rs generalizing pending i with
  | nil => cases at_i
  | cons r' rs ih =>
    cases i with
    | zero =>
      obtain rfl : r' = r := Option.some.inj at_i
      exact ⟨pending, rfl⟩
    | succ i => exact ih (held pending r') i at_i

/-- The heads of the runs of `l`, or those that follow the held result. -/
def runsAfter (pending : Option Numbered) (l : List Numbered) : List Numbered :=
  match pending with
  | none => heads sameResult l
  | some p => following sameResult p l

theorem runs_same {pending : Option Numbered} {r : Numbered}
    (same : pending.map sameResult = some (sameResult r)) (l : List Numbered) :
    runsAfter pending (r :: l) = runsAfter pending l := by
  cases pending with
  | none => cases same
  | some p => exact following_same sameResult (Option.some.inj same) l

theorem runs_new {pending : Option Numbered} {r : Numbered}
    (new : pending.map sameResult ≠ some (sameResult r)) (l : List Numbered) :
    runsAfter pending (r :: l) = pending.toList ++ runsAfter (some r) l := by
  cases pending with
  | none => exact heads_cons sameResult r l
  | some p => exact following_new sameResult (fun equal => new (congrArg some equal)) l

theorem chunks_runs (rs : List Numbered) : ∀ pending : Option Numbered,
    ((chunks pending rs).flatten ++ lastChunk (rs.foldl held pending)).filter
        Numbered.isFailOrBrok =
      (runsAfter pending (rs.filter Numbered.isCounted)).filter Numbered.isFailOrBrok := by
  induction rs with
  | nil =>
    intro pending
    cases pending with
    | none => rfl
    | some p => simp [chunks, lastChunk, runsAfter, following_nil, List.filter_filter]
  | cons r rs ih =>
    intro pending
    have rest := ih (held pending r)
    rw [chunks, List.flatten_cons, List.append_assoc, List.filter_append, List.foldl_cons, rest]
    rcases chunk_cases pending r with ⟨warned, counts, out, hold⟩ | ⟨_, counts, out, hold⟩ |
      ⟨counts, same, out, hold⟩ | ⟨counts, new, out, hold⟩
    · have silent : r.isFailOrBrok = false := by
        rw [Numbered.isFailOrBrok, warned]
        decide
      have drop : ¬ r.isCounted = true := by simp [counts]
      have hide : ¬ r.isFailOrBrok = true := by simp [silent]
      rw [out, hold, List.filter_cons_of_neg drop, List.filter_cons_of_neg hide]
      rfl
    · have drop : ¬ r.isCounted = true := by simp [counts]
      rw [out, hold, List.filter_cons_of_neg drop]
      rfl
    · rw [out, hold, List.filter_cons_of_pos counts, runs_same same]
      rfl
    · rw [out, hold, List.filter_cons_of_pos counts, runs_new new, List.filter_append, lastChunk, List.filter_filter]
      simp only [Bool.and_self]

theorem listing_chunks (rs : List Numbered) :
    Listing rs (chunks none rs) (lastChunk (rs.foldl held none)) := by
  constructor
  case each => exact chunks_each none rs
  case warned =>
    intro i r at_i warned
    obtain ⟨p, chunk_i⟩ := chunks_at none rs i r at_i
    rw [chunk_i, chunk, if_pos warned]
  case others =>
    intro i r c at_i other chunk_i
    obtain ⟨p, chunk_i'⟩ := chunks_at none rs i r at_i
    obtain rfl : c = chunk p r := Option.some.inj (chunk_i.symm.trans chunk_i')
    exact chunk_fail_or_brok other
  case exit => exact last_fail_or_brok
  case runs => exact chunks_runs rs none

def heldAs (tcid : Str) (r : Numbered) : Last := ⟨tcid, r.num, r.type, r.mesg⟩

/-- The state inside a call, after `n` counted results and the output `out`. -/
structure Running (mode : Mode) (tcid : Str) (n : Nat) (out : Str) (s : State) : Prop where
  opened : s.tOut = some out
  mode : s.mode = mode
  checked : s.firstTime = false
  file : s.file = none
  count : s.tstCount = n
  named : s.tcid = tcid

structure Condensing (tcid : Str) (n : Nat) (pending : Option Numbered) (out : Str) (s : State) :
    Prop extends Running .nopass tcid n out s where
  buffered : s.buffered = pending.map (heldAs tcid)
  held : ∀ p ∈ pending, ttypeResult p.type = p.type ∧ p.isCounted = true

structure Listed (tcid : Str) (n : Nat) (out : Str) (s : State) : Prop extends
    Running .verbose tcid n out s where
  buffered : s.buffered = none

/-- What every call does first: open `T_out` and read the mode. -/
def entered (env : Env) (s : State) : State :=
  { checkEnv env s with tOut := some (s.tOut.getD []) }

def inside (env : Env) (c : ResCall) (s : State) : State :=
  { entered env s with
    errno := c.errno
    testErrno := c.testErrno
    exitval := s.exitval ||| ttypeResult c.ttype
    reported := (entered env s).reported ++ [⟨ttypeResult c.ttype, expandVarArgs c.mesg⟩] }

theorem entered_init {env : Env} {mode : Mode} (read : (checkEnv env (init [])).mode = mode)
    (tcid : Str) : Running mode tcid 0 [] (entered env (init tcid)) :=
  ⟨rfl, read, rfl, rfl, rfl, rfl⟩

section condensing
variable {env : Env} {tcid : Str} {n : Nat} {pending : Option Numbered} {out : Str} {s : State}

theorem entered_again {mode : Mode} (running : Running mode tcid n out s) : entered env s = s := by
  have checked : checkEnv env s = s := by simp [checkEnv, running.checked]
  have opened : some (s.tOut.getD []) = s.tOut := by rw [running.opened]; rfl
  rw [entered, checked, opened]

theorem Condensing.inside (before : Condensing tcid n pending out (entered env s)) (c : ResCall) :
    Condensing tcid n pending out (inside env c s) := by
  obtain ⟨⟨opened, mode, checked, file, count, tcid⟩, buffered, held⟩ := before
  exact ⟨⟨opened, mode, checked, file, count, tcid⟩, buffered, held⟩

theorem Listed.inside (before : Listed tcid n out (entered env s)) (c : ResCall) :
    Listed tcid n out (inside env c s) := by
  obtain ⟨⟨opened, mode, checked, file, count, tcid⟩, buffered⟩ := before
  exact ⟨⟨opened, mode, checked, file, count, tcid⟩, buffered⟩

theorem call_enters (fuel : Nat) (c : ResCall) (some_mesg : c.mesg ≠ []) :
    callRes env fuel s c =
      if isCounted (ttypeResult c.ttype) then
        tstCounted env fuel c.ttype (expandVarArgs c.mesg) (inside env c s)
      else tstPrint env fuel (inside env c s).tcid 0 c.ttype (expandVarArgs c.mesg)
        (inside env c s) := by
  have kept : expandVarArgs c.mesg ≠ [] := by
    simpa [expandVarArgs, userMesg] using some_mesg
  have same : (attach env none (checkEnv env { s with
      errno := c.errno
      testErrno := c.testErrno
      exitval := s.exitval ||| ttypeResult c.ttype
      tOut := some (s.tOut.getD []) })).report (ttypeResult c.ttype) (expandVarArgs c.mesg) =
      inside env c s := by
    unfold inside entered checkEnv
    by_cases first : s.firstTime = true <;> simp [first, attach, State.report]
  simp only [callRes, tstRes, if_neg kept, same]
  by_cases counted : isCounted (ttypeResult c.ttype) = true
  · have other : ¬ (ttypeResult c.ttype = tWarn ∨ ttypeResult c.ttype = tInfo) := by
      simpa [isCounted, not_or] using counted
    rw [if_neg other, if_pos counted]
  · have here : ttypeResult c.ttype = tWarn ∨ ttypeResult c.ttype = tInfo := by
      by_contra other
      exact counted (by simpa [isCounted, not_or] using other)
    rw [if_pos here, if_neg counted]

theorem condense_same {s : State} {last : Last} {ttype : CInt} {tmesg : Str}
    (buffered : s.buffered = some last) (same : last.tcid = s.tcid ∧
      last.type = ttypeResult ttype ∧ last.mesg = tmesg ∧ s.file = none) (fuel : Nat) (tnum : Int) :
    tstCondense env fuel tnum ttype tmesg s = .ok s := by
  unfold tstCondense
  split
  · rename_i none
    cases none.symm.trans buffered
  · rename_i last' held
    obtain rfl : last' = last := Option.some.inj (held.symm.trans buffered)
    rw [if_pos same]

theorem condense_new {s : State} {last : Last} {ttype : CInt} {tmesg : Str}
    (buffered : s.buffered = some last) (differ : ¬ (last.tcid = s.tcid ∧
      last.type = ttypeResult ttype ∧ last.mesg = tmesg ∧ s.file = none)) (fuel : Nat) (tnum : Int) :
    tstCondense env fuel tnum ttype tmesg s =
      (tstPrint env fuel last.tcid last.num last.type last.mesg { s with file := none }).bind
        (fun t => tstHold env fuel tnum ttype tmesg { t with file := s.file }) := by
  unfold tstCondense
  split
  · rename_i none
    cases none.symm.trans buffered
  · rename_i last' held
    obtain rfl : last' = last := Option.some.inj (held.symm.trans buffered)
    rw [if_neg differ]
    rfl

variable (env) in
theorem print_last (running : Condensing tcid n pending out s) {p : Numbered}
    (masked : ttypeResult p.type = p.type) (counted : p.isCounted = true)
    (fits : ∀ q ∈ lastChunk (some p), LineFits .nopass tcid q) (fuel : Nat) :
    ∃ bits, tstPrint env (fuel + 1) tcid p.num p.type p.mesg s =
      .ok { s with exitval := bits, tOut := some (out ++ render .nopass tcid (lastChunk (some p))) } := by
  by_cases shown : p.isFailOrBrok = true
  · have chosen : lastChunk (some p) = [p] := by simp [lastChunk, shown]
    have printed : isPrinted .nopass p.type = true := by
      simp only [Numbered.isFailOrBrok, isFailOrBrok, decide_eq_true_eq] at shown
      simp only [isPrinted, masked, decide_eq_true_eq]
      tauto
    have flagless := no_flags_result p.type
    rw [masked] at flagless
    refine ⟨s.exitval ||| p.type, ?_⟩
    rw [print_line env fuel tcid p running.mode running.file running.opened masked printed flagless
      (fits p (by simp [chosen])), masked, chosen]
    simp [render]
  · have chosen : lastChunk (some p) = [] := by simp [lastChunk, shown]
    have filtered : isPrinted .nopass p.type = false := by
      simp only [Numbered.isFailOrBrok, isFailOrBrok, decide_eq_true_eq] at shown
      simp only [Numbered.isCounted, isCounted, decide_eq_true_eq] at counted
      simp only [isPrinted, masked, decide_eq_false_iff_not]
      tauto
    refine ⟨s.exitval ||| ttypeResult p.type, ?_⟩
    rw [print_filtered env fuel tcid p.num p.mesg running.mode filtered, chosen]
    simp [render, ← running.opened]

variable (env) in
theorem condense_result (running : Condensing tcid n pending out s) (fuel : Nat) (c : ResCall)
    (counted : isCounted (ttypeResult c.ttype) = true)
    (fits : ∀ q ∈ chunk pending (number n c), LineFits .nopass tcid q) :
    ∃ s', tstCondense env (fuel + 1) ((n : Int) + 1) c.ttype (expandVarArgs c.mesg) s = .ok s' ∧
      Condensing tcid n (held pending (number n c))
        (out ++ render .nopass tcid (chunk pending (number n c))) s' := by
  have numEq : ((number n c).num : Int) = (n : Int) + 1 := by simp [number, counted]
  have own : ∀ q ∈ some (number n c), ttypeResult q.type = q.type ∧ q.isCounted = true := by
    intro q mem
    obtain rfl : number n c = q := Option.some.inj mem
    exact ⟨ttype_result_idem c.ttype, counted⟩
  rcases chunk_cases pending (number n c) with ⟨_, none, _⟩ | ⟨_, none, _⟩ |
    ⟨_, same, out_c, hold⟩ | ⟨_, new, out_c, hold⟩
  · exact absurd counted (by simpa [Numbered.isCounted, number] using none)
  · exact absurd counted (by simpa [Numbered.isCounted, number] using none)
  · cases pending with
    | none => cases same
    | some p =>
      have equal : sameResult p = sameResult (number n c) := Option.some.inj same
      obtain ⟨type, mesg⟩ := Prod.mk.inj equal
      refine ⟨s, condense_same running.buffered ⟨running.named.symm, type, mesg, running.file⟩ _ _, ?_⟩
      · rw [out_c, hold]
        simpa [render] using running
  · rw [out_c] at fits
    cases pending with
    | none =>
      refine ⟨{ s with buffered := some (heldAs tcid (number n c)) }, ?_, ?_⟩
      · simp only [tstCondense, running.buffered, Option.map_none, tstHold, running.file, if_true,
          running.named, heldAs, numEq]
        rfl
      · rw [out_c, hold]
        obtain ⟨⟨opened, mode, checked, file, count, tcid⟩, _, _⟩ := running
        exact ⟨⟨by simpa [render, lastChunk] using opened, mode, checked, file, count, tcid⟩, rfl, own⟩
    | some p =>
      have differ : ¬ (tcid = s.tcid ∧ p.type = ttypeResult c.ttype ∧
          p.mesg = expandVarArgs c.mesg ∧ s.file = none) := by
        rintro ⟨_, type, mesg, _⟩
        exact new (congrArg some (Prod.ext type mesg))
      obtain ⟨masked, wasCounted⟩ := running.held p rfl
      have cleared : ({ s with file := none } : State) = s := by rw [← running.file]
      obtain ⟨bits, printed⟩ := print_last env running masked wasCounted fits fuel
      refine ⟨{ s with
        exitval := bits
        tOut := some (out ++ render .nopass tcid (lastChunk (some p)))
        buffered := some (heldAs tcid (number n c)) }, ?_, ?_⟩
      · rw [condense_new running.buffered differ, cleared]
        simp only [heldAs, printed, Except.bind, tstHold, running.file, if_true, running.named, numEq]
        rfl
      · rw [out_c, hold]
        obtain ⟨⟨_, mode, checked, file, count, tcid⟩, _, _⟩ := running
        exact ⟨⟨rfl, mode, checked, file, count, tcid⟩, rfl, own⟩

theorem call_condenses (before : Condensing tcid n pending out (entered env s)) (fuel : Nat)
    (c : ResCall) (some_mesg : c.mesg ≠ []) (flagless : Flagless c)
    (fits : ∀ q ∈ chunk pending (number n c), LineFits .nopass tcid q) :
    ∃ s', callRes env (fuel + 1) s c = .ok s' ∧ Condensing tcid (countAfter n c) (held pending (number n c))
        (out ++ render .nopass tcid (chunk pending (number n c))) s' := by
  have running := before.inside c
  rw [call_enters (fuel + 1) c some_mesg]
  by_cases counted : isCounted (ttypeResult c.ttype) = true
  · obtain ⟨s₂, condensed, after⟩ := condense_result env running fuel c counted fits
    refine ⟨{ s₂ with tstCount := s₂.tstCount + 1 }, ?_, ?_⟩
    · rw [if_pos counted, counted_mode (by rw [running.count]; omega), byMode, running.mode, running.count, condensed]
      rfl
    · obtain ⟨⟨opened, mode, checked, file, count, tcid⟩, buffered, held⟩ := after
      have next : s₂.tstCount + 1 = (countAfter n c : Nat) := by simp [countAfter, counted, count]
      exact ⟨⟨opened, mode, checked, file, next, tcid⟩, buffered, held⟩
  · have uncounted : (number n c).isCounted = false := by
      simpa [Numbered.isCounted, number] using counted
    have zero : (number n c).num = 0 := by simp [number, counted]
    have count : countAfter n c = n := by simp [countAfter, counted]
    rw [if_neg counted, count, running.named]
    rcases chunk_cases pending (number n c) with ⟨warned, _, out_c, hold⟩ |
      ⟨info, _, out_c, hold⟩ | ⟨counts, _⟩ | ⟨counts, _⟩
    · have printed : isPrinted .nopass c.ttype = true := by
        simp only [number] at warned
        simp [isPrinted, warned]
      have line := print_line env fuel tcid (number n c) running.mode running.file
        running.opened rfl printed flagless (fits _ (by simp [out_c]))
      rw [zero] at line
      refine ⟨_, line, ?_⟩
      rw [out_c, hold]
      obtain ⟨⟨_, mode, checked, file, count, tcid⟩, buffered, held⟩ := running
      exact ⟨⟨by simp [render], mode, checked, file, count, tcid⟩, buffered, held⟩
    · have filtered : isPrinted .nopass c.ttype = false := by
        simp only [number] at info
        simp [isPrinted, info, tInfo, tFail, tBrok, tWarn]
      refine ⟨_, print_filtered env fuel tcid 0 _ running.mode filtered, ?_⟩
      rw [out_c, hold]
      obtain ⟨⟨opened, mode, checked, file, count, tcid⟩, buffered, held⟩ := running
      exact ⟨⟨by simpa [render] using opened, mode, checked, file, count, tcid⟩, buffered, held⟩
    · rw [uncounted] at counts
      cases counts
    · rw [uncounted] at counts
      cases counts

theorem render_append (mode : Mode) (tcid : Str) (rs rs' : List Numbered) :
    render mode tcid (rs ++ rs') = render mode tcid rs ++ render mode tcid rs' := by
  simp [render]

theorem render_cons (mode : Mode) (tcid : Str) (r : Numbered) (rs : List Numbered) :
    render mode tcid (r :: rs) = render mode tcid [r] ++ render mode tcid rs := by
  simp [render]

theorem run_condenses (fuel : Nat) (calls : List ResCall) : ∀ {n pending out s},
    Condensing tcid n pending out (entered env s) →
    (∀ c ∈ calls, c.mesg ≠ [] ∧ Flagless c) →
    (∀ q ∈ (chunks pending (numbered n calls)).flatten, LineFits .nopass tcid q) →
    ∃ s', runRes env (fuel + 1) calls s = .ok s' ∧ ((calls = [] ∧ s' = s) ∨
      Condensing tcid (calls.foldl countAfter n) ((numbered n calls).foldl held pending)
        (out ++ render .nopass tcid (chunks pending (numbered n calls)).flatten) s') := by
  induction calls with
  | nil => exact fun _ _ _ => ⟨_, rfl, Or.inl ⟨rfl, rfl⟩⟩
  | cons c calls ih =>
    intro n pending out s before good fits
    obtain ⟨some_mesg, flagless⟩ := good c (by simp)
    simp only [numbered, chunks, List.flatten_cons, List.mem_append] at fits
    obtain ⟨s₁, call, after⟩ := call_condenses before fuel c some_mesg flagless
      (fun q mem => fits q (Or.inl mem))
    obtain ⟨s₂, run, done⟩ := ih (by rwa [entered_again after.toRunning]) (fun c' mem => good c' (by simp [mem]))
      (fun q mem => fits q (Or.inr mem))
    refine ⟨s₂, ?_, Or.inr ?_⟩
    · rw [runRes, List.foldlM_cons, call]
      exact run
    · rw [numbered, chunks, List.flatten_cons, render_append, ← List.append_assoc]
      rcases done with ⟨rfl, rfl⟩ | done
      · simpa [numbered, chunks, render] using after
      · exact done

variable (env) in
theorem exit_condenses (running : Condensing tcid n pending out s) (fuel : Nat)
    (fits : ∀ q ∈ lastChunk pending, LineFits .nopass tcid q) :
    ∃ status s', tstExit env (fuel + 1) s = .error (.exit status s') ∧
      s'.tOut = some (out ++ render .nopass tcid (lastChunk pending)) := by
  have buffered := running.buffered
  cases pending with
  | none =>
    have flushed : tstFlush env (fuel + 1) s = .ok s := by
      unfold tstFlush
      rw [buffered]
      rfl
    exact ⟨_, s, exit_flushed flushed, by simpa [lastChunk, render] using running.opened⟩
  | some p =>
    obtain ⟨masked, counted⟩ := running.held p rfl
    obtain ⟨bits, printed⟩ := print_last env running masked counted fits fuel
    have flushed : tstFlush env (fuel + 1) s = .ok { s with
        exitval := bits
        tOut := some (out ++ render .nopass tcid (lastChunk (some p)))
        buffered := none } := by
      rw [flush_held buffered running.mode]
      simp only [heldAs, printed]
      rfl
    exact ⟨_, _, exit_flushed flushed, rfl⟩

theorem call_lists (before : Listed tcid n out (entered env s)) (fuel : Nat) (c : ResCall)
    (some_mesg : c.mesg ≠ []) (flagless : Flagless c) (fits : LineFits .verbose tcid (number n c)) :
    ∃ s', callRes env (fuel + 1) s c = .ok s' ∧
      Listed tcid (countAfter n c) (out ++ render .verbose tcid [number n c]) s' := by
  have running := before.inside c
  have line := print_line env fuel tcid (number n c) running.mode running.file
    running.opened rfl rfl flagless fits
  rw [call_enters (fuel + 1) c some_mesg]
  obtain ⟨⟨opened, mode, checked, file, count, named⟩, buffered⟩ := running
  by_cases counted : isCounted (ttypeResult c.ttype) = true
  · have numEq : ((number n c).num : Int) = (n : Int) + 1 := by simp [number, counted]
    rw [numEq, ← count] at line
    rw [if_pos counted, counted_mode (by rw [count]; omega), byMode, mode, named]
    have done := congrArg
      (fun o : Outcome => o.bind (fun t => .ok { t with tstCount := t.tstCount + 1 })) line
    refine ⟨_, done, ⟨by simp [render], mode, checked, file, ?_, named⟩, buffered⟩
    simp [countAfter, counted, count]
  · have zero : (number n c).num = 0 := by simp [number, counted]
    have same : countAfter n c = n := by simp [countAfter, counted]
    rw [zero] at line
    rw [if_neg counted, same, named]
    exact ⟨_, line, ⟨by simp [render], mode, checked, file, count, named⟩, buffered⟩

theorem run_lists (fuel : Nat) (calls : List ResCall) : ∀ {n out s},
    Listed tcid n out (entered env s) → (∀ c ∈ calls, c.mesg ≠ [] ∧ Flagless c) →
    (∀ r ∈ numbered n calls, LineFits .verbose tcid r) →
    ∃ s', runRes env (fuel + 1) calls s = .ok s' ∧ Listed tcid (calls.foldl countAfter n)
      (out ++ render .verbose tcid (numbered n calls)) (entered env s') := by
  induction calls with
  | nil =>
    intro n out s before _ _
    exact ⟨s, rfl, by simpa [numbered, render] using before⟩
  | cons c calls ih =>
    intro n out s before good fits
    obtain ⟨some_mesg, flagless⟩ := good c (by simp)
    simp only [numbered, List.mem_cons] at fits
    obtain ⟨s₁, call, after⟩ := call_lists before fuel c some_mesg flagless (fits _ (Or.inl rfl))
    obtain ⟨s₂, run, done⟩ := ih (by rwa [entered_again after.toRunning])
      (fun c' mem => good c' (by simp [mem])) (fun r mem => fits r (Or.inr mem))
    refine ⟨s₂, ?_, ?_⟩
    · rw [runRes, List.foldlM_cons, call]
      exact run
    · rw [numbered, render_cons, ← List.append_assoc]
      exact done

end condensing

theorem numbered_take (n : Nat) (calls : List ResCall) (k : Nat) :
    numbered n (calls.take k) = (numbered n calls).take k := by
  induction calls generalizing n k with
  | nil => simp [numbered]
  | cons c calls ih =>
    cases k with
    | zero => rfl
    | succ k => simp [numbered, ih]

theorem listing_listed {rs : List Numbered} {cs : List (List Numbered)} {last : List Numbered}
    (listing : Listing rs cs last) {p : Numbered} (mem : p ∈ cs.flatten ++ last) :
    p ∈ listed rs := by
  rw [listed, List.mem_append]
  by_cases shown : p.isFailOrBrok = true
  · left
    rw [← listing.runs]
    exact List.mem_filter.mpr ⟨mem, shown⟩
  · right
    rcases List.mem_append.mp mem with mem | mem
    · obtain ⟨c, inside, mem⟩ := List.mem_flatten.mp mem
      obtain ⟨i, within, at_i⟩ := List.mem_iff_getElem.mp inside
      have chunk_i : cs[i]? = some c := List.getElem?_eq_some_iff.mpr ⟨within, at_i⟩
      rw [listing.each] at within
      have result_i : rs[i]? = some rs[i] := List.getElem?_eq_getElem within
      by_cases warned : rs[i].type = tWarn
      · obtain rfl : c = [rs[i]] :=
          Option.some.inj (chunk_i.symm.trans (listing.warned i _ result_i warned))
        rw [List.mem_singleton.mp mem]
        exact List.mem_filter.mpr ⟨List.getElem_mem within, by simpa using warned⟩
      · exact absurd (listing.others i _ c result_i warned chunk_i p mem) shown
    · exact absurd (listing.exit p mem) shown

theorem nopass_condenses (env : Env) (nopass : env.toutput = some toutNopass) (tcid : Str)
    (calls : List ResCall) (good : ∀ c ∈ calls, c.mesg ≠ [] ∧ Flagless c)
    (fits : ∀ r ∈ listed (numbered 0 calls), LineFits .nopass tcid r) (fuel : Nat) :
    Condenses env (fuel + 1) tcid calls := by
  have listing := listing_chunks (numbered 0 calls)
  have allFit : ∀ q ∈ (chunks none (numbered 0 calls)).flatten ++
      lastChunk ((numbered 0 calls).foldl held none), LineFits .nopass tcid q :=
    fun q mem => fits q (listing_listed listing mem)
  have start : Condensing tcid 0 none [] (entered env (init tcid)) :=
    ⟨entered_init (by simp [checkEnv, init, nopass]) tcid, rfl, by simp⟩
  refine ⟨_, _, listing, ?_, ?_⟩
  · intro k
    obtain ⟨s, run, done⟩ := run_condenses fuel (calls.take k) start
      (fun c mem => good c (List.mem_of_mem_take mem))
      (fun q mem => allFit q (List.mem_append.mpr (Or.inl (by
        rw [numbered_take, chunks_take] at mem
        obtain ⟨c, inside, mem⟩ := List.mem_flatten.mp mem
        exact List.mem_flatten.mpr ⟨c, List.mem_of_mem_take inside, mem⟩))))
    refine ⟨s, run, ?_⟩
    rw [numbered_take, chunks_take, List.nil_append] at done
    rcases done with ⟨none, rfl⟩ | done
    · have empty : (chunks Option.none (numbered 0 calls)).take k = [] := by
        rw [← chunks_take, ← numbered_take, none]
        rfl
      rw [empty]
      rfl
    · rw [done.opened]
      rfl
  · obtain ⟨s, run, done⟩ := run_condenses fuel calls start good
      (fun q mem => allFit q (List.mem_append.mpr (Or.inl mem)))
    rw [run]
    rcases done with ⟨rfl, rfl⟩ | done
    · exact ⟨_, init tcid, rfl, rfl⟩
    · rw [List.nil_append] at done
      obtain ⟨status, s', exits, out⟩ := exit_condenses env done fuel
        (fun q mem => allFit q (List.mem_append.mpr (Or.inr mem)))
      refine ⟨status, s', exits, ?_⟩
      rw [out, render_append]
      rfl

theorem verbose_lists (env : Env) (verbose : env.toutput = none) (tcid : Str)
    (calls : List ResCall) (good : ∀ c ∈ calls, c.mesg ≠ [] ∧ Flagless c)
    (fits : ∀ r ∈ numbered 0 calls, LineFits .verbose tcid r) (fuel : Nat) :
    Lists env (fuel + 1) tcid calls := by
  have start : Listed tcid 0 [] (entered env (init tcid)) :=
    ⟨entered_init (by simp [checkEnv, init, verbose]) tcid, rfl⟩
  obtain ⟨s, run, done⟩ := run_lists fuel calls start good fits
  have buffered : s.buffered = none := by
    have same : (entered env s).buffered = s.buffered := by
      unfold entered checkEnv
      split <;> rfl
    rw [← same]
    exact done.buffered
  have flushed : tstFlush env (fuel + 1) s = .ok s := by
    unfold tstFlush
    rw [buffered]
  refine ⟨exitStatus s, s, ?_, Option.some.inj done.opened⟩
  rw [run]
  exact exit_flushed flushed

/-- Where the lines fit the buffer, the NOPASS listing condenses the VERBOSE listing. -/
theorem nopass_refines_verbose (env : Env) (nopass : env.toutput = some toutNopass) (tcid : Str)
    (calls : List ResCall) (good : ∀ c ∈ calls, c.mesg ≠ [] ∧ Flagless c)
    (fits : ∀ r ∈ listed (numbered 0 calls), LineFits .nopass tcid r) (fuel : Nat) :
    Condenses env (fuel + 1) tcid calls ∧ ((∀ r ∈ numbered 0 calls, LineFits .verbose tcid r) →
        Lists { env with toutput := none } (fuel + 1) tcid calls) :=
  ⟨nopass_condenses env nopass tcid calls good fits fuel,
    fun verboseFits => verbose_lists _ rfl tcid calls good verboseFits fuel⟩

def nopassEnv : Env := ⟨some toutNopass, fun _ => .missing 2, fun _ => []⟩

def failWarnPass : List ResCall :=
  [⟨tFail, ['a'], 0, 0⟩, ⟨tWarn, ['w'], 0, 0⟩, ⟨tFail, ['a'], 0, 0⟩, ⟨tPass, ['b'], 0, 0⟩]

theorem fail_warn_pass_condenses : Condenses nopassEnv 1 ['t'] failWarnPass ∧
    Lists { nopassEnv with toutput := none } 1 ['t'] failWarnPass := by
  obtain ⟨nopass, verbose⟩ := nopass_refines_verbose nopassEnv rfl ['t'] failWarnPass
    (by unfold Flagless; decide) (by unfold LineFits; decide) 0
  exact ⟨nopass, verbose (by unfold LineFits; decide)⟩

theorem print_overlong (env : Env) {tcid : Str} {s : State} {p : Numbered} (mode : s.mode = .nopass)
    (masked : ttypeResult p.type = p.type) (printed : isPrinted .nopass p.type = true)
    (overlong : ¬ LineFits .nopass tcid p) (fuel : Nat) :
    tstPrint env (fuel + 1) tcid p.num p.type p.mesg s =
      .error (.abort { s with exitval := s.exitval ||| ttypeResult p.type }) := by
  have flagless := no_flags_result p.type
  rw [masked] at flagless
  have long : userMesg ≤ (listLine .nopass tcid p).length + 1 := Nat.not_lt.mp overlong
  have line : resultLine .nopass tcid p.num p.type p.mesg = listLine .nopass tcid p := rfl
  simp [tstPrint, mode, printed, no_errno_suffix env _ _ flagless, line, long]

theorem exit_overlong (env : Env) {tcid : Str} {n : Nat} {p : Numbered} {out : Str} {s : State}
    (running : Condensing tcid n (some p) out s) (printed : isPrinted .nopass p.type = true)
    (overlong : ¬ LineFits .nopass tcid p) (fuel : Nat) :
    tstExit env (fuel + 1) s = .error (.abort { s with exitval := s.exitval ||| ttypeResult p.type }) := by
  obtain ⟨masked, _⟩ := running.held p rfl
  have stops := print_overlong env running.mode masked printed overlong fuel
  rw [tstExit, flush_held running.buffered running.mode]
  simp only [heldAs, stops]
  rfl

def overlongFail : ResCall := ⟨tFail, List.replicate 2047 'x', 0, 0⟩

theorem overlong_not_fits : ¬ LineFits .nopass ['t'] (number 0 overlongFail) := by
  have mesg : (number 0 overlongFail).mesg.length = 2047 := by
    simp only [number, overlongFail, expandVarArgs, userMesg, List.length_take, List.length_replicate]
    rfl
  simp only [LineFits, listLine, resultLine, List.length_append, mesg, userMesg]
  omega

theorem overlong_not_condensed (fuel : Nat) :
    ¬ Condenses nopassEnv (fuel + 1) ['t'] [overlongFail] := by
  rintro ⟨_, _, _, _, status, s', exits, _⟩
  have start : Condensing ['t'] 0 none [] (entered nopassEnv (init ['t'])) :=
    ⟨entered_init (by simp [checkEnv, init, nopassEnv]) ['t'], rfl, by simp⟩
  have silent : chunk none (number 0 overlongFail) = [] := rfl
  have holds : held none (number 0 overlongFail) = some (number 0 overlongFail) := rfl
  obtain ⟨s, call, running⟩ := call_condenses start fuel overlongFail
    (by intro empty; cases empty) ⟨rfl, rfl⟩ (by simp [silent])
  rw [holds] at running
  have aborts := exit_overlong nopassEnv running rfl overlong_not_fits fuel
  rw [runRes, List.foldlM_cons, call] at exits
  cases exits.symm.trans aborts

theorem empty_not_condensed (fuel : Nat) :
    ¬ Condenses nopassEnv (fuel + 1) ['t'] [⟨tPass, [], 0, 0⟩] := by
  rintro ⟨_, _, _, _, status, s', exits, _⟩
  cases exits

/-- Both conditions are needed: an overlong line and an empty message abort the test. -/
theorem condensing_needs_lines_and_messages :
    (¬ ∀ env : Env, env.toutput = some toutNopass → ∀ tcid calls,
      (∀ c ∈ calls, c.mesg ≠ [] ∧ Flagless c) → ∃ fuel, Condenses env (fuel + 1) tcid calls) ∧
    ¬ ∀ env : Env, env.toutput = some toutNopass → ∀ tcid calls, (∀ c ∈ calls, Flagless c) →
      (∀ r ∈ listed (numbered 0 calls), LineFits .nopass tcid r) →
      ∃ fuel, Condenses env (fuel + 1) tcid calls := by
  constructor
  · intro claim
    obtain ⟨fuel, condenses⟩ := claim nopassEnv rfl ['t'] [overlongFail] (by
      intro c mem
      rw [List.mem_singleton.mp mem]
      refine ⟨?_, rfl, rfl⟩
      intro empty
      cases empty)
    exact overlong_not_condensed fuel condenses
  · intro claim
    obtain ⟨fuel, condenses⟩ := claim nopassEnv rfl ['t'] [⟨tPass, [], 0, 0⟩]
      (by unfold Flagless; decide) (by unfold LineFits; decide)
    exact empty_not_condensed fuel condenses

end VteTstRes
