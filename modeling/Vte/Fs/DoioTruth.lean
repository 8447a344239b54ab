import Vte.Fs.DoioWrite

/-!
What an entry marked done says about the write it describes. The requests of a run share the log
but no step; each is truthful, wherever it is cut off, or is not, by itself.
-/
namespace VteDoio
open Bytes VteWriteLog

structure Complete (e : Setup) (steps : List Step) (wrec : WlogRec) : Prop where
  wrote : .wrote wrec.wNbytes ∈ steps
  verified : e.vOpt = true → ∃ length, .verified length ∈ steps ∧ wrec.wNbytes.toInt ≤ length.toInt

def Told (e : Setup) (steps : List Step) (wrec : WlogRec) : Prop :=
  wrec.wDone = 1 → Complete e steps wrec

/-- Each request that made an entry has its own in the log, and what the entry says is so. -/
structure Truthful (e : Setup) (handled : List (List Step)) : Prop where
  intact : ∀ steps ∈ handled, .stray ∉ steps
  told : List.Forall₂ (Told e) (handled.filter logged) (historyOf (logCalls 0 handled))

structure Begins (e : Setup) (r : Served) : Prop where
  logs : e.wOpt = true
  kind : r.req.rType = write ∨ r.req.rType = writea ∨
    (r.req.rType = writev ∨ r.req.rType = mmapw) ∧ r.req.rNent.toInt < maxAio
  opened : r.outcomes.opened = true
  memory : 0 ≤ r.outcomes.memory.toInt
  locked : e.kOpt = true → r.outcomes.locked = true

structure Passes (e : Setup) (r : Served) : Prop where
  placed : r.req.rType = write → r.outcomes.placed = true
  same : (r.req.rType = write ∨ r.req.rType = writea) → e.vOpt = true →
    checkFile r.req.rNbytes r.outcomes.readBack = true
  sameRw : (r.req.rType = writev ∨ r.req.rType = mmapw) → e.vOpt = true →
    r.outcomes.returned ≠ -1 → r.outcomes.returned = r.req.rNbytes →
      checkFile (verifyLength r.req) r.outcomes.readBack = true

/-- The write was made and returned all of its bytes; `do_rw` reads back at least as many. -/
structure Written (e : Setup) (r : Served) : Prop where
  made : r.req.rType ≠ writea
  all : r.outcomes.returned ≠ -1 ∧ r.outcomes.returned = r.req.rNbytes
  covered : r.req.rType ≠ write → e.vOpt = true → r.req.rNbytes.toInt ≤ (verifyLength r.req).toInt

structure Meets (e : Setup) (r : Served) : Prop where
  untorn : Begins e r → r.outcomes.appended ≠ .torn
  written : Begins e r → Passes e r → r.outcomes.appended = .whole → r.outcomes.marked = true → Written e r

def Step.between : Step → Prop
  | .failed => True
  | .wrote _ => True
  | .verified _ => True
  | _ => False

theorem calls_append (n : Nat) (xs ys : List Step) :
    callsOf n (xs ++ ys) = callsOf n xs ++ callsOf n ys := by
  induction xs with
  | nil => rfl
  | cons step xs ih => cases step <;> simp [callsOf, ih]

theorem calls_between (n : Nat) {steps : List Step} (between : ∀ s ∈ steps, s.between) :
    callsOf n steps = [] := by
  induction steps with
  | nil => rfl
  | cons step steps ih =>
    have rest := ih fun s member => between s (List.mem_cons_of_mem step member)
    have here := between step List.mem_cons_self
    cases step <;> simp_all [callsOf, Step.between]

inductive Shaped : List Step → Prop where
  | unlogged {steps : List Step} (plain : ∀ s ∈ steps, s.between ∨ s = .stray) : Shaped steps
  | begun {wrec : WlogRec} {wbuf : WriteBuf} {steps : List Step}
      (between : ∀ s ∈ steps, s.between) : Shaped (.append wrec wbuf :: steps)
  | marked {wrec done : WlogRec} {wbuf wbuf' : WriteBuf} {steps : List Step}
      (between : ∀ s ∈ steps, s.between) :
      Shaped (.append wrec wbuf :: (steps ++ [.overlay done wbuf']))

theorem shaped_take {steps : List Step} (shaped : Shaped steps) (cut : Nat) :
    Shaped (steps.take cut) := by
  cases cut with
  | zero => exact .unlogged (by simp)
  | succ cut =>
    cases shaped with
    | unlogged plain => exact .unlogged fun s member => plain s (List.mem_of_mem_take member)
    | begun between => exact .begun fun s member => between s (List.mem_of_mem_take member)
    | @marked wrec done wbuf wbuf' mid between =>
      by_cases short : cut ≤ mid.length
      · rw [List.take_succ_cons, List.take_append_of_le_length short]
        exact .begun fun s member => between s (List.mem_of_mem_take member)
      · rw [List.take_of_length_le (by simp; omega)]
        exact .marked between

theorem shaped_history {steps : List Step} (shaped : Shaped steps) (calls : List Call) :
    historyOf (calls ++ callsOf (historyOf calls).length steps) = historyOf calls ++ historyOf (callsOf 0 steps) ∧
      (historyOf (callsOf 0 steps)).length = if logged steps then 1 else 0 := by
  cases shaped with
  | unlogged plain =>
    have none (n : Nat) : callsOf n steps = [] := by
      induction steps with
      | nil => rfl
      | cons step steps ih =>
        have rest := ih fun s member => plain s (List.mem_cons_of_mem step member)
        have here := plain step List.mem_cons_self
        cases step <;> simp_all [callsOf, Step.between]
    have quiet : logged steps = false := by
      rw [logged, List.any_eq_false]
      intro step member appends
      have here := plain step member
      cases step <;> simp_all [Step.isAppend, Step.between]
    simp [none, quiet, historyOf]
  | begun between =>
    simp [callsOf, calls_between _ between, historyOf, remember, logged, Step.isAppend]
  | marked between =>
    have own (hist : List WlogRec) (wrec done : WlogRec) :
        (hist ++ [wrec]).modify hist.length (overlaid · done) = hist ++ [overlaid wrec done] := by
      have inside : hist.length < (hist ++ [wrec]).length := by simp
      rw [List.modify_eq_take_cons_drop inside]
      simp
    simp [callsOf, calls_append, calls_between _ between, historyOf, remember, logged, Step.isAppend, own]

theorem history_of_requests (handled : List (List Step)) (shaped : ∀ steps ∈ handled, Shaped steps)
    (calls : List Call) :
    historyOf (calls ++ logCalls (historyOf calls).length handled) =
      historyOf calls ++ handled.flatMap fun steps => historyOf (callsOf 0 steps) := by
  induction handled generalizing calls with
  | nil => simp [logCalls]
  | cons steps handled ih =>
    obtain ⟨here, count⟩ := shaped_history (shaped steps List.mem_cons_self) calls
    have later := ih (fun s member => shaped s (List.mem_cons_of_mem steps member))
      (calls ++ callsOf (historyOf calls).length steps)
    have place : (historyOf (calls ++ callsOf (historyOf calls).length steps)).length =
        if logged steps then (historyOf calls).length + 1 else (historyOf calls).length := by
      rw [here, List.length_append, count]
      split <;> rfl
    rw [place, here] at later
    rw [logCalls, ← List.append_assoc, later, List.flatMap_cons, List.append_assoc]

structure Honest (e : Setup) (steps : List Step) : Prop where
  intact : .stray ∉ steps
  told : ∀ wrec ∈ historyOf (callsOf 0 steps), Told e steps wrec

theorem truthful_by_request (e : Setup) (handled : List (List Step))
    (shaped : ∀ steps ∈ handled, Shaped steps) :
    Truthful e handled ↔ ∀ steps ∈ handled, Honest e steps := by
  have history := history_of_requests handled shaped []
  simp only [List.nil_append, historyOf, List.foldl_nil, List.length_nil] at history
  have paired : List.Forall₂ (Told e) (handled.filter logged)
      (handled.flatMap fun steps => historyOf (callsOf 0 steps)) ↔
      ∀ steps ∈ handled, ∀ wrec ∈ historyOf (callsOf 0 steps), Told e steps wrec := by
    clear history
    induction handled with
    | nil => simp
    | cons steps handled ih =>
      have later := ih fun s member => shaped s (List.mem_cons_of_mem steps member)
      have count := (shaped_history (shaped steps List.mem_cons_self) []).2
      rw [List.forall_mem_cons, ← later, List.flatMap_cons]
      by_cases makes : logged steps = true
      · rw [if_pos makes] at count
        obtain ⟨wrec, only⟩ := List.length_eq_one_iff.mp count
        rw [List.filter_cons_of_pos makes, only, List.singleton_append, List.forall₂_cons]
        simp
      · rw [if_neg makes] at count
        rw [List.filter_cons_of_neg makes, List.length_eq_zero_iff.mp count]
        simp
  constructor
  · intro truthful steps member
    have told := truthful.told
    rw [historyOf, history] at told
    exact ⟨truthful.intact steps member, paired.mp told steps member⟩
  · intro honest
    refine ⟨fun steps member => (honest steps member).intact, ?_⟩
    rw [historyOf, history]
    exact paired.mpr fun steps member => (honest steps member).told

def entryOf (x : Outcomes) (wrec : WlogRec) : List Step × Option WlogRec :=
  match x.appended with
  | .failed => ([], none)
  | .torn => ([.stray], some wrec)
  | .whole => ([.append wrec x.wbuf], some wrec)

theorem preliminary_entry {e : Setup} {req : IoReq} {async : CInt} {x : Outcomes}
    {entry : List Step × Option WlogRec} (logs : e.wOpt = true)
    (made : preliminary e req async x = some entry) :
    ∃ wrec, wrec.wDone = 0 ∧ wrec.wNbytes = req.rNbytes ∧ entry = entryOf x wrec := by
  simp only [preliminary, logs, if_true, Option.bind_eq_bind, Option.bind_eq_some_iff] at made
  obtain ⟨wrec, filled, made⟩ := made
  have fields : wrec.wDone = 0 ∧ wrec.wNbytes = req.rNbytes := by
    simp only [fillRec, Option.bind_eq_bind, Option.bind_eq_some_iff] at filled
    obtain ⟨path, _, host, _, pattern, _, filled⟩ := filled
    obtain rfl := Option.some.inj filled
    exact ⟨rfl, rfl⟩
  refine ⟨wrec, fields.1, fields.2, ?_⟩
  rw [entryOf]
  cases appended : x.appended with
  | failed =>
    rw [appended] at made
    exact (Option.some.inj made).symm
  | torn =>
    rw [appended] at made
    exact (Option.some.inj made).symm
  | whole =>
    rw [appended] at made
    exact (Option.some.inj made).symm

/-- The steps after the first phase: those up to the second one, and the second one. -/
structure Ends (e : Setup) (r : Served) (logged : Option WlogRec) (mid tail : List Step) : Prop where
  between : ∀ s ∈ mid, s.between
  reached : Passes e r → tail = completion r.outcomes logged
  missed : ¬ Passes e r → tail = []
  written : Passes e r → (Written e r ↔ .wrote r.req.rNbytes ∈ mid ∧
    (e.vOpt = true → ∃ length, .verified length ∈ mid ∧ r.req.rNbytes.toInt ≤ length.toInt))

theorem finish_steps (e : Setup) (locks verifies : Bool) (length rval : CInt) (x : Outcomes)
    (steps : List Step) (logged : Option WlogRec) :
    (finish e locks verifies length rval x steps logged).1 =
      if verifies = true ∧ checkFile length x.readBack = false then steps
      else steps ++ (if verifies then [.verified length] else []) ++ completion x logged := by
  simp only [finish, Bool.not_eq_true]
  split
  · rfl
  · split <;> rfl

theorem wrote_iff (returned nbytes : CInt) :
    .wrote nbytes ∈ [transfer returned] ↔ returned ≠ -1 ∧ returned = nbytes := by
  rw [List.mem_singleton, transfer]
  split
  · rename_i failed
    simp [failed]
  · rename_i wrote
    simp only [Step.wrote.injEq, wrote, ne_eq, not_false_eq_true, true_and]
    exact eq_comm

theorem transfer_between (returned : CInt) : ∀ s ∈ [transfer returned], s.between := by
  intro s member
  rw [List.mem_singleton.mp member, transfer]
  split <;> exact trivial

theorem finish_ends {e : Setup} {r : Served} {wrote : List Step} (verifies : Bool) (length : CInt)
    (plain : wrote = [transfer r.outcomes.returned] ∨ wrote = [])
    (passes : Passes e r ↔ (verifies = true → checkFile length r.outcomes.readBack = true))
    (written : Passes e r → (Written e r ↔ .wrote r.req.rNbytes ∈ wrote ∧
      (e.vOpt = true → verifies = true ∧ r.req.rNbytes.toInt ≤ length.toInt)))
    (locks : Bool) (rval : CInt) (entry : List Step) (logged : Option WlogRec) :
    ∃ mid tail, Ends e r logged mid tail ∧
      (finish e locks verifies length rval r.outcomes (entry ++ wrote) logged).1 = entry ++ mid ++ tail := by
  have between : ∀ s ∈ wrote, s.between := by
    rcases plain with rfl | rfl
    · exact transfer_between r.outcomes.returned
    · simp
  have unverified (len : CInt) : .verified len ∉ wrote := by
    rcases plain with rfl | rfl
    · rw [List.mem_singleton, transfer]
      split <;> simp
    · simp
  rw [finish_steps]
  by_cases fails : verifies = true ∧ checkFile length r.outcomes.readBack = false
  · have stuck : ¬ Passes e r := by
      rw [passes]
      intro same
      rw [same fails.1] at fails
      exact Bool.noConfusion fails.2
    rw [if_pos fails]
    refine ⟨wrote, [], ⟨between, fun h => absurd h stuck, fun _ => rfl, fun h => absurd h stuck⟩, ?_⟩
    rw [List.append_nil]
  · have through : Passes e r := by
      rw [passes]
      intro checks
      by_contra differs
      exact fails ⟨checks, Bool.eq_false_iff.mpr differs⟩
    rw [if_neg fails]
    refine ⟨wrote ++ (if verifies then [.verified length] else []), completion r.outcomes logged,
      ⟨?_, fun _ => rfl, fun h => absurd through h, fun _ => ?_⟩, by simp only [List.append_assoc]⟩
    · intro s member
      rcases List.mem_append.mp member with before | check
      · exact between s before
      · cases verifies with
        | true => rw [List.mem_singleton.mp check]; exact trivial
        | false => cases check
    · rw [written through]
      cases verifies <;> simp [unverified]

theorem do_write_steps {e : Setup} {r : Served} {steps : List Step} {exit : Exit}
    (kind : r.req.rType = write ∨ r.req.rType = writea) (begins : Begins e r)
    (served : doWrite e r.req r.outcomes = some (steps, exit)) :
    ∃ wrec mid tail, wrec.wDone = 0 ∧ wrec.wNbytes = r.req.rNbytes ∧ Ends e r (entryOf r.outcomes wrec).2 mid tail ∧
      steps = (entryOf r.outcomes wrec).1 ++ mid ++ tail := by
  have unlocked : ¬ (e.kOpt = true ∧ ¬ r.outcomes.locked = true) :=
    fun h => h.2 (begins.locked h.1)
  have room : ¬ r.outcomes.memory.toInt < 0 := Int.not_lt.mpr begins.memory
  simp only [doWrite, begins.opened, not_true, if_false, if_neg room, if_neg unlocked,
    Option.bind_eq_bind, Option.bind_eq_some_iff] at served
  obtain ⟨⟨entry, logged⟩, made, served⟩ := served
  obtain ⟨wrec, fresh, bytes, same⟩ := preliminary_entry begins.logs made
  have rw_apart : ¬ (r.req.rType = writev ∨ r.req.rType = mmapw) := by
    rcases kind with kind | kind <;> rw [kind] <;> decide
  have passes (placed : r.req.rType = write → r.outcomes.placed = true) : Passes e r ↔
      (e.vOpt = true → checkFile r.req.rNbytes r.outcomes.readBack = true) :=
    ⟨fun through => through.same kind,
      fun same => ⟨placed, fun _ => same, fun rw_kind => absurd rw_kind rw_apart⟩⟩
  refine ⟨wrec, ?_⟩
  rw [← same]
  by_cases sync : r.req.rType = write
  · by_cases placed : r.outcomes.placed = true
    · simp only [switchWrite, if_pos sync, if_pos placed] at served
      have written : Written e r ↔ .wrote r.req.rNbytes ∈ [transfer r.outcomes.returned] ∧
          (e.vOpt = true → e.vOpt = true ∧ r.req.rNbytes.toInt ≤ r.req.rNbytes.toInt) := by
        rw [wrote_iff]
        constructor
        · intro written
          exact ⟨written.all, fun verify => ⟨verify, Int.le_refl _⟩⟩
        · rintro ⟨all, _⟩
          exact ⟨by rw [sync]; decide, all, fun other => absurd sync other⟩
      obtain ⟨mid, tail, ends, all⟩ := finish_ends e.vOpt r.req.rNbytes (.inl rfl)
        (passes fun _ => placed) (fun _ => written) true
        (checkReturn r.outcomes.returned r.req.rNbytes) entry logged
      refine ⟨mid, tail, fresh, bytes, ends, ?_⟩
      rw [← all, Option.some.inj served]
    · simp only [switchWrite, if_pos sync, if_neg placed] at served
      have stuck : ¬ Passes e r := fun through => placed (through.placed sync)
      refine ⟨[], [], fresh, bytes, ⟨by simp, fun h => absurd h stuck, fun _ => rfl,
        fun h => absurd h stuck⟩, ?_⟩
      simpa using (congrArg Prod.fst (Option.some.inj served)).symm
  · have async : r.req.rType = writea := kind.resolve_left sync
    simp only [switchWrite, if_neg sync] at served
    have unwritten : Written e r ↔ .wrote r.req.rNbytes ∈ ([] : List Step) ∧
        (e.vOpt = true → e.vOpt = true ∧ r.req.rNbytes.toInt ≤ r.req.rNbytes.toInt) := by
      constructor
      · intro written
        exact absurd async written.made
      · rintro ⟨nothing, _⟩
        cases nothing
    obtain ⟨mid, tail, ends, all⟩ := finish_ends e.vOpt r.req.rNbytes (.inr rfl)
      (passes fun h => absurd h sync) (fun _ => unwritten) true (-1) entry logged
    refine ⟨mid, tail, fresh, bytes, ends, ?_⟩
    rw [← all, Option.some.inj served]

theorem do_rw_steps {e : Setup} {r : Served} {steps : List Step} {exit : Exit}
    (kind : r.req.rType = writev ∨ r.req.rType = mmapw) (begins : Begins e r)
    (served : doRw e r.req r.outcomes = some (steps, exit)) :
    ∃ wrec mid tail, wrec.wDone = 0 ∧ wrec.wNbytes = r.req.rNbytes ∧ Ends e r (entryOf r.outcomes wrec).2 mid tail ∧
      steps = (entryOf r.outcomes wrec).1 ++ mid ++ tail := by
  have few : ¬ maxAio ≤ r.req.rNent.toInt := by
    rcases begins.kind with other | other | listed
    · rcases kind with kind | kind <;> rw [kind] at other <;> exact absurd other (by decide)
    · rcases kind with kind | kind <;> rw [kind] at other <;> exact absurd other (by decide)
    · exact Int.not_le.mpr listed.2
  have found : ∃ sy, syscalls.find? (·.syType = r.req.rType) = some sy ∧ sy.syWrite = true := by
    rcases kind with kind | kind <;> rw [kind] <;> exact ⟨_, rfl, rfl⟩
  obtain ⟨sy, found, writes⟩ := found
  have apart : r.req.rType ≠ write ∧ r.req.rType ≠ writea := by
    rcases kind with kind | kind <;> rw [kind] <;> decide
  have unlocked : ¬ (e.kOpt = true ∧ ¬ r.outcomes.locked = true) :=
    fun h => h.2 (begins.locked h.1)
  have room : ¬ r.outcomes.memory.toInt < 0 := Int.not_lt.mpr begins.memory
  simp only [doRw, if_neg few, found, begins.opened, not_true, if_false, if_neg room, writes,
    true_and, if_neg unlocked, if_true, Bool.and_true, Option.bind_eq_bind,
    Option.bind_eq_some_iff] at served
  obtain ⟨⟨entry, logged⟩, made, served⟩ := served
  obtain ⟨wrec, fresh, bytes, same⟩ := preliminary_entry begins.logs made
  refine ⟨wrec, ?_⟩
  rw [← same]
  have returned : (checkReturn r.outcomes.returned r.req.rNbytes == 0) = true ↔
      r.outcomes.returned ≠ -1 ∧ r.outcomes.returned = r.req.rNbytes := by
    rw [checkReturn]
    split
    · rename_i failed
      simp [failed]
    · rename_i made
      split <;> simp_all
  have passes : Passes e r ↔ ((checkReturn r.outcomes.returned r.req.rNbytes == 0 && e.vOpt) = true →
        checkFile (verifyLength r.req) r.outcomes.readBack = true) := by
    rw [Bool.and_eq_true, returned]
    constructor
    · rintro through ⟨⟨made, all⟩, verify⟩
      exact through.sameRw kind verify made all
    · intro same
      exact ⟨fun h => absurd h apart.1, fun h => absurd h (by simp [apart]),
        fun _ verify made all => same ⟨⟨made, all⟩, verify⟩⟩
  have written : Written e r ↔ .wrote r.req.rNbytes ∈ [transfer r.outcomes.returned] ∧
      (e.vOpt = true → (checkReturn r.outcomes.returned r.req.rNbytes == 0 && e.vOpt) = true ∧
        r.req.rNbytes.toInt ≤ (verifyLength r.req).toInt) := by
    rw [wrote_iff, Bool.and_eq_true, returned]
    constructor
    · intro written
      exact ⟨written.all, fun verify => ⟨⟨written.all, verify⟩, written.covered apart.1 verify⟩⟩
    · rintro ⟨all, covered⟩
      exact ⟨apart.2, all, fun _ verify => (covered verify).2⟩
  obtain ⟨mid, tail, ends, all⟩ := finish_ends _ (verifyLength r.req) (.inl rfl) passes
    (fun _ => written) true (checkReturn r.outcomes.returned r.req.rNbytes) entry logged
  refine ⟨mid, tail, fresh, bytes, ends, ?_⟩
  rw [← all, Option.some.inj served]

theorem finish_between {e : Setup} {locks verifies : Bool} {length rval : CInt} {x : Outcomes}
    {steps : List Step} (between : ∀ s ∈ steps, s.between) :
    ∀ s ∈ (finish e locks verifies length rval x steps none).1, s.between := by
  rw [finish_steps]
  intro s member
  split at member
  · exact between s member
  · rw [completion, List.append_nil] at member
    rcases List.mem_append.mp member with before | check
    · exact between s before
    · cases verifies with
      | true => rw [List.mem_singleton.mp check]; exact trivial
      | false => cases check

theorem do_write_silent {e : Setup} {r : Served} {steps : List Step} {exit : Exit}
    (kind : r.req.rType = write ∨ r.req.rType = writea) (silent : ¬ Begins e r)
    (served : doWrite e r.req r.outcomes = some (steps, exit)) : ∀ s ∈ steps, s.between := by
  rw [doWrite] at served
  split at served
  · obtain ⟨rfl, -⟩ := Prod.mk.inj (Option.some.inj served)
    simp
  rename_i opened
  split at served
  · obtain ⟨rfl, -⟩ := Prod.mk.inj (Option.some.inj served)
    simp
  rename_i memory
  split at served
  · obtain ⟨rfl, -⟩ := Prod.mk.inj (Option.some.inj served)
    simp
  rename_i locked
  have quiet : ¬ e.wOpt = true := by
    intro logs
    refine silent ⟨logs, ?_, not_not.mp opened, Int.not_lt.mp memory, ?_⟩
    · rcases kind with kind | kind
      · exact .inl kind
      · exact .inr (.inl kind)
    · intro locks
      exact not_not.mp fun free => locked ⟨locks, free⟩
  simp only [preliminary, if_neg quiet, Option.bind_eq_bind, Option.bind_some, List.nil_append] at served
  cases switched : switchWrite r.req r.outcomes with
  | none =>
    rw [switched] at served
    obtain ⟨rfl, -⟩ := Prod.mk.inj (Option.some.inj served)
    simp
  | some done =>
    obtain ⟨wrote, rval⟩ := done
    rw [switched] at served
    have between : ∀ s ∈ wrote, s.between := by
      rw [switchWrite] at switched
      split at switched
      · split at switched
        · obtain ⟨rfl, -⟩ := Prod.mk.inj (Option.some.inj switched)
          exact transfer_between r.outcomes.returned
        · cases switched
      · obtain ⟨rfl, -⟩ := Prod.mk.inj (Option.some.inj switched)
        simp
    obtain rfl : (finish e true e.vOpt r.req.rNbytes rval r.outcomes wrote none).1 = steps :=
      congrArg Prod.fst (Option.some.inj served)
    exact finish_between between

theorem do_rw_silent {e : Setup} {r : Served} {steps : List Step} {exit : Exit}
    (silent : ¬ Begins e r) (served : doRw e r.req r.outcomes = some (steps, exit)) :
    ∀ s ∈ steps, s.between := by
  rw [doRw] at served
  split at served
  · obtain ⟨rfl, -⟩ := Prod.mk.inj (Option.some.inj served)
    simp
  rename_i few
  cases found : syscalls.find? (·.syType = r.req.rType) with
  | none =>
    rw [found] at served
    obtain ⟨rfl, -⟩ := Prod.mk.inj (Option.some.inj served)
    simp
  | some sy =>
    simp only [found] at served
    split at served
    · obtain ⟨rfl, -⟩ := Prod.mk.inj (Option.some.inj served)
      simp
    rename_i opened
    split at served
    · obtain ⟨rfl, -⟩ := Prod.mk.inj (Option.some.inj served)
      simp
    rename_i memory
    split at served
    · obtain ⟨rfl, -⟩ := Prod.mk.inj (Option.some.inj served)
      simp
    rename_i locked
    have quiet : sy.syWrite = true → ¬ e.wOpt = true := by
      intro writes logs
      have kind : r.req.rType = writev ∨ r.req.rType = mmapw := by
        have listed := List.mem_of_find?_eq_some found
        have same : sy.syType = r.req.rType := by
          have test := List.find?_some found
          exact of_decide_eq_true test
        rw [← same]
        simp only [syscalls, List.mem_cons, List.not_mem_nil, or_false] at listed
        rcases listed with rfl | rfl | rfl | rfl <;> simp_all
      refine silent ⟨logs, .inr (.inr ⟨kind, Int.not_le.mp few⟩), not_not.mp opened, Int.not_lt.mp memory, ?_⟩
      intro locks
      exact not_not.mp fun free => locked ⟨writes, locks, free⟩
    cases writes : sy.syWrite with
    | true =>
      simp only [writes, if_true, preliminary, if_neg (quiet writes), Option.bind_eq_bind,
        Option.bind_some, List.nil_append] at served
      have all := congrArg Prod.fst (Option.some.inj served)
      dsimp only at all
      subst all
      exact finish_between (transfer_between r.outcomes.returned)
    | false =>
      simp only [writes, Bool.false_eq_true, if_false, Option.bind_eq_bind, Option.bind_some, List.append_nil] at served
      have all := congrArg Prod.fst (Option.some.inj served)
      dsimp only at all
      subst all
      exact finish_between (by simp)

theorem handle_cases {e : Setup} {r : Served} {steps : List Step} {exit : Exit}
    (served : handle e r.req r.outcomes = some (steps, exit)) :
    (¬ Begins e r ∧ ∀ s ∈ steps, s.between) ∨
      Begins e r ∧ ∃ wrec mid tail, wrec.wDone = 0 ∧ wrec.wNbytes = r.req.rNbytes ∧
        Ends e r (entryOf r.outcomes wrec).2 mid tail ∧
        steps = (entryOf r.outcomes wrec).1 ++ mid ++ tail := by
  rw [handle] at served
  by_cases begins : Begins e r
  · refine .inr ⟨begins, ?_⟩
    split at served
    · rename_i kind
      exact do_write_steps kind begins served
    · rename_i other
      split at served
      · rcases begins.kind with sync | async | kind
        · exact absurd (.inl sync) other
        · exact absurd (.inr async) other
        · exact do_rw_steps kind.1 begins served
      · cases served
  · refine .inl ⟨begins, ?_⟩
    split at served
    · rename_i kind
      exact do_write_silent kind begins served
    · split at served
      · exact do_rw_silent begins served
      · cases served

inductive Form (e : Setup) (r : Served) : List Step → Prop where
  | silent {steps : List Step} (harmless : Begins e r → r.outcomes.appended = .failed)
      (between : ∀ s ∈ steps, s.between) : Form e r steps
  | torn {steps : List Step} (begins : Begins e r) (cut : r.outcomes.appended = .torn)
      (plain : ∀ s ∈ steps, s.between ∨ s = .stray) : Form e r (.stray :: steps)
  | begun {wrec : WlogRec} {steps : List Step} (whole : r.outcomes.appended = .whole)
      (fresh : wrec.wDone = 0) (between : ∀ s ∈ steps, s.between)
      (unmarked : Passes e r → ¬ r.outcomes.marked = true) :
      Form e r (.append wrec r.outcomes.wbuf :: steps)
  | marked {wrec : WlogRec} {steps : List Step} (begins : Begins e r) (passes : Passes e r)
      (whole : r.outcomes.appended = .whole) (marked : r.outcomes.marked = true)
      (bytes : wrec.wNbytes = r.req.rNbytes) (fresh : wrec.wDone = 0)
      (between : ∀ s ∈ steps, s.between)
      (written : Written e r ↔ .wrote r.req.rNbytes ∈ steps ∧ (e.vOpt = true →
        ∃ length, .verified length ∈ steps ∧ r.req.rNbytes.toInt ≤ length.toInt)) :
      Form e r (.append wrec r.outcomes.wbuf :: (steps ++ [.overlay { wrec with wDone := 1 } r.outcomes.wbuf']))

theorem handle_form {e : Setup} {r : Served} {steps : List Step} {exit : Exit}
    (served : handle e r.req r.outcomes = some (steps, exit)) : Form e r steps := by
  rcases handle_cases served with ⟨silent, between⟩ | ⟨begins, wrec, mid, tail, fresh, bytes, ends, rfl⟩
  · exact .silent (fun begins => absurd begins silent) between
  · clear served
    by_cases marks : Passes e r ∧ r.outcomes.marked = true
    · obtain ⟨passes, marked⟩ := marks
      have tail_eq := ends.reached passes
      rw [entryOf] at tail_eq ⊢
      cases appended : r.outcomes.appended with
      | failed =>
        simp only [appended, completion] at tail_eq ⊢
        rw [tail_eq, List.nil_append, List.append_nil]
        exact .silent (fun _ => appended) ends.between
      | torn =>
        simp only [appended, completion, if_pos marked, reduceCtorEq, if_false] at tail_eq ⊢
        rw [tail_eq]
        refine .torn begins appended fun s member => ?_
        rcases List.mem_append.mp member with before | last
        · exact .inl (ends.between s before)
        · exact .inr (List.mem_singleton.mp last)
      | whole =>
        simp only [appended, completion, if_pos marked, if_true] at tail_eq ⊢
        rw [tail_eq]
        exact .marked begins passes appended marked bytes fresh ends.between (ends.written passes)
    · have tail_eq : tail = [] := by
        by_cases passes : Passes e r
        · have unmarked : ¬ r.outcomes.marked = true := fun marked => marks ⟨passes, marked⟩
          rw [ends.reached passes]
          cases (entryOf r.outcomes wrec).2 with
          | none => rfl
          | some _ => exact if_neg unmarked
        · exact ends.missed passes
      have unmarked : Passes e r → ¬ r.outcomes.marked = true :=
        fun passes marked => marks ⟨passes, marked⟩
      rw [tail_eq, List.append_nil, entryOf]
      cases appended : r.outcomes.appended with
      | failed => exact .silent (fun _ => appended) ends.between
      | torn => exact .torn begins appended fun s member => .inl (ends.between s member)
      | whole => exact .begun appended fresh ends.between unmarked

theorem form_shaped {e : Setup} {r : Served} {steps : List Step} (form : Form e r steps) :
    Shaped steps := by
  cases form with
  | silent _ between => exact .unlogged fun s member => .inl (between s member)
  | torn _ _ plain =>
    refine .unlogged fun s member => ?_
    rcases List.mem_cons.mp member with rfl | later
    · exact .inr rfl
    · exact plain s later
  | begun _ _ between _ => exact .begun between
  | marked _ _ _ _ _ _ between _ => exact .marked between

theorem between_honest (e : Setup) {steps : List Step} (between : ∀ s ∈ steps, s.between) :
    Honest e steps := by
  refine ⟨fun member => between .stray member, ?_⟩
  rw [calls_between 0 between]
  intro wrec member
  cases member

theorem begun_honest (e : Setup) {wrec : WlogRec} (fresh : wrec.wDone = 0) (wbuf : WriteBuf)
    {steps : List Step} (between : ∀ s ∈ steps, s.between) (cut : Nat) :
    Honest e ((.append wrec wbuf :: steps).take cut) := by
  cases cut with
  | zero => exact between_honest e (by simp)
  | succ cut =>
    have before : ∀ s ∈ steps.take cut, s.between :=
      fun s member => between s (List.mem_of_mem_take member)
    rw [List.take_succ_cons]
    constructor
    · intro member
      rcases List.mem_cons.mp member with first | later
      · cases first
      · exact before .stray later
    · simp only [callsOf, calls_between 0 before, historyOf, List.foldl_cons, List.foldl_nil, remember,
        List.nil_append, List.mem_singleton, forall_eq]
      intro done
      rw [fresh] at done
      exact absurd done (by decide)

theorem honest_iff {e : Setup} {r : Served} {steps : List Step} (form : Form e r steps) :
    (∀ cut, Honest e (steps.take cut)) ↔ Meets e r := by
  cases form with
  | silent harmless between =>
    constructor
    · intro _
      refine ⟨fun begins => ?_, fun begins _ whole => ?_⟩
      · rw [harmless begins]
        decide
      · rw [harmless begins] at whole
        cases whole
    · intro _ cut
      exact between_honest e fun s member => between s (List.mem_of_mem_take member)
  | torn begins torn plain =>
    constructor
    · intro honest
      exact absurd List.mem_cons_self (honest 1).intact
    · intro meets
      exact absurd torn (meets.untorn begins)
  | begun whole fresh between unmarked =>
    constructor
    · intro _
      refine ⟨fun _ => by rw [whole]; decide, fun _ passes _ marked => ?_⟩
      exact absurd marked (unmarked passes)
    · intro _ cut
      exact begun_honest e fresh _ between cut
  | @marked wrec mid begins passes whole marked bytes fresh between written =>
    have history : historyOf (callsOf 0 (.append wrec r.outcomes.wbuf ::
        (mid ++ [.overlay { wrec with wDone := 1 } r.outcomes.wbuf']))) =
        [overlaid wrec { wrec with wDone := 1 }] := by
      simp [callsOf, calls_append, calls_between 0 between, historyOf, remember]
    have complete_iff : Complete e (.append wrec r.outcomes.wbuf ::
        (mid ++ [.overlay { wrec with wDone := 1 } r.outcomes.wbuf']))
        (overlaid wrec { wrec with wDone := 1 }) ↔ Written e r := by
      rw [written, ← bytes]
      constructor
      · rintro ⟨wrote, verified⟩
        exact ⟨by simpa [overlaid] using wrote, by simpa [overlaid] using verified⟩
      · rintro ⟨wrote, verified⟩
        exact ⟨by simpa [overlaid] using wrote, by simpa [overlaid] using verified⟩
    constructor
    · intro honest
      refine ⟨fun _ => by rw [whole]; decide, fun _ _ _ _ => ?_⟩
      have told := (honest (mid.length + 2)).told
      rw [List.take_of_length_le (by simp), history] at told
      exact complete_iff.mp (told _ List.mem_cons_self rfl)
    · intro meets cut
      by_cases short : cut ≤ mid.length + 1
      · have earlier : (.append wrec r.outcomes.wbuf ::
            (mid ++ [.overlay { wrec with wDone := 1 } r.outcomes.wbuf'])).take cut =
            (.append wrec r.outcomes.wbuf :: mid).take cut := by
          rw [← List.cons_append, List.take_append_of_le_length (by simpa using short)]
        rw [earlier]
        exact begun_honest e fresh _ between cut
      · rw [List.take_of_length_le (by simp; omega)]
        refine ⟨?_, ?_⟩
        · intro member
          simp only [List.mem_cons, List.mem_append, reduceCtorEq, false_or, List.not_mem_nil, or_false] at member
          exact between .stray member
        · rw [history]
          intro rec member _
          rw [List.mem_singleton.mp member]
          exact complete_iff.mpr (meets.written begins passes whole marked)

theorem steps_of_cons {e : Setup} {r : Served} {cut : Nat} {served : List (Served × Nat)}
    {handled : List (List Step)} (ran : stepsOf e ((r, cut) :: served) = some handled) :
    ∃ steps exit rest, handle e r.req r.outcomes = some (steps, exit) ∧
      stepsOf e served = some rest ∧ handled = steps.take cut :: rest := by
  simp only [stepsOf, Option.bind_eq_bind, Option.bind_eq_some_iff] at ran
  obtain ⟨⟨steps, exit⟩, here, rest, later, ran⟩ := ran
  exact ⟨steps, exit, rest, here, later, (Option.some.inj ran).symm⟩

theorem steps_of_mem {e : Setup} {served : List (Served × Nat)} {handled : List (List Step)}
    (ran : stepsOf e served = some handled) :
    ∀ steps ∈ handled, ∃ r cut all, (r, cut) ∈ served ∧ Form e r all ∧ steps = all.take cut := by
  induction served generalizing handled with
  | nil =>
    obtain rfl := Option.some.inj ran
    simp
  | cons first served ih =>
    obtain ⟨r, cut⟩ := first
    obtain ⟨all, exit, rest, here, later, rfl⟩ := steps_of_cons ran
    intro steps member
    rcases List.mem_cons.mp member with rfl | member
    · exact ⟨r, cut, all, List.mem_cons_self, handle_form here, rfl⟩
    · obtain ⟨r', cut', all', inside, form, same⟩ := ih later steps member
      exact ⟨r', cut', all', List.mem_cons_of_mem _ inside, form, same⟩

theorem steps_of_one {e : Setup} {r : Served} {steps : List Step} {exit : Exit}
    (here : handle e r.req r.outcomes = some (steps, exit)) (cut : Nat) :
    stepsOf e [(r, cut)] = some [steps.take cut] := by
  simp [stepsOf, here]

theorem one_cut {e : Setup} {served : List Served}
    (defined : ∀ r ∈ served, (handle e r.req r.outcomes).isSome = true) {r : Served}
    (member : r ∈ served) {steps : List Step} {exit : Exit}
    (here : handle e r.req r.outcomes = some (steps, exit)) (cut : Nat) :
    ∃ cuts handled, stepsOf e (served.zip cuts) = some handled ∧ steps.take cut ∈ handled := by
  induction served with
  | nil => cases member
  | cons first served ih =>
    rcases List.mem_cons.mp member with rfl | later
    · refine ⟨[cut], [steps.take cut], ?_, List.mem_cons_self⟩
      rw [List.zip_cons_cons, List.zip_nil_right, steps_of_one here cut]
    · obtain ⟨cuts, handled, ran, inside⟩ :=
        ih (fun r member => defined r (List.mem_cons_of_mem first member)) later
      obtain ⟨⟨all, exit⟩, begun⟩ := Option.isSome_iff_exists.mp (defined first List.mem_cons_self)
      exact ⟨0 :: cuts, [] :: handled, by simp [stepsOf, begun, ran], List.mem_cons_of_mem _ inside⟩

/-- Wherever the requests of a run are cut off, the log says of no write that it was done unless it
    was, just when the requests meet the condition. -/
theorem done_when_written (e : Setup) (served : List Served)
    (defined : ∀ r ∈ served, (handle e r.req r.outcomes).isSome = true) :
    (∀ cuts handled, stepsOf e (served.zip cuts) = some handled → Truthful e handled) ↔ ∀ r ∈ served, Meets e r := by
  have shaped {cuts : List Nat} {handled : List (List Step)}
      (ran : stepsOf e (served.zip cuts) = some handled) : ∀ steps ∈ handled, Shaped steps := by
    intro steps member
    obtain ⟨r, cut, all, _, form, rfl⟩ := steps_of_mem ran steps member
    exact shaped_take (form_shaped form) cut
  constructor
  · intro truthful r member
    obtain ⟨steps, exit, here⟩ : ∃ steps exit, handle e r.req r.outcomes = some (steps, exit) := by
      obtain ⟨⟨steps, exit⟩, here⟩ := Option.isSome_iff_exists.mp (defined r member)
      exact ⟨steps, exit, here⟩
    rw [← honest_iff (handle_form here)]
    intro cut
    obtain ⟨cuts, handled, ran, inside⟩ := one_cut defined member here cut
    have all := (truthful_by_request e handled (shaped ran)).mp (truthful cuts handled ran)
    exact all _ inside
  · intro meets cuts handled ran
    rw [truthful_by_request e handled (shaped ran)]
    intro steps member
    obtain ⟨r, cut, all, inside, form, rfl⟩ := steps_of_mem ran steps member
    exact (honest_iff form).mpr (meets r (List.of_mem_zip inside).1) cut

theorem request_fits {e : Setup} {r : Served} {steps : List Step} (form : Form e r steps)
    (cut : Nat) {calls : List Call} (earlier : CallsFit calls)
    (fits : ∀ wrec wbuf, .append wrec wbuf ∈ steps.take cut → LengthsFit wrec) :
    CallsFit (calls ++ callsOf (historyOf calls).length (steps.take cut)) := by
  have begun {wrec : WlogRec} {mid : List Step} (between : ∀ s ∈ mid, s.between)
      (fit : LengthsFit wrec) : CallsFit (calls ++
        callsOf (historyOf calls).length (.append wrec r.outcomes.wbuf :: mid)) := by
    rw [callsOf, calls_between _ between]
    exact calls_fit_snoc.mpr ⟨earlier, by decide, fit⟩
  have nothing {mid : List Step} (plain : ∀ s ∈ mid, s.between ∨ s = .stray) :
      CallsFit (calls ++ callsOf (historyOf calls).length mid) := by
    have none : callsOf (historyOf calls).length mid = [] := by
      induction mid with
      | nil => rfl
      | cons step mid ih =>
        have rest := ih fun s member => plain s (List.mem_cons_of_mem step member)
        have here := plain step List.mem_cons_self
        cases step <;> simp_all [callsOf, Step.between]
    rw [none, List.append_nil]
    exact earlier
  cases cut with
  | zero => exact nothing (by simp)
  | succ cut =>
    cases form with
    | silent _ between =>
      exact nothing fun s member => .inl (between s (List.mem_of_mem_take member))
    | torn _ _ plain =>
      refine nothing fun s member => ?_
      rcases List.mem_cons.mp (List.mem_of_mem_take member) with rfl | later
      · exact .inr rfl
      · exact plain s later
    | begun _ _ between _ =>
      rw [List.take_succ_cons] at fits ⊢
      exact begun (fun s member => between s (List.mem_of_mem_take member))
        (fits _ _ List.mem_cons_self)
    | @marked wrec mid _ _ _ _ _ _ between _ =>
      rw [List.take_succ_cons] at fits ⊢
      have fit := fits _ _ List.mem_cons_self
      by_cases short : cut ≤ mid.length
      · rw [List.take_append_of_le_length short]
        exact begun (fun s member => between s (List.mem_of_mem_take member)) fit
      · rw [List.take_of_length_le (by simp; omega), ← List.cons_append, calls_append, ← List.append_assoc]
        refine calls_fit_snoc.mpr ⟨begun between fit, wrec, ?_, rfl, rfl, rfl⟩
        rw [callsOf, calls_between _ between, history_snoc, remember]
        simp

/-- The log that doio has written is read back by a scan as the history of its entries, whatever the outcomes of the
    calls were and wherever the requests were cut off. -/
theorem log_delivers {e : Setup} {served : List (Served × Nat)} {handled : List (List Step)}
    (ran : stepsOf e served = some handled)
    (fits : ∀ steps ∈ handled, ∀ wrec wbuf, .append wrec wbuf ∈ steps → LengthsFit wrec) :
    ∃ st, runCalls (logCalls 0 handled) = some st ∧
      (st.log.length < 2 ^ 31 → DeliversHistory ReadsBack (logCalls 0 handled) st.log) := by
  apply history_delivered
  suffices all : ∀ calls, CallsFit calls → CallsFit (calls ++ logCalls (historyOf calls).length handled) by
    exact all [] fun before c after split => by simp at split
  induction served generalizing handled with
  | nil =>
    obtain rfl := Option.some.inj ran
    intro calls fit
    simpa [logCalls] using fit
  | cons first served ih =>
    obtain ⟨r, cut⟩ := first
    obtain ⟨steps, exit, rest, here, later, rfl⟩ := steps_of_cons ran
    intro calls fit
    have form := handle_form here
    obtain ⟨history, count⟩ := shaped_history (shaped_take (form_shaped form) cut) calls
    have place : (historyOf (calls ++ callsOf (historyOf calls).length (steps.take cut))).length =
        if logged (steps.take cut) then (historyOf calls).length + 1
          else (historyOf calls).length := by
      rw [history, List.length_append, count]
      split <;> rfl
    have tail := ih later (fun s member => fits s (List.mem_cons_of_mem _ member)) _
      (request_fits form cut fit (fits _ List.mem_cons_self))
    rw [place] at tail
    rwa [logCalls, ← List.append_assoc]

def logOnly : Setup where
  kOpt := false
  vOpt := false
  wOpt := true
  pid := 1
  host := [0x61]
  pattern := [0x2d, 0x61]

def fourBytes (returned : CInt) : Served where
  req :=
    { rType := write, rFile := [0x66], rOflags := 1, rOffset := 0, rNbytes := 4, rPattern := 0x41,
      rNstrides := 1, rNent := 1 }
  outcomes :=
    { opened := true, memory := 0, locked := true, appended := .whole, placed := true, returned,
      readBack := ⟨true, true, 4, true⟩, marked := true, unlocked := true, stale := blankRec,
      wbuf := blankBuf, wbuf' := blankBuf }

def fitsStep : Step → Bool
  | .append wrec _ =>
    decide (wrec.wPathlen.toNat < 2 ^ 7 ∧ wrec.wHostlen.toNat ≤ wlogMaxHost + 1 ∧ wrec.wPatternlen.toNat < 2 ^ 6)
  | _ => true

theorem four_bytes_delivered : ∃ handled st, stepsOf logOnly [(fourBytes 4, 3)] = some handled ∧
    runCalls (logCalls 0 handled) = some st ∧
    (st.log.length < 2 ^ 31 → DeliversHistory ReadsBack (logCalls 0 handled) st.log) := by
  have all : (stepsOf logOnly [(fourBytes 4, 3)]).map (fun handled => handled.all fun steps => steps.all fitsStep) =
      some true := by decide
  obtain ⟨handled, ran, fit⟩ := Option.map_eq_some_iff.mp all
  obtain ⟨st, logged, delivers⟩ := log_delivers ran (by
    intro steps member wrec wbuf inside
    have short := List.all_eq_true.mp (List.all_eq_true.mp fit steps member) _ inside
    rw [fitsStep, decide_eq_true_eq] at short
    exact ⟨short.1, short.2.1, short.2.2⟩)
  exact ⟨handled, st, ran, logged, delivers⟩

theorem four_bytes_done : ∃ handled, stepsOf logOnly ([fourBytes 4].zip [3]) = some handled ∧
    Truthful logOnly handled := by
  refine ⟨_, rfl, ?_⟩
  refine (done_when_written logOnly [fourBytes 4] (by decide)).mpr ?_ [3] _ rfl
  intro r member
  rw [List.mem_singleton.mp member]
  exact ⟨fun _ => by decide, fun _ _ _ _ => ⟨by decide, by decide, fun other => absurd rfl other⟩⟩

/-- The write fails and the entry is marked done all the same. -/
theorem failed_write_marked :
    ¬ ∀ (e : Setup) (served : List Served) (cuts : List Nat) (handled : List (List Step)),
      e.wOpt = true → stepsOf e (served.zip cuts) = some handled → Truthful e handled := by
  intro always
  obtain ⟨⟨steps, exit⟩, here⟩ := Option.isSome_iff_exists.mp
    (by decide : (handle logOnly (fourBytes (-1)).req (fourBytes (-1)).outcomes).isSome = true)
  have form : Form logOnly (fourBytes (-1)) steps := handle_form here
  have honest (cut : Nat) : Honest logOnly (steps.take cut) := by
    have truthful := always logOnly [fourBytes (-1)] [cut] [steps.take cut] rfl
      (steps_of_one here cut)
    have shaped : ∀ s ∈ [steps.take cut], Shaped s := by
      intro s member
      rw [List.mem_singleton.mp member]
      exact shaped_take (form_shaped form) cut
    exact (truthful_by_request logOnly _ shaped).mp truthful _ List.mem_cons_self
  have begins : Begins logOnly (fourBytes (-1)) := ⟨rfl, .inl rfl, rfl, by decide, fun _ => rfl⟩
  have passes : Passes logOnly (fourBytes (-1)) :=
    ⟨fun _ => rfl, fun _ verify => (nomatch verify), fun _ verify => (nomatch verify)⟩
  have written := ((honest_iff form).mp honest).written begins passes rfl rfl
  exact written.all.1 rfl

end VteDoio
