import Mathlib.Data.List.Forall2
import Mathlib.Data.List.Nodup
import Vte.Pan.SchedulerCount
import Vte.Pan.Suffix

/-!
pan/ltp-pan.c: the formatted log against what was started and what has ended. The history is kept
next to the scheduler, by the children and not by the slots.
-/
namespace VteScheduler
open Text Machine

/-- The commands started, those that run with their children, and those that have ended. -/
structure History where
  started : List CollEntry
  live : List (Nat × CollEntry)
  done : List (CollEntry × Status)

/-- `run_child` for a command; without a child nothing is started. -/
def History.start (h : History) (cmd : CollEntry) : Launch → History
  | .started pid | .failed _ (some pid) =>
    { h with started := h.started ++ [cmd], live := h.live ++ [(pid, cmd)] }
  | .failed status none =>
    { h with started := h.started ++ [cmd], done := h.done ++ [(cmd, status)] }
  | .garbled => { h with started := h.started ++ [cmd] }
  | .noOutput | .noPipe | .noFork => h

def History.finish (h : History) (pid : Nat) (status : Status) : History :=
  { h with
    live := h.live.filter (·.1 != pid)
    done := h.done ++ (h.live.filter (·.1 == pid)).map fun x => (x.2, status) }

def History.next (o : Opts) (coll : List CollEntry) (act : Act) (s : State) (h : History) : History :=
  match act with
  | .launch draw result =>
    match coll[s.next o coll draw]? with
    | some cmd => h.start cmd result
    | none => h
  | .report pid =>
    match (s.children.find? (·.pid == pid)).bind (·.report s) with
    | some status => if status.terminated then h.finish pid status else h
    | none => h
  | _ => h

def trace (o : Opts) (coll : List CollEntry) (act : Act) (x : State × History) :
    Option (State × History) :=
  (step o coll act x.1).map fun t => (t, x.2.next o coll act x.1)

def Status.zeroExit : Status → Bool
  | .exited code => code == 0
  | _ => false

def CalledBy (tag name : Str) : Prop :=
  name = tag ∨ ∃ letters, letters ≠ [] ∧ (∀ c ∈ letters, isSuffixChar c = true) ∧ tag = name ++ '_' :: letters

def Reports (x : CollEntry × Status) (line : Line) : Prop :=
  ∃ name, CalledBy x.1.name name ∧ line = .result name (if x.2.zeroExit then "PASS" else "FAIL").toList x.2.termId

def Pc.gone : Pc → Prop
  | .exited | .rebooted | .crashed => True
  | _ => False

/-- The log has one line for each command that has ended, and every other one runs; none runs when
    pan has gone. -/
structure Truthful (s : State) (h : History) : Prop where
  lines : List.Forall₂ Reports h.done s.log
  failures : s.failcnt = h.done.countP fun x => !x.2.zeroExit
  each : List.Perm h.started (h.done.map Prod.fst ++ h.live.map Prod.snd)
  ended : s.pc.gone → h.live = []

def Leaves (tag name : Str) : Prop :=
  (∃ c letters, isSuffixChar c = false ∧ letters ≠ [] ∧ (∀ l ∈ letters, isSuffixChar l = true) ∧
    tag = name ++ c :: letters) ∨
  tag = name ∧ ∀ base c letters, isSuffixChar c = false → letters ≠ [] →
    (∀ l ∈ letters, isSuffixChar l = true) → tag ≠ base ++ c :: letters

def LastOne (s : State) (pid : Nat) : Prop :=
  s.stop ≠ 0 → s.numActive = 1 → ∀ p ∈ s.pgrps, p = 0 ∨ p = pid

def FirstNames (s : State) (slot : Slot) : Prop :=
  ∀ cmd ∈ slot.cmd, ∃ name, Leaves s.name name ∧ CalledBy cmd.name name ∧ name.length ≤ sizeofOricom

def Launch.awaited : Launch → Bool
  | .garbled | .failed _ (some _) => false
  | _ => true

def State.late (s : State) : Bool :=
  match s.pc with
  | .poll _ pcnt => decide (timeout s.name < pcnt + 1)
  | _ => false

/-- Failed execs are waited for, waits report ends only, of commands that the first slot's command
    names and that do not exit with 130 while pan stops them; no command is late, no wait fails where
    a file of failed commands is written, and pan does not exit with commands running. -/
def Reportable (o : Opts) : Act → State → Prop
  | .launch _ result, _ => result.awaited = true
  | .turn _, s => ∀ cmd ∈ s.cmd, (cmd.name.any fun c => c != 'L' && c != 'H') = true
  | .still, s => s.late = false
  | .noChild, s => o.failcmdfile = false ∧ LastOne s 0
  | .report pid, s =>
    ∀ child ∈ s.children.find? (·.pid == pid), ∀ status ∈ child.news, status.terminated = true ∧
      LastOne s pid ∧ ∀ slot ∈ s.running, slot.pgrp = pid → FirstNames s slot ∧
        ¬ (status.termId = 130 ∧ slot.stopping = true ∧ status.text = "exited".toList)
  | _, _ => True

section names
variable {tag name : Str}

theorem suffix_split (some_other : suffixLength tag < tag.length) :
    ∃ base c letters, isSuffixChar c = false ∧ letters.length = suffixLength tag ∧
      (∀ l ∈ letters, isSuffixChar l = true) ∧ tag = base ++ c :: letters := by
  have parts : tag.reverse.takeWhile isSuffixChar ++ tag.reverse.dropWhile isSuffixChar = tag.reverse :=
    List.takeWhile_append_dropWhile
  cases rest : tag.reverse.dropWhile isSuffixChar with
  | nil =>
    rw [rest, List.append_nil] at parts
    have all := congrArg List.length parts
    rw [List.length_reverse, ← suffixLength] at all
    omega
  | cons c base =>
    have other : isSuffixChar c = false := by
      have first := List.head?_dropWhile_not isSuffixChar tag.reverse
      rw [rest] at first
      simpa using first
    refine ⟨base.reverse, c, (tag.reverse.takeWhile isSuffixChar).reverse, other, ?_, ?_, ?_⟩
    · rw [List.length_reverse, suffixLength]
    · intro l member
      exact List.all_eq_true.mp List.all_takeWhile l (List.mem_reverse.mp member)
    · rw [rest] at parts
      have whole := congrArg List.reverse parts
      rw [List.reverse_reverse, List.reverse_append, List.reverse_cons] at whole
      rw [List.append_assoc] at whole
      exact whole.symm

theorem oricom_cut {base letters : Str} {c : Char} (other : isSuffixChar c = false)
    (some_letter : letters ≠ []) (all : ∀ l ∈ letters, isSuffixChar l = true) :
    oricom (base ++ c :: letters) = base := by
  have count : suffixLength (base ++ c :: letters) = letters.length := suffix_length_letters other all
  have positive := List.length_pos_iff.mpr some_letter
  have long : (base ++ c :: letters).length = base.length + (letters.length + 1) := by simp
  rw [oricom, count, if_pos ⟨by omega, positive⟩, long]
  have place : base.length + (letters.length + 1) - letters.length - 1 = base.length := by omega
  rw [place, List.take_left]

theorem oricom_uncut (strips : ¬ (suffixLength tag < tag.length ∧ 0 < suffixLength tag)) :
    oricom tag = tag := if_neg strips

theorem leaves_iff : Leaves tag name ↔ oricom tag = name := by
  constructor
  · rintro (⟨c, letters, other, some_letter, all, rfl⟩ | ⟨rfl, uncut⟩)
    · exact oricom_cut other some_letter all
    · refine oricom_uncut ?_
      rintro ⟨some_other, some_letter⟩
      obtain ⟨base, c, letters, other, count, all, whole⟩ := suffix_split some_other
      have positive : letters ≠ [] := List.length_pos_iff.mp (by omega)
      exact uncut base c letters other positive all whole
  · rintro rfl
    by_cases strips : suffixLength tag < tag.length ∧ 0 < suffixLength tag
    · obtain ⟨base, c, letters, other, count, all, whole⟩ := suffix_split strips.1
      have positive : letters ≠ [] := List.length_pos_iff.mp (by omega)
      have cut : oricom tag = base := by
        rw [whole]
        exact oricom_cut other positive all
      exact .inl ⟨c, letters, other, positive, all, by rw [cut]; exact whole⟩
    · refine .inr ⟨(oricom_uncut strips).symm, ?_⟩
      rintro base c letters other positive all rfl
      apply strips
      rw [suffix_length_letters other all]
      exact ⟨by simp; omega, List.length_pos_iff.mpr positive⟩

theorem called_by_iff : CalledBy tag name ↔ name = tag ∨ name ++ ['_'] <+: tag ∧
    tag.drop (name.length + 1) ≠ [] ∧ (tag.drop (name.length + 1)).all isSuffixChar = true := by
  have rest : ∀ letters : Str, (name ++ '_' :: letters).drop (name.length + 1) = letters := by
    intro letters
    rw [List.drop_append]
    simp
  refine or_congr_right ?_
  rw [List.all_eq_true]
  constructor
  · rintro ⟨letters, some_letter, all, rfl⟩
    rw [rest]
    exact ⟨⟨letters, by simp⟩, some_letter, all⟩
  · rintro ⟨⟨letters, rfl⟩, some_letter, all⟩
    rw [List.append_assoc, List.singleton_append, rest] at some_letter all
    exact ⟨letters, some_letter, all, by simp⟩

instance : Decidable (CalledBy tag name) := decidable_of_iff _ called_by_iff.symm

theorem first_names_iff {s : State} {slot : Slot} : FirstNames s slot ↔
    ∀ cmd ∈ slot.cmd, CalledBy cmd.name (oricom s.name) ∧ (oricom s.name).length ≤ sizeofOricom := by
  simp only [FirstNames, leaves_iff, exists_eq_left']

instance (s : State) (slot : Slot) : Decidable (FirstNames s slot) := decidable_of_iff _ first_names_iff.symm

instance (s : State) (pid : Nat) : Decidable (LastOne s pid) :=
  inferInstanceAs (Decidable (s.stop ≠ 0 → s.numActive = 1 → ∀ p ∈ s.pgrps, p = 0 ∨ p = pid))

instance (o : Opts) (act : Act) (s : State) : Decidable (Reportable o act s) :=
  match act with
  | .launch _ result => inferInstanceAs (Decidable (result.awaited = true))
  | .turn _ =>
    inferInstanceAs (Decidable
      (∀ cmd ∈ s.cmd, (cmd.name.any fun c => c != 'L' && c != 'H') = true))
  | .still => inferInstanceAs (Decidable (s.late = false))
  | .noChild => inferInstanceAs (Decidable (o.failcmdfile = false ∧ LastOne s 0))
  | .report pid =>
    inferInstanceAs (Decidable (∀ child ∈ s.children.find? (·.pid == pid), ∀ status ∈ child.news,
      status.terminated = true ∧ LastOne s pid ∧ ∀ slot ∈ s.running, slot.pgrp = pid → FirstNames s slot ∧
        ¬ (status.termId = 130 ∧ slot.stopping = true ∧ status.text = "exited".toList)))
  | .interrupted _ | .signal _ | .news _ _ | .leave _ => isTrue trivial

end names

def State.cells (s : State) : List (Nat × Option CollEntry) :=
  s.running.map fun slot => (slot.pgrp, slot.cmd)

structure Story (s : State) (h : History) : Prop where
  truthful : Truthful s h
  tracked : Tracked s
  children : h.live.map Prod.fst = s.children.map (·.pid)
  nodup : (h.live.map Prod.fst).Nodup
  pids : ∀ x ∈ h.live, x.1 ≠ 0
  slots : ∀ cell ∈ s.cells, cell.1 ≠ 0 → ∃ cmd, cell.2 = some cmd ∧ (cell.1, cmd) ∈ h.live
  used : ∀ x ∈ h.live, x.1 ∈ s.pgrps
  first : s.cmd = none → h.live = []
  polls : s.pc ≠ .wait

section story
variable {o : Opts} {coll : List CollEntry} {s t : State} {h : History}

theorem cells_pgrps (s : State) : s.cells.map Prod.fst = s.pgrps := by
  rw [State.cells, State.pgrps, List.map_map]
  rfl

theorem cells_cmd (s : State) : s.cmd = s.cells.head?.bind Prod.snd := by
  rw [State.cmd, State.cells, List.head?_map]
  cases s.running.head? with
  | none => rfl
  | some slot => rfl

theorem Story.keep (story : Story s h) (tracked : Tracked t) (cells : t.cells = s.cells)
    (children : t.children.map (·.pid) = s.children.map (·.pid)) (log : t.log = s.log)
    (failcnt : t.failcnt = s.failcnt) (polls : t.pc ≠ .wait) (ended : t.pc.gone → h.live = []) :
    Story t h := by
  obtain ⟨⟨lines, failures, each, _⟩, _, live, nodup, pids, slots, used, first, _⟩ := story
  refine ⟨⟨?_, ?_, each, ended⟩, tracked, ?_, nodup, pids, ?_, ?_, ?_, polls⟩
  · rw [log]
    exact lines
  · rw [failcnt]
    exact failures
  · rw [children]
    exact live
  · rw [cells]
    exact slots
  · rw [← cells_pgrps, cells, cells_pgrps]
    exact used
  · rw [cells_cmd, cells, ← cells_cmd]
    exact first

theorem Story.took {i p : Nat} {colle : CollEntry} (story : Story s h) (found : s.freeSlot = some i)
    (cells : t.cells = s.cells.set i (p, some colle)) : t.cmd ≠ none := by
  obtain ⟨inside, _, before⟩ := List.findIdx?_eq_some_iff_getElem.mp found
  rw [cells_cmd, cells]
  cases running : s.running with
  | nil =>
    rw [running] at inside
    exact absurd inside (Nat.not_lt_zero _)
  | cons slot rest =>
    have all : s.cells = (slot.pgrp, slot.cmd) :: rest.map fun slot => (slot.pgrp, slot.cmd) := by
      rw [State.cells, running]
      rfl
    cases i with
    | zero =>
      rw [all]
      nofun
    | succ i =>
      have busy : slot.pgrp ≠ 0 := by
        have earlier := before 0 (Nat.zero_lt_succ i)
        simp only [running, List.getElem_cons_zero] at earlier
        simpa using earlier
      obtain ⟨cmd, command, _⟩ := story.slots (slot.pgrp, slot.cmd) (by rw [all]; exact .head _) busy
      rw [all, List.set_cons_succ]
      simp only at command
      simp [command]

theorem set_free_pgrps {i : Nat} {colle : CollEntry} (found : s.freeSlot = some i)
    (cells : t.cells = s.cells.set i (0, some colle)) : t.pgrps = s.pgrps := by
  rw [← cells_pgrps, cells, List.map_set, cells_pgrps]
  exact set_same (free_slot found)

theorem Story.tried {i : Nat} {colle : CollEntry} (story : Story s h) (found : s.freeSlot = some i)
    (tracked : Tracked t) (cells : t.cells = s.cells.set i (0, some colle))
    (children : t.children = s.children) (polls : t.pc ≠ .wait) {h' : History}
    (live : h'.live = h.live) (truthful : Truthful t h') : Story t h' := by
  refine ⟨truthful, tracked, ?_, ?_, ?_, ?_, ?_, ?_, polls⟩
  · rw [live, children]
    exact story.children
  · rw [live]
    exact story.nodup
  · rw [live]
    exact story.pids
  · intro cell member busy
    rw [cells] at member
    rw [live]
    rcases List.mem_or_eq_of_mem_set member with old | rfl
    · exact story.slots cell old busy
    · exact absurd rfl busy
  · rw [live, set_free_pgrps found cells]
    exact story.used
  · intro none
    exact absurd none (story.took found cells)

theorem mem_set_of_ne {α : Type} {l : List α} {i : Nat} {a b x : α} (member : x ∈ l)
    (here : l[i]? = some a) (other : x ≠ a) : x ∈ l.set i b := by
  obtain ⟨j, inside, rfl⟩ := List.mem_iff_getElem.mp member
  have apart : i ≠ j := by
    rintro rfl
    rw [List.getElem?_eq_getElem inside] at here
    exact other (Option.some.inj here)
  refine List.mem_iff_getElem.mpr ⟨j, by rwa [List.length_set], ?_⟩
  exact List.getElem_set_ne apart _

theorem Story.ran {i pid : Nat} {colle : CollEntry} (story : Story s h) (found : s.freeSlot = some i)
    (tracked : Tracked t) (new : fresh s.children pid = true)
    (cells : t.cells = s.cells.set i (pid, some colle))
    (children : t.children = s.children ++ [newChild pid]) (log : t.log = s.log)
    (failcnt : t.failcnt = s.failcnt) (pc : t.pc = .schedule) :
    Story t { h with started := h.started ++ [colle], live := h.live ++ [(pid, colle)] } := by
  obtain ⟨lines, failures, each, _⟩ := story.truthful
  refine ⟨⟨?_, ?_, ?_, ?_⟩, tracked, ?_, ?_, ?_, ?_, ?_, ?_, ?_⟩
  · rw [log]
    exact lines
  · rw [failcnt]
    exact failures
  · rw [List.map_append, ← List.append_assoc]
    exact each.append_right _
  · rw [pc]
    exact False.elim
  · rw [children, List.map_append, List.map_append, story.children]
    rfl
  · rw [List.map_append]
    refine List.nodup_append.mpr ⟨story.nodup, List.nodup_singleton _, ?_⟩
    intro p member q last same
    rw [story.children] at member
    obtain ⟨child, inside, rfl⟩ := List.mem_map.mp member
    exact fresh_absent new child inside (same.trans (List.mem_singleton.mp last))
  · intro x member
    rcases List.mem_append.mp member with old | last
    · exact story.pids x old
    · rw [List.mem_singleton.mp last]
      exact fresh_nonzero new
  · intro cell member busy
    rw [cells] at member
    rcases List.mem_or_eq_of_mem_set member with old | rfl
    · obtain ⟨cmd, command, runs⟩ := story.slots cell old busy
      exact ⟨cmd, command, List.mem_append_left _ runs⟩
    · exact ⟨colle, rfl, List.mem_append_right _ (List.mem_singleton_self _)⟩
  · have slots : t.pgrps = s.pgrps.set i pid := by
      rw [← cells_pgrps, cells, List.map_set, cells_pgrps]
    have free := free_slot found
    rw [slots]
    intro x member
    rcases List.mem_append.mp member with old | last
    · exact mem_set_of_ne (story.used x old) free (story.pids x old)
    · rw [List.mem_singleton.mp last]
      exact List.mem_set (List.getElem?_eq_some_iff.mp free).1 _
  · intro none
    exact absurd none (story.took found cells)
  · rw [pc]
    nofun

theorem zero_exit {status : Status} (terminated : status.terminated = true) :
    status.zeroExit = decide (status.termId = 0) := by
  cases status with
  | exited code => rfl
  | signaled sig =>
    have positive := sig.2
    exact (decide_eq_false (by change ¬ sig.1 = 0; omega)).symm
  | stopped sig => cases terminated
  | continued => cases terminated

theorem Truthful.add {name : Str} {cmd : CollEntry} {status : Status} {h' : History}
    (truthful : Truthful s h) (terminated : status.terminated = true)
    (called : CalledBy cmd.name name)
    (log : t.log = s.log ++ [.result name (if status.termId ≠ 0 then "FAIL" else "PASS").toList status.termId])
    (failcnt : t.failcnt = s.failcnt + if status.termId ≠ 0 then 1 else 0)
    (done : h'.done = h.done ++ [(cmd, status)])
    (each : List.Perm h'.started (h'.done.map Prod.fst ++ h'.live.map Prod.snd))
    (ended : t.pc.gone → h'.live = []) : Truthful t h' := by
  have zero := zero_exit terminated
  refine ⟨?_, ?_, each, ended⟩
  · rw [log, done]
    refine List.rel_append truthful.lines (.cons ⟨name, called, ?_⟩ .nil)
    rw [zero]
    by_cases none : status.termId = 0
    · simp [none]
    · simp [none]
  · rw [failcnt, done, List.countP_append, truthful.failures, List.countP_singleton, zero]
    by_cases none : status.termId = 0
    · simp [none]
    · simp [none]

theorem modify_cells {i : Nat} {f : Slot → Slot} {cell : Nat × Option CollEntry}
    (all : ∀ slot ∈ s.running[i]?, ((f slot).pgrp, (f slot).cmd) = cell) :
    (s.running.modify i f).map (fun slot => (slot.pgrp, slot.cmd)) = s.cells.set i cell := by
  apply List.ext_getElem?
  intro j
  rw [List.getElem?_map, List.getElem?_modify, List.getElem?_set, State.cells, List.getElem?_map]
  by_cases here : i = j
  · subst here
    by_cases inside : i < s.running.length
    · have one := all s.running[i] (List.getElem?_eq_getElem inside)
      simp [inside, one]
    · simp [inside]
  · simp [here]

theorem command_cells {i : Nat} (colle : CollEntry) (found : s.freeSlot = some i) :
    (s.running.modify i ({ · with cmd := some colle })).map (fun slot => (slot.pgrp, slot.cmd)) =
      s.cells.set i (0, some colle) := by
  refine modify_cells ?_
  intro slot here
  obtain ⟨inside, empty, _⟩ := List.findIdx?_eq_some_iff_getElem.mp found
  rw [List.getElem?_eq_getElem inside] at here
  obtain rfl := Option.some.inj here
  rw [Prod.mk.injEq]
  exact ⟨by simpa using empty, rfl⟩

theorem launch_story {draw : Nat} {result : Launch} (logs : o.logfile = true)
    (formatted : o.fmtPrint = true) (story : Story s h) (pc : s.pc = .schedule)
    (launched : launch o coll draw result s = some t) (tracked : Tracked t)
    (fine : Reportable o (.launch draw result) s) :
    Story t (h.next o coll (.launch draw result) s) := by
  have going : ∀ u : State, u.pc = .schedule → u.pc.gone → h.live = [] := by
    intro u here gone
    rw [here] at gone
    exact gone.elim
  rw [launch] at launched
  split at launched
  · rename_i allowed
    obtain ⟨i, found, launched⟩ := Option.bind_eq_some_iff.mp launched
    obtain ⟨colle, here, launched⟩ := Option.bind_eq_some_iff.mp launched
    obtain rfl := Option.some.inj launched
    have named : coll[s.next o coll draw]? = some colle := here
    simp only [History.next, named]
    have polls : ∀ u : State, u.pc = s.pc → u.pc ≠ .wait := by
      intro u same
      rw [same, pc]
      rintro ⟨⟩
    cases result with
    | noOutput | noPipe => exact story.keep tracked rfl rfl rfl rfl (polls _ rfl) (going _ pc)
    | noFork =>
      refine story.tried found tracked (command_cells colle found) rfl (polls _ rfl) rfl ?_
      obtain ⟨lines, failures, each, _⟩ := story.truthful
      exact ⟨lines, failures, each, going _ pc⟩
    | garbled => cases fine
    | failed status left =>
      cases left with
      | some pid => cases fine
      | none =>
        refine story.tried found tracked (command_cells colle found) (List.append_nil _) (polls _ rfl)
          rfl ?_
        have terminated : status.terminated = true := allowed.2.2
        refine story.truthful.add terminated (Or.inl rfl) ?_ ?_ rfl ?_ (going _ pc)
        · simp only [afterRun, runChild, logs, formatted, Bool.not_true, Bool.false_eq_true, if_false]
        · simp only [afterRun, runChild, logs, formatted, true_and]
        · simp only [History.start, List.map_append, List.map_cons, List.map_nil]
          refine (story.truthful.each.append_right [colle]).trans ?_
          rw [List.append_assoc, List.append_assoc]
          exact (List.perm_append_comm).append_left _
    | started pid =>
      exact story.ran found tracked allowed.2.2 (modify_cells fun _ _ => rfl) rfl rfl rfl pc
  · cases launched

theorem finish_pc (o : Opts) (err : Int) (s : State) :
    (finish o err s).pc = .schedule ∨ (finish o err s).pc = .exited ∧ s.stop ≠ 0 ∧ s.numActive = 0 := by
  have test : ∀ u : State, u.stop = s.stop → u.numActive = s.numActive →
      u.exitTest.pc = .schedule ∨ u.exitTest.pc = .exited ∧ s.stop ≠ 0 ∧ s.numActive = 0 := by
    intro u stop count
    rw [State.exitTest]
    split
    · rename_i ends
      rw [stop, count] at ends
      exact Or.inr ⟨rfl, ends⟩
    · split
      · exact Or.inl rfl
      · exact Or.inl rfl
  rw [finish]
  split
  · exact test s rfl rfl
  · obtain ⟨_, _, _, _, _, same⟩ := on_error_frame o s
    rw [same]
    exact test _ rfl rfl

theorem on_signal_cells (s : State) : s.onSignal.cells = s.cells := by
  rw [State.onSignal]
  split
  · rfl
  · simp only [State.cells]
    split
    · rfl
    · rw [List.map_map]
      apply List.map_congr_left
      intro slot _
      simp only [Function.comp_apply]
      split
      · rfl
      · rfl

theorem on_signal_log (s : State) : s.onSignal.log = s.log ∧ s.onSignal.failcnt = s.failcnt := by
  rw [State.onSignal]
  split
  · exact ⟨rfl, rfl⟩
  · exact ⟨rfl, rfl⟩

theorem Story.quiet {u : State} (story : Story s h) (tracked : Tracked t)
    (frame : u.running = s.running ∧ u.children = s.children ∧ u.log = s.log ∧ u.failcnt = s.failcnt)
    (same : t.cells = u.cells ∧ t.children = u.children ∧ t.log = u.log ∧ t.failcnt = u.failcnt)
    (polls : t.pc ≠ .wait) (ended : t.pc.gone → h.live = []) : Story t h := by
  obtain ⟨running, children, log, failcnt⟩ := frame
  obtain ⟨cells, children', log', failcnt'⟩ := same
  refine story.keep tracked ?_ ?_ (log'.trans log) (failcnt'.trans failcnt) polls ended
  · rw [cells, State.cells, running, State.cells]
  · rw [children', children]

theorem turn_story {stopFile : Bool} (logs : o.logfile = true) (story : Story s h)
    (turned : turn o stopFile s = some t) (tracked : Tracked t) : Story t h := by
  rw [turn] at turned
  split at turned
  · cases turned
  · obtain rfl := Option.some.inj turned
    have aborted : ∀ u : State, u = (if s.wantsStart o ∧ !s.held then s.abort else s) →
        u.running = s.running ∧ u.children = s.children ∧ u.log = s.log ∧ u.failcnt = s.failcnt := by
      rintro u rfl
      split
      · obtain ⟨_, _, _, same⟩ := wait_handler_frame s sigint
        rw [State.abort, same]
        exact ⟨rfl, rfl, rfl, rfl⟩
      · exact ⟨rfl, rfl, rfl, rfl⟩
    have frame := aborted _ rfl
    generalize (if s.wantsStart o ∧ !s.held then s.abort else s) = u at frame tracked ⊢
    have stops : ∀ v : State, v = (if u.starts = 0 ∨ (u.starts = -1 ∧ stopFile) then
        { u with stop := u.stop + 1 } else u) →
        v.running = s.running ∧ v.children = s.children ∧ v.log = s.log ∧ v.failcnt = s.failcnt := by
      rintro v rfl
      split
      · exact frame
      · exact frame
    have frame' := stops _ rfl
    generalize (if u.starts = 0 ∨ (u.starts = -1 ∧ stopFile) then
        { u with stop := u.stop + 1 } else u) = v at frame' tracked ⊢
    have cmd : v.onSignal.cmd = s.cmd := by
      rw [cells_cmd, on_signal_cells, State.cells, frame'.1, ← State.cells, ← cells_cmd]
    have check : (v.onSignal.checkPc o) ≠ .wait ∧ ((v.onSignal.checkPc o).gone → h.live = []) := by
      rw [State.checkPc, logs, cmd]
      simp only [Bool.not_true, Bool.false_eq_true, if_false]
      split
      · exact ⟨by rintro ⟨⟩, False.elim⟩
      · rename_i none
        exact ⟨by rintro ⟨⟩, fun _ => story.first (by simpa using none)⟩
    exact story.quiet tracked frame'
      ⟨on_signal_cells v, (on_signal_frame v).2, (on_signal_log v).1, (on_signal_log v).2⟩
      check.1 check.2

theorem still_story {i pcnt : Nat} (story : Story s h) (pc : s.pc = .poll i pcnt)
    (tracked : Tracked (pollAgain o i pcnt s)) (fine : Reportable o .still s) :
    Story (pollAgain o i pcnt s) h := by
  have early : s.late = false := fine
  simp only [State.late, pc, decide_eq_false_iff_not] at early
  have again : pollAgain o i pcnt s =
      { s with pc := .poll (if i + 1 < s.running.length then i + 1 else 0) (pcnt + 1) } := by
    rw [pollAgain, if_neg early]
  rw [again] at tracked ⊢
  exact story.keep tracked rfl rfl rfl rfl (by rintro ⟨⟩) False.elim

theorem Story.last {pid : Nat} (story : Story s h) (last : LastOne s pid) (stop : s.stop ≠ 0)
    (one : s.numActive = 1) : ∀ x ∈ h.live, x.1 = pid := by
  intro x member
  exact (last stop one x.1 (story.used x member)).resolve_left (story.pids x member)

theorem no_child_story {i : Nat} {slot : Slot} (story : Story s h) (here : s.running[i]? = some slot)
    (unasked : s.children.all (!·.asked slot.pgrp) = true)
    (tracked : Tracked (finish o 0 (failSlot o i s))) (fine : Reportable o .noChild s) :
    Story (finish o 0 (failSlot o i s)) h := by
  have inside : slot ∈ s.running := List.mem_of_getElem? here
  have free : slot.pgrp = 0 := by
    by_contra busy
    obtain ⟨child, mem, same⟩ :=
      story.tracked.alive slot.pgrp (List.mem_map.mpr ⟨slot, inside, rfl⟩) busy
    have silent := List.all_eq_true.mp unasked child mem
    simp [Child.asked, busy, same] at silent
  have cells : (failSlot o i s).cells = s.cells := by
    have here' : s.cells[i]? = some (0, slot.cmd) := by
      rw [State.cells, List.getElem?_map, here, Option.map_some, free]
    have marked : (failSlot o i s).cells = s.cells.set i (0, slot.cmd) := by
      refine modify_cells ?_
      intro slot' there
      rw [here] at there
      obtain rfl := Option.some.inj there
      rfl
    obtain ⟨bound, same⟩ := List.getElem?_eq_some_iff.mp here'
    rw [marked, ← same, List.set_getElem_self]
  have log : (failSlot o i s).log = s.log := by
    simp only [failSlot, fine.1, Bool.false_eq_true, if_false, List.append_nil]
  have ends := finish_pc o 0 (failSlot o i s)
  obtain ⟨_, _, _, _, _, pc', same⟩ := finish_frame o 0 (failSlot o i s)
  rw [same] at ends tracked ⊢
  refine story.keep tracked cells rfl log rfl ?_ ?_
  · rcases ends with going | ⟨exited, _⟩
    · rw [going]
      nofun
    · rw [exited]
      nofun
  · rcases ends with going | ⟨_, stop, count⟩
    · rw [going]
      exact False.elim
    · intro _
      have one : s.numActive = 1 := by
        have zero : s.numActive - 1 = 0 := count
        omega
      rw [List.eq_nil_iff_forall_not_mem]
      intro x member
      exact story.pids x member (story.last fine.2 stop one x member)

theorem end_slot_log (logs : o.logfile = true) (formatted : o.fmtPrint = true) {i : Nat} {slot : Slot}
    {status : Status} {ret : Int}
    (kept : ¬ (status.termId = 130 ∧ slot.stopping = true ∧ status.text = "exited".toList)) :
    (endSlot o i slot status ret s).1.log = s.log ++ [.result (oricom s.name)
        (if status.termId ≠ 0 then "FAIL" else "PASS").toList status.termId] ∧
      (endSlot o i slot status ret s).1.failcnt = s.failcnt + if status.termId ≠ 0 then 1 else 0 := by
  constructor
  · simp only [endSlot, if_neg kept, logs, formatted, Bool.not_true, Bool.false_eq_true, if_false]
  · simp only [endSlot, if_neg kept, logs, formatted, true_and]

theorem end_slot_cells {i : Nat} {slot : Slot} {status : Status} {ret : Int} :
    (endSlot o i slot status ret s).1.cells = s.cells.set i (0, slot.cmd) := by
  simp only [endSlot, State.cells, List.map_set]

theorem Story.slot {pid : Nat} {cmd : CollEntry} (story : Story s h) (runs : (pid, cmd) ∈ h.live) :
    ∃ i slot, s.running.findIdx? (·.pgrp == pid) = some i ∧ s.running[i]? = some slot ∧
      slot.pgrp = pid ∧ slot.cmd = some cmd := by
  have inside := story.used _ runs
  cases found : s.running.findIdx? (·.pgrp == pid) with
  | none =>
    obtain ⟨slot, member, same⟩ := List.mem_map.mp inside
    have other := List.findIdx?_eq_none_iff.mp found slot member
    rw [same] at other
    simp at other
  | some i =>
    obtain ⟨bound, same, _⟩ := List.findIdx?_eq_some_iff_getElem.mp found
    have here : s.running[i]? = some s.running[i] := List.getElem?_eq_getElem bound
    have pgrp : s.running[i].pgrp = pid := by simpa using same
    have cell : (s.running[i].pgrp, s.running[i].cmd) ∈ s.cells :=
      List.mem_map.mpr ⟨_, List.getElem_mem bound, rfl⟩
    have busy : s.running[i].pgrp ≠ 0 := by
      rw [pgrp]
      exact story.pids _ runs
    obtain ⟨cmd', command, runs'⟩ := story.slots _ cell busy
    have one : cmd' = cmd := by
      have pairs := List.inj_on_of_nodup_map story.nodup runs' runs pgrp
      exact (Prod.mk.inj pairs).2
    exact ⟨i, s.running[i], rfl, here, pgrp, by rw [← one]; exact command⟩

theorem live_split {live : List (Nat × CollEntry)} {pid : Nat} {cmd : CollEntry}
    (nodup : (live.map Prod.fst).Nodup) (runs : (pid, cmd) ∈ live) :
    live.filter (·.1 == pid) = [(pid, cmd)] ∧ List.Perm live ((pid, cmd) :: live.filter (·.1 != pid)) := by
  induction live with
  | nil => cases runs
  | cons x live ih =>
    obtain ⟨fresh_pid, rest⟩ := List.nodup_cons.mp nodup
    rcases List.mem_cons.mp runs with rfl | later
    · have others : ∀ y ∈ live, y.1 ≠ pid := by
        intro y member same
        exact fresh_pid (List.mem_map.mpr ⟨y, member, same⟩)
      have none : live.filter (·.1 == pid) = [] :=
        List.filter_eq_nil_iff.mpr fun y member => by simpa using others y member
      have all : live.filter (·.1 != pid) = live :=
        List.filter_eq_self.mpr fun y member => by simpa using others y member
      exact ⟨by simp [none], by simp [all]⟩
    · have other : x.1 ≠ pid := by
        intro same
        exact fresh_pid (List.mem_map.mpr ⟨(pid, cmd), later, same.symm⟩)
      obtain ⟨one, split⟩ := ih rest later
      constructor
      · rw [List.filter_cons_of_neg (by simpa using other), one]
      · rw [List.filter_cons_of_pos (by simpa using other)]
        exact (split.cons x).trans (List.Perm.swap _ _ _)

theorem set_cmd {i p p' : Nat} {cmd : Option CollEntry} (here : s.cells[i]? = some (p, cmd))
    (cells : t.cells = s.cells.set i (p', cmd)) : t.cmd = s.cmd := by
  rw [cells_cmd, cells, cells_cmd s]
  cases all : s.cells with
  | nil => rfl
  | cons cell rest =>
    rw [all] at here
    cases i with
    | zero =>
      obtain rfl := Option.some.inj here
      rfl
    | succ i => rfl

theorem Story.freed {i pid : Nat} {cmd : CollEntry} {status : Status} {name : Str}
    (story : Story s h) (runs : (pid, cmd) ∈ h.live) (terminated : status.terminated = true)
    (called : CalledBy cmd.name name) (tracked : Tracked t)
    (cell : s.cells[i]? = some (pid, some cmd)) (cells : t.cells = s.cells.set i (0, some cmd))
    (cleared : t.pgrps = clear pid s.pgrps)
    (children : t.children = s.children.filter (·.pid != pid))
    (log : t.log = s.log ++ [.result name (if status.termId ≠ 0 then "FAIL" else "PASS").toList status.termId])
    (failcnt : t.failcnt = s.failcnt + if status.termId ≠ 0 then 1 else 0)
    (polls : t.pc ≠ .wait) (gone : t.pc.gone → h.live.filter (·.1 != pid) = []) :
    Story t (h.finish pid status) := by
  obtain ⟨one, others⟩ := live_split story.nodup runs
  have pgrps : t.pgrps = s.pgrps.set i 0 := by
    rw [← cells_pgrps, cells, List.map_set, cells_pgrps]
  refine ⟨story.truthful.add terminated called log failcnt ?_ ?_ gone, tracked, ?_, ?_, ?_, ?_, ?_, ?_, polls⟩
  · simp only [History.finish, one, List.map_cons, List.map_nil]
  · simp only [History.finish, one, List.map_append, List.map_cons, List.map_nil, List.append_assoc]
    exact story.truthful.each.trans ((others.map Prod.snd).append_left _)
  · have left : (h.live.filter (·.1 != pid)).map Prod.fst = (h.live.map Prod.fst).filter (· != pid) := by
      rw [List.filter_map]
      rfl
    have right : (s.children.filter (·.pid != pid)).map (·.pid) = (s.children.map (·.pid)).filter (· != pid) := by
      rw [List.filter_map]
      rfl
    rw [History.finish, left, children, right, story.children]
  · exact story.nodup.sublist (List.filter_sublist.map _)
  · intro x member
    exact story.pids x (List.mem_filter.mp member).1
  · intro cell' member busy
    -- the slots hold the number of the child no longer
    have apart : cell'.1 ≠ pid := by
      rintro rfl
      have absent := cleared_absent story.tracked.distinct busy
      rw [← cleared, ← cells_pgrps] at absent
      exact absent (List.mem_map.mpr ⟨cell', member, rfl⟩)
    rw [cells] at member
    rcases List.mem_or_eq_of_mem_set member with old | rfl
    · obtain ⟨cmd', command', runs'⟩ := story.slots cell' old busy
      exact ⟨cmd', command', List.mem_filter.mpr ⟨runs', by simpa using apart⟩⟩
    · exact absurd rfl busy
  · intro x member
    obtain ⟨runs', apart⟩ := List.mem_filter.mp member
    have held : s.pgrps[i]? = some pid := by
      rw [← cells_pgrps, List.getElem?_map, cell]
      rfl
    rw [pgrps]
    exact mem_set_of_ne (story.used x runs') held (by simpa using apart)
  · intro none
    rw [story.first ((set_cmd cell cells).symm.trans none)] at runs
    cases runs

theorem report_story {pid : Nat} (logs : o.logfile = true) (formatted : o.fmtPrint = true)
    (story : Story s h) (stepped : step o coll (.report pid) s = some t)
    (fine : Reportable o (.report pid) s) : Story t (h.next o coll (.report pid) s) := by
  have tracked := tracked_step story.tracked stepped
  obtain ⟨_, _, _, _, _, cleared, _, _⟩ := report_effect stepped
  cases step_cases stepped with
  | @report _ child status found heard =>
    obtain ⟨terminated, last, named⟩ := fine child found status (child_report heard)
    have history : h.next o coll (.report pid) s = h.finish pid status := by
      simp only [History.next, found, Option.bind_some, heard, terminated, if_true]
    rw [history]
    have listed : pid ∈ h.live.map Prod.fst := by
      rw [story.children]
      exact List.mem_map.mpr ⟨child, List.mem_of_find?_eq_some found, find_pid found⟩
    obtain ⟨⟨p, cmd⟩, runs, own⟩ := List.mem_map.mp listed
    rw [show p = pid from own] at runs
    obtain ⟨i, slot, place, here, pgrp, command⟩ := story.slot runs
    obtain ⟨names, kept⟩ := named slot (List.mem_of_getElem? here) pgrp
    obtain ⟨name, leaves, called, _⟩ := names cmd command
    have cell : s.cells[i]? = some (pid, some cmd) := by
      rw [State.cells, List.getElem?_map, here, Option.map_some, pgrp, command]
    have result : ended o pid status { s with children := reported pid status s.children } =
        endSlot o i slot status status.ret
          { s with children := reported pid status s.children, numActive := s.numActive - 1 } := by
      simp only [ended, terminated, if_true, place, here]
    rw [result] at tracked cleared ⊢
    obtain ⟨log, failcnt⟩ := @end_slot_log o
      { s with children := reported pid status s.children, numActive := s.numActive - 1 } logs formatted
      i slot status status.ret kept
    have cells := @end_slot_cells o
      { s with children := reported pid status s.children, numActive := s.numActive - 1 } i slot status
      status.ret
    obtain ⟨_, count, children⟩ := end_slot_frame o i slot status status.ret
      { s with children := reported pid status s.children, numActive := s.numActive - 1 }
    have stop : (endSlot o i slot status status.ret
      { s with children := reported pid status s.children, numActive := s.numActive - 1 }).1.stop = s.stop := rfl
    generalize endSlot o i slot status status.ret
      { s with children := reported pid status s.children, numActive := s.numActive - 1 } = r at *
    rw [command] at cells
    have log : r.1.log = s.log ++ [.result name
        (if status.termId ≠ 0 then "FAIL" else "PASS").toList status.termId] := by
      rw [← show oricom s.name = name from leaves_iff.mp leaves]
      exact log
    have children : r.1.children = s.children.filter (·.pid != pid) := by
      rw [children]
      exact if_pos terminated
    have ends := finish_pc o r.2 r.1
    obtain ⟨_, _, _, _, _, pc, same⟩ := finish_frame o r.2 r.1
    rw [same] at ends tracked cleared ⊢
    refine story.freed runs terminated called tracked cell cells cleared children log failcnt ?_ ?_
    · rcases ends with going | ⟨exited, _⟩
      · change pc ≠ .wait
        rw [show pc = .schedule from going]
        rintro ⟨⟩
      · change pc ≠ .wait
        rw [show pc = .exited from exited]
        rintro ⟨⟩
    · rcases ends with going | ⟨_, stops, zero⟩
      · rw [show pc = .schedule from going]
        exact False.elim
      · intro _
        have last_one : s.numActive = 1 := by
          have none_left : s.numActive - 1 = 0 := count.symm.trans zero
          omega
        refine List.filter_eq_nil_iff.mpr fun x member => ?_
        simpa using story.last last (by rw [← stop]; exact stops) last_one x member

theorem step_story {act : Act} (logs : o.logfile = true) (formatted : o.fmtPrint = true)
    (story : Story s h) (stepped : step o coll act s = some t) (fine : Reportable o act s) :
    Story t (h.next o coll act s) := by
  have tracked := tracked_step story.tracked stepped
  cases step_cases stepped with
  | launch pc launched => exact launch_story logs formatted story pc launched tracked fine
  | turn pc turned => exact turn_story logs story turned tracked
  | report found heard => exact report_story logs formatted story stepped fine
  | still pc here some_asked silent => exact still_story story pc tracked fine
  | failed pc here unasked => exact no_child_story story here unasked tracked fine
  | childless pc empty => exact absurd pc story.polls
  | interrupted pc some_child => exact absurd pc story.polls
  | signal sig =>
    obtain ⟨_, _, _, same⟩ := wait_handler_frame s sig
    rw [same] at tracked ⊢
    exact story.keep tracked rfl rfl rfl rfl story.polls story.truthful.ended
  | @news pid child status found lives =>
    exact story.keep tracked rfl (update_pids (f := ({ · with news := some status })) (fun _ => rfl) _)
      rfl rfl story.polls story.truthful.ended
  | leave pid =>
    exact story.keep tracked rfl (update_pids (f := ({ · with inGroup := false })) (fun _ => rfl) _)
      rfl rfl story.polls story.truthful.ended

theorem initial_story (o : Opts) (starts : Int) (forkInRoad : Bool) :
    Story (initial o starts forkInRoad) ⟨[], [], []⟩ := by
  refine ⟨⟨.nil, rfl, .nil, fun _ => rfl⟩, initial_tracked o starts forkInRoad, rfl, List.nodup_nil, ?_,
    ?_, ?_, fun _ => rfl, by rintro ⟨⟩⟩
  · rintro _ ⟨⟩
  · intro cell member busy
    rw [State.cells, initial, List.map_replicate] at member
    rw [List.eq_of_mem_replicate member] at busy
    exact absurd rfl busy
  · rintro _ ⟨⟩

end story

def formattedLog (keepActive : Nat) : Opts where
  keepActive
  sequential := true
  hasBrakes := false
  trackExitStats := false
  fmtPrint := true
  logfile := true
  failcmdfile := false
  testOutDir := false

end VteScheduler
