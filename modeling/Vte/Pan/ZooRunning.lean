import Mathlib.Algebra.Order.Group.Multiset
import Mathlib.Algebra.Order.Ring.Nat
import Vte.Base.Blocks
import Vte.Pan.SchedulerCount
import Vte.Pan.Zoo

/-!
pan/ltp-pan.c with pan/zoolib.c: pan marks itself, the commands it has started and the process groups that
outlive them in a zoo file which other processes use at the same time. Between two steps of the main loop
`check_orphans` may run, and other processes mark and clear entries of their own.
-/
namespace VteZooRunning
open VteScheduler Machine Text
open VteZoo (Pid Mark Call zooMarkCmdline zooClear zooCall liveMarks)

def must (called : Option (Str × Int)) : Option Str := do
  let (file, ret) ← called
  if ret = 0 then some file else none

def pidOf (pid : Nat) : Pid := BitVec.ofNat 32 pid

/-- How `main` begins: its own mark, and a mark for each command that may run, all cleared again. -/
def startUp (keepActive me : Nat) (panname cmdline file : Str) : Option Str := do
  let file ← must (zooMarkCmdline file (pidOf me) panname cmdline)
  let file ← (List.range keepActive).foldlM (fun file c => must (zooMarkCmdline file (pidOf c) panname [])) file
  (List.range keepActive).foldlM (fun file c => must (zooClear file (pidOf c))) file

structure System where
  sched : State
  /-- the process groups of `struct orphan_pgrp`; 0 is a free one -/
  orphans : List Nat
  file : Str
  /-- the marks of other processes -/
  others : Multiset Pid

def markOrphan (pid : Nat) (orphans : List Nat) : List Nat :=
  if 0 ∈ orphans then orphans.set (orphans.idxOf 0) pid else orphans.take 1 ++ pid :: orphans.drop 1

/-- `gone` are the groups for which `kill` says ESRCH; a failing `zoo_clear` is only reported. -/
def checkOrphans (gone : Nat → Bool) : List Nat → Str → Option (List Nat × Str)
  | [], file => some ([], file)
  | orph :: rest, file => do
    if orph ≠ 0 ∧ gone orph then do
      let (file, _) ← zooClear file (pidOf orph)
      let (rest, file) ← checkOrphans gone rest file
      some (0 :: rest, file)
    else do
      let (rest, file) ← checkOrphans gone rest file
      some (orph :: rest, file)

inductive PanAct where
  /-- a step of pan; `orphaned` says whether the process group of a reported child is still there -/
  | sched (act : Act) (orphaned : Bool)
  | orphans (gone : Nat → Bool)
  | other (c : Call)

def panorphan : Str := ['p', 'a', 'n', 'o', 'r', 'p', 'h', 'a', 'n']

/-- What `check_pids` does in the zoo file when the child of a slot has been reported. -/
def clearEnded (pid : Nat) (slot : Slot) (orphaned : Bool) (s : System) : Option System := do
  let file ← must (zooClear s.file (pidOf pid))
  if orphaned then do
    let cmdline := (slot.cmd.map (·.cmdline)).getD []
    let file ← must (zooMarkCmdline file (pidOf pid) panorphan cmdline)
    some { s with file, orphans := markOrphan pid s.orphans }
  else some { s with file }

def sysStep (o : Opts) (coll : List CollEntry) : PanAct → System → Option System
  | .sched act orphaned, s => do
    let t ← step o coll act s.sched
    let next := { s with sched := t }
    match act with
    | .launch draw (.started pid) => do
      let colle ← coll[s.sched.next o coll draw]?
      let file ← must (zooMarkCmdline s.file (pidOf pid) colle.name colle.cmdline)
      some { next with file }
    | .report pid =>
      match s.sched.running.find? (·.pgrp == pid) with
      | some slot => clearEnded pid slot orphaned next
      | none => some next
    | _ => some next
  | .orphans gone, s => do
    let (orphans, file) ← checkOrphans gone s.orphans s.file
    some { s with orphans, file }
  | .other c, s => do
    let (file, _) ← zooCall s.file c
    match c with
    | .mark m => some { s with file, others := m.pid ::ₘ s.others }
    | .clear p => if p ∈ s.others then some { s with file, others := s.others.erase p } else none

section bag
variable {file : Str} {bag : Multiset Pid}

def Holds (file : Str) (bag : Multiset Pid) : Prop :=
  ∃ slots, file = slots.flatMap VteZoo.Slot.bytes ∧ (liveMarks slots).map (·.pid) = bag

theorem mark_holds (holds : Holds file bag) (m : Mark) :
    ∃ file', zooMarkCmdline file m.pid m.tag m.cmdline = some (file', 0) ∧ Holds file' (m.pid ::ₘ bag) := by
  obtain ⟨slots, rfl, rfl⟩ := holds
  rcases VteZoo.mark_slots slots m with ⟨pre, s, post, rfl, free, ran⟩ | ⟨-, ran⟩
  · refine ⟨_, ran, _, rfl, ?_⟩
    rw [VteZoo.live_marks_insert, ← VteZoo.live_marks_free pre post free, Multiset.map_cons]
  · refine ⟨_, ran, _, rfl, ?_⟩
    rw [VteZoo.live_marks_insert, List.append_nil, Multiset.map_cons]

theorem clear_holds {p : Pid} (holds : Holds file bag) :
    ∃ file', zooClear file p = some (file', if p ∈ bag then 0 else 1) ∧ Holds file' (bag.erase p) := by
  obtain ⟨slots, rfl, rfl⟩ := holds
  rcases VteZoo.clear_slots slots p with ⟨pre, m, post, rfl, rfl, ran⟩ | ⟨others, ran⟩
  · have live : (liveMarks (pre ++ VteZoo.Slot.live m :: post)).map (·.pid) =
        m.pid ::ₘ (liveMarks (pre ++ post)).map (·.pid) := by
      rw [VteZoo.live_marks_insert, Multiset.map_cons]
    rw [live, if_pos (Multiset.mem_cons_self _ _), Multiset.erase_cons_head]
    refine ⟨_, ran, _, rfl, ?_⟩
    rw [VteZoo.live_marks_free pre post (s := VteZoo.cleared m) rfl]
  · have absent : p ∉ (liveMarks slots).map (·.pid) := by
      intro mem
      obtain ⟨m, listed, same⟩ := Multiset.mem_map.mp mem
      exact others m (VteZoo.live_marks_mem.mp listed) same
    rw [if_neg absent, Multiset.erase_of_notMem absent]
    exact ⟨_, ran, slots, rfl, rfl⟩

theorem must_mark (holds : Holds file bag) (m : Mark) :
    ∃ file', must (zooMarkCmdline file m.pid m.tag m.cmdline) = some file' ∧ Holds file' (m.pid ::ₘ bag) := by
  obtain ⟨file', ran, after⟩ := mark_holds holds m
  exact ⟨file', by rw [must, ran]; rfl, after⟩

theorem must_clear {p : Pid} (holds : Holds file (p ::ₘ bag)) :
    ∃ file', must (zooClear file p) = some file' ∧ Holds file' bag := by
  obtain ⟨file', ran, after⟩ := clear_holds (p := p) holds
  rw [if_pos (Multiset.mem_cons_self _ _)] at ran
  rw [Multiset.erase_cons_head] at after
  exact ⟨file', by rw [must, ran]; rfl, after⟩

end bag

def used (ps : List Nat) : Multiset Nat := (ps.filter (· ≠ 0) : List Nat)

section used
variable {ps : List Nat} {i p : Nat}

theorem used_insert (some_pid : p ≠ 0) (pre post : List Nat) :
    used (pre ++ p :: post) = p ::ₘ used (pre ++ post) := by
  simp only [used, List.filter_append, List.filter_cons, some_pid, ne_eq, not_false_iff, decide_true, if_true,
    Multiset.cons_coe]
  exact Multiset.coe_eq_coe.mpr List.perm_middle

theorem used_zero (pre post : List Nat) : used (pre ++ 0 :: post) = used (pre ++ post) := by
  simp [used]

theorem used_take (some_pid : p ≠ 0) (free : ps[i]? = some 0) : used (ps.set i p) = p ::ₘ used ps := by
  obtain ⟨inside, -⟩ := List.getElem?_eq_some_iff.mp free
  conv => rhs; rw [Blocks.split_at ps i 0 free, used_zero]
  rw [List.set_eq_take_append_cons_drop, if_pos inside, used_insert some_pid]

theorem used_clear (some_pid : p ≠ 0) (here : ps[i]? = some p) : used ps = p ::ₘ used (ps.set i 0) := by
  obtain ⟨inside, -⟩ := List.getElem?_eq_some_iff.mp here
  conv => lhs; rw [Blocks.split_at ps i p here, used_insert some_pid]
  rw [List.set_eq_take_append_cons_drop, if_pos inside, used_zero]

theorem mark_orphan_used (some_pid : p ≠ 0) : used (markOrphan p ps) = p ::ₘ used ps := by
  rw [markOrphan]
  split
  · rename_i free
    refine used_take some_pid ?_
    have inside := List.idxOf_lt_length_iff.mpr free
    rw [List.getElem?_eq_getElem inside, List.getElem_idxOf inside]
  · rw [used_insert some_pid, List.take_append_drop]

theorem check_orphans_holds (gone : Nat → Bool) {orphans : List Nat} {file : Str} {rest : Multiset Pid}
    (holds : Holds file ((used orphans).map pidOf + rest)) :
    ∃ orphans' file', checkOrphans gone orphans file = some (orphans', file') ∧
      Holds file' ((used orphans').map pidOf + rest) := by
  induction orphans generalizing file rest with
  | nil => exact ⟨[], file, rfl, holds⟩
  | cons orph orphans ih =>
    rw [checkOrphans]
    split
    · rename_i ended
      have head := used_insert ended.1 [] orphans
      rw [List.nil_append, List.nil_append] at head
      rw [head, Multiset.map_cons, Multiset.cons_add] at holds
      obtain ⟨file', ran, after⟩ := clear_holds (p := pidOf orph) holds
      rw [Multiset.erase_cons_head] at after
      obtain ⟨orphans', file'', checked, last⟩ := ih after
      refine ⟨0 :: orphans', file'', ?_, last⟩
      simp only [ran, checked, Option.bind_eq_bind, Option.bind_some]
    · by_cases free : orph = 0
      · subst free
        obtain ⟨orphans', file', checked, last⟩ := ih holds
        exact ⟨0 :: orphans', file', by rw [checked]; rfl, last⟩
      · have head (l : List Nat) : (used (orph :: l)).map pidOf + rest = (used l).map pidOf + pidOf orph ::ₘ rest := by
          have front := used_insert free [] l
          rw [List.nil_append, List.nil_append] at front
          rw [front, Multiset.map_cons, Multiset.cons_add, Multiset.add_cons]
        rw [head] at holds
        obtain ⟨orphans', file', checked, last⟩ := ih holds
        exact ⟨orph :: orphans', file', by rw [checked]; rfl, (head orphans').symm ▸ last⟩

end used

section commands
variable {o : Opts} {coll : List CollEntry} {act : Act} {s t : State}

def cmds (s : State) : List (Option CollEntry) := s.running.map (·.cmd)

theorem on_signal_cmds (u : State) : cmds u.onSignal = cmds u := by
  rw [State.onSignal]
  split
  · rfl
  · simp only [cmds]
    split
    · rfl
    · rw [List.map_map]
      refine List.map_congr_left fun slot _ => ?_
      simp only [Function.comp_apply]
      split <;> rfl

/-- A step leaves the commands of the slots, or puts one of the collection into a slot. -/
theorem cmds_step (stepped : step o coll act s = some t) :
    cmds t = cmds s ∨ ∃ i, ∃ e ∈ coll, cmds t = (cmds s).set i (some e) := by
  have finished (err : Int) (u : State) : (finish o err u).running = u.running := by
    obtain ⟨_, _, _, _, _, _, same⟩ := finish_frame o err u
    rw [same]
  have handled (u : State) (sig : Nat) : (u.waitHandler sig).running = u.running := by
    obtain ⟨_, _, _, same⟩ := wait_handler_frame u sig
    rw [same]
  cases step_cases stepped with
  | launch pc launched =>
    rw [launch] at launched
    split at launched
    · obtain ⟨i, -, launched⟩ := Option.bind_eq_some_iff.mp launched
      obtain ⟨colle, listed, launched⟩ := Option.bind_eq_some_iff.mp launched
      obtain rfl := Option.some.inj launched
      have put (g : Slot → Slot) (all : ∀ slot, (g slot).cmd = some colle) :
          (s.running.modify i g).map (·.cmd) = (cmds s).set i (some colle) := map_modify_set all
      cases ‹Launch› with
      | noOutput | noPipe | garbled => exact .inl rfl
      | noFork | failed | started => exact .inr ⟨i, colle, List.mem_of_getElem? listed, put _ fun _ => rfl⟩
    · cases launched
  | turn pc turned =>
    rw [turn] at turned
    split at turned
    · cases turned
    · obtain rfl := Option.some.inj turned
      have aborted : (if s.wantsStart o ∧ !s.held then s.abort else s).running = s.running := by
        split
        · exact handled s sigint
        · rfl
      refine .inl ((on_signal_cmds _).trans ?_)
      rw [cmds, cmds, ← aborted]
      generalize (if s.wantsStart o ∧ !s.held then s.abort else s) = u
      split <;> rfl
  | @report pid child status found heard =>
    rw [cmds, finished, ended]
    have counted (v : State) : (if status.terminated then { v with numActive := v.numActive - 1 } else v).running =
        v.running := by
      split <;> rfl
    have same := counted { s with children := reported pid status s.children }
    generalize (if status.terminated then _ else _ : State) = u at same ⊢
    split
    · exact .inl (by rw [same, cmds])
    · split
      · exact .inl (by rw [same, cmds])
      · rename_i slot here
        rw [same] at here
        obtain ⟨inside, rfl⟩ := List.getElem?_eq_some_iff.mp here
        simp only [endSlot, same, List.map_set, cmds]
        rw [← List.map_set, List.set_getElem_self inside]
        exact .inl rfl
  | still pc here some_asked silent =>
    rw [pollAgain]
    split <;> exact .inl rfl
  | failed pc here unasked =>
    rw [cmds, finished]
    exact .inl (map_modify_same fun _ => rfl)
  | childless pc empty => exact .inl (by rw [cmds, finished, cmds])
  | interrupted pc some_child => exact .inl (by rw [cmds, finished, handled, cmds])
  | signal sig => exact .inl (by rw [cmds, handled, cmds])
  | news found lives => exact .inl rfl
  | leave pid => exact .inl rfl

end commands

def Single (e : CollEntry) : Prop := '\n' ∉ e.name ∧ '\n' ∉ e.cmdline

def own (me : Nat) (s : System) : Multiset Pid :=
  pidOf me ::ₘ (used s.sched.pgrps + used s.orphans).map pidOf

structure Shown (me : Nat) (s : System) : Prop where
  holds : Holds s.file (own me s + s.others)
  tracked : Tracked s.sched
  pids : ∀ child ∈ s.sched.children, child.pid ≠ 0
  single : ∀ e, some e ∈ cmds s.sched → Single e

section system
variable {o : Opts} {coll : List CollEntry} {me : Nat} {s s' : System} {act : Act} {t : State}

theorem shown_next (singles : ∀ e ∈ coll, Single e) (shown : Shown me s) (stepped : step o coll act s.sched = some t)
    (s' : System) (sched : s'.sched = t) (holds : Holds s'.file (own me s' + s'.others)) : Shown me s' := by
  subst sched
  refine ⟨holds, tracked_step shown.tracked stepped, effect_pids (step_effect stepped) shown.pids, ?_⟩
  intro e held
  rcases cmds_step stepped with same | ⟨i, colle, listed, put⟩
  · rw [same] at held
    exact shown.single e held
  · rw [put] at held
    rcases List.mem_or_eq_of_mem_set held with old | new
    · exact shown.single e old
    · obtain rfl := Option.some.inj new
      exact singles e listed

/-- Only a started command and a report change the slots in use. -/
theorem used_kept (tracked : Tracked s.sched) (stepped : step o coll act s.sched = some t)
    (no_start : ∀ draw pid, act ≠ .launch draw (.started pid)) (no_report : ∀ pid, act ≠ .report pid) :
    used t.pgrps = used s.sched.pgrps := by
  cases act with
  | launch draw result =>
    cases step_cases stepped with
    | launch pc launched =>
      rw [launch] at launched
      split at launched
      · obtain ⟨i, -, launched⟩ := Option.bind_eq_some_iff.mp launched
        obtain ⟨colle, -, launched⟩ := Option.bind_eq_some_iff.mp launched
        obtain rfl := Option.some.inj launched
        have keeps : (s.sched.running.modify i ({ · with cmd := some colle })).map (·.pgrp) = s.sched.pgrps :=
          map_modify_same fun _ => rfl
        cases result with
        | started pid => exact absurd rfl (no_start draw pid)
        | noFork | failed => exact congrArg used keeps
        | noOutput | noPipe | garbled => rfl
      · cases launched
  | report pid => exact absurd rfl (no_report pid)
  | noChild =>
    rcases no_child_effect stepped with ⟨i, pcnt, pgrp, -, slot, unasked, slots, -, -⟩ | ⟨-, slots, -, -⟩
    · have free : pgrp = 0 := by
        by_contra some_pid
        obtain ⟨child, listed, rfl⟩ := tracked.alive pgrp (List.mem_of_getElem? slot) some_pid
        have asked := unasked child listed
        rw [Child.asked, if_neg some_pid, beq_self_eq_true] at asked
        cases asked
      rw [slots, ← free, set_same slot]
    · rw [slots]
  | turn | still | interrupted | signal => rw [(quiet_step rfl stepped).1]
  | news pid status =>
    cases step_cases stepped with
    | news found lives => rfl
  | leave pid =>
    cases step_cases stepped with
    | leave pid => rfl

theorem started_command {draw pid : Nat} (stepped : step o coll (.launch draw (.started pid)) s.sched = some t) :
    ∃ colle, coll[s.sched.next o coll draw]? = some colle ∧ used t.pgrps = pid ::ₘ used s.sched.pgrps := by
  cases step_cases stepped with
  | launch pc launched =>
    rw [launch] at launched
    split at launched
    · rename_i allowed
      obtain ⟨i, found, launched⟩ := Option.bind_eq_some_iff.mp launched
      obtain ⟨colle, listed, launched⟩ := Option.bind_eq_some_iff.mp launched
      obtain rfl := Option.some.inj launched
      have slots : (s.sched.running.modify i fun _ => ⟨pid, false, some colle⟩).map (·.pgrp) =
          s.sched.pgrps.set i pid := map_modify_set fun _ => rfl
      exact ⟨colle, listed, (congrArg used slots).trans (used_take (fresh_nonzero allowed.2.2) (free_slot found))⟩
    · cases launched

theorem clear_ended {pid : Nat} {slot : Slot} (orphaned : Bool) (some_pid : pid ≠ 0)
    (plain : '\n' ∉ (slot.cmd.map (·.cmdline)).getD []) (holds : Holds s.file (pidOf pid ::ₘ own me s + s.others)) :
    ∃ s', clearEnded pid slot orphaned s = some s' ∧ s'.sched = s.sched ∧ Holds s'.file (own me s' + s'.others) := by
  rw [Multiset.cons_add] at holds
  obtain ⟨file', ended, after⟩ := must_clear holds
  simp only [clearEnded, ended, Option.bind_eq_bind, Option.bind_some]
  cases orphaned with
  | false => exact ⟨{ s with file := file' }, rfl, rfl, after⟩
  | true =>
    obtain ⟨file'', marked, last⟩ := must_mark after ⟨pidOf pid, panorphan, _, by decide, plain⟩
    refine ⟨{ s with file := file'', orphans := markOrphan pid s.orphans }, ?_, rfl, ?_⟩
    · rw [if_pos rfl, marked, Option.bind_some]
    · rw [own, mark_orphan_used some_pid, Multiset.add_cons, Multiset.map_cons, Multiset.cons_swap, Multiset.cons_add]
      exact last

theorem own_cons {p : Nat} {u : System} (slots : used u.sched.pgrps = p ::ₘ used s.sched.pgrps)
    (orphans : u.orphans = s.orphans) : own me u = pidOf p ::ₘ own me s := by
  rw [own, slots, orphans, Multiset.cons_add, Multiset.map_cons, Multiset.cons_swap, own]

/-- Pan's calls do not fail, and leave the marks that its state says. -/
theorem shown_sched (singles : ∀ e ∈ coll, Single e) (shown : Shown me s)
    (stepped : step o coll act s.sched = some t) (orphaned : Bool) :
    ∃ s', sysStep o coll (.sched act orphaned) s = some s' ∧ s'.sched = t ∧ Shown me s' := by
  have holds := shown.holds
  have kept (slots : used t.pgrps = used s.sched.pgrps) : Shown me { s with sched := t } := by
    refine shown_next singles shown stepped _ rfl ?_
    rw [own, slots]
    exact holds
  cases act with
  | launch draw result =>
    cases result with
    | started pid =>
      obtain ⟨colle, listed, slots⟩ := started_command stepped
      have plain := singles colle (List.mem_of_getElem? listed)
      obtain ⟨file', marked, after⟩ := must_mark holds ⟨pidOf pid, colle.name, colle.cmdline, plain.1, plain.2⟩
      refine ⟨⟨t, s.orphans, file', s.others⟩, ?_, rfl, shown_next singles shown stepped _ rfl ?_⟩
      · simp only [sysStep, stepped, listed, marked, Option.bind_eq_bind, Option.bind_some]
      · have more : own me ⟨t, s.orphans, file', s.others⟩ = pidOf pid ::ₘ own me s := own_cons slots rfl
        rw [more, Multiset.cons_add]
        exact after
    | _ =>
      refine ⟨_, ?_, rfl, kept (used_kept shown.tracked stepped (by rintro _ _ ⟨⟩) (by rintro _ ⟨⟩))⟩
      simp only [sysStep, stepped, Option.bind_eq_bind, Option.bind_some]
  | report pid =>
    obtain ⟨child, status, rfl, found, -, slots, -, -⟩ := report_effect stepped
    have some_pid := shown.pids child (List.mem_of_find?_eq_some found)
    simp only [sysStep, stepped, Option.bind_eq_bind, Option.bind_some]
    cases held : s.sched.running.find? (·.pgrp == child.pid) with
    | none =>
      refine ⟨_, rfl, rfl, kept ?_⟩
      rw [slots, clear_absent]
      intro mem
      obtain ⟨slot, listed, same⟩ := List.mem_map.mp mem
      exact absurd (beq_iff_eq.mpr same) (List.find?_eq_none.mp held slot listed)
    | some slot =>
      have listed := List.mem_of_find?_eq_some held
      have same : slot.pgrp = child.pid := by simpa using List.find?_some held
      obtain ⟨i, here, cleared⟩ := clear_present (List.mem_map.mpr ⟨slot, listed, same⟩)
      have fewer : used s.sched.pgrps = child.pid ::ₘ used t.pgrps := by
        rw [slots]
        exact (used_clear some_pid here).trans (by rw [← cleared, State.pgrps])
      have less : own me s = pidOf child.pid ::ₘ own me { s with sched := t } := own_cons fewer rfl
      rw [less] at holds
      have plain : '\n' ∉ (slot.cmd.map (·.cmdline)).getD [] := by
        cases ran : slot.cmd with
        | none => rintro ⟨⟩
        | some e => exact (shown.single e (List.mem_map.mpr ⟨slot, listed, ran⟩)).2
      obtain ⟨s', ended, sched, after⟩ := clear_ended (s := { s with sched := t }) orphaned some_pid plain holds
      exact ⟨s', ended, sched, shown_next singles shown stepped s' sched after⟩
  | _ =>
    refine ⟨_, ?_, rfl, kept (used_kept shown.tracked stepped (by rintro _ _ ⟨⟩) (by rintro _ ⟨⟩))⟩
    simp only [sysStep, stepped, Option.bind_eq_bind, Option.bind_some]

theorem shown_step (singles : ∀ e ∈ coll, Single e) (act : PanAct) (s s' : System) (shown : Shown me s)
    (stepped : sysStep o coll act s = some s') : Shown me s' := by
  have holds := shown.holds
  cases act with
  | sched act orphaned =>
    cases taken : step o coll act s.sched with
    | none =>
      rw [sysStep, taken] at stepped
      cases stepped
    | some t =>
      obtain ⟨next, same, -, after⟩ := shown_sched singles shown taken orphaned
      obtain rfl := Option.some.inj (same.symm.trans stepped)
      exact after
  | orphans gone =>
    rw [own, Multiset.map_add, ← Multiset.cons_add, add_right_comm,
      add_comm _ (Multiset.map _ (used s.orphans))] at holds
    obtain ⟨orphans, file, checked, after⟩ := check_orphans_holds gone holds
    simp only [sysStep, checked, Option.bind_eq_bind, Option.bind_some] at stepped
    obtain rfl := Option.some.inj stepped
    refine ⟨?_, shown.tracked, shown.pids, shown.single⟩
    rw [own, Multiset.map_add, ← Multiset.cons_add, add_right_comm, add_comm _ (Multiset.map _ (used orphans))]
    exact after
  | other c =>
    cases c with
    | mark m =>
      obtain ⟨file, marked, after⟩ := mark_holds holds m
      simp only [sysStep, zooCall, marked, Option.bind_eq_bind, Option.bind_some] at stepped
      obtain rfl := Option.some.inj stepped
      exact ⟨by rw [Multiset.add_cons]; exact after, shown.tracked, shown.pids, shown.single⟩
    | clear p =>
      obtain ⟨file, cleared, after⟩ := clear_holds (p := p) holds
      simp only [sysStep, zooCall, cleared, Option.bind_eq_bind, Option.bind_some] at stepped
      split at stepped
      · rename_i listed
        obtain rfl := Option.some.inj stepped
        rw [Multiset.erase_add_right_pos _ listed] at after
        exact ⟨after, shown.tracked, shown.pids, shown.single⟩
      · cases stepped

theorem start_up_holds (me : Nat) {keepActive : Nat} {panname cmdline file : Str} {bag : Multiset Pid}
    (holds : Holds file bag) (name : '\n' ∉ panname) (args : '\n' ∉ cmdline) :
    ∃ file', startUp keepActive me panname cmdline file = some file' ∧ Holds file' (pidOf me ::ₘ bag) := by
  have marks (cs : List Nat) : ∀ {file : Str} {bag : Multiset Pid}, Holds file bag → ∃ file',
      cs.foldlM (fun file c => must (zooMarkCmdline file (pidOf c) panname [])) file = some file' ∧
        Holds file' ((cs.map pidOf : List Pid) + bag) := by
    induction cs with
    | nil => exact fun holds => ⟨_, rfl, by rwa [List.map_nil, Multiset.coe_nil, zero_add]⟩
    | cons c cs ih =>
      intro file bag holds
      obtain ⟨file', marked, after⟩ := must_mark holds ⟨pidOf c, panname, [], name, by rintro ⟨⟩⟩
      obtain ⟨file'', rest, last⟩ := ih after
      refine ⟨file'', by rw [List.foldlM_cons, marked]; exact rest, ?_⟩
      rwa [List.map_cons, ← Multiset.cons_coe, Multiset.cons_add, ← Multiset.add_cons]
  have clears (cs : List Nat) : ∀ {file : Str} {bag : Multiset Pid}, Holds file ((cs.map pidOf : List Pid) + bag) →
      ∃ file', cs.foldlM (fun file c => must (zooClear file (pidOf c))) file = some file' ∧ Holds file' bag := by
    induction cs with
    | nil =>
      intro file bag holds
      exact ⟨file, rfl, by rwa [List.map_nil, Multiset.coe_nil, zero_add] at holds⟩
    | cons c cs ih =>
      intro file bag holds
      rw [List.map_cons, ← Multiset.cons_coe, Multiset.cons_add] at holds
      obtain ⟨file', cleared, after⟩ := must_clear holds
      obtain ⟨file'', rest, last⟩ := ih after
      exact ⟨file'', by rw [List.foldlM_cons, cleared]; exact rest, last⟩
  obtain ⟨first, marked, after⟩ := must_mark holds ⟨pidOf me, panname, cmdline, name, args⟩
  obtain ⟨second, all, full⟩ := marks (List.range keepActive) after
  obtain ⟨file', cleared, last⟩ := clears (List.range keepActive) full
  exact ⟨file', by simp only [startUp, marked, all, cleared, Option.bind_eq_bind, Option.bind_some], last⟩

/-- In every run the live marks of the zoo file are those of pan, of the commands in its slots, of the orphaned
    process groups and of the other processes; no call of pan fails, and in the end its own mark can be cleared. -/
theorem zoo_shows_running (o : Opts) (coll : List CollEntry) (singles : ∀ e ∈ coll, Single e) (starts : Int)
    (forkInRoad : Bool) (me : Nat) {panname cmdline file : Str} {others : Multiset Pid} (holds : Holds file others)
    (name : '\n' ∉ panname) (args : '\n' ∉ cmdline) :
    ∃ file', startUp o.keepActive me panname cmdline file = some file' ∧ ∀ acts s,
      run (sysStep o coll) acts ⟨initial o starts forkInRoad, [0], file', others⟩ = some s →
        Holds s.file (own me s + s.others) ∧
        (∀ act t orphaned, step o coll act s.sched = some t →
          ∃ s', sysStep o coll (.sched act orphaned) s = some s' ∧ s'.sched = t) ∧
        ∃ file'', must (zooClear s.file (pidOf me)) = some file'' := by
  obtain ⟨file', began, after⟩ := start_up_holds me holds name args
  refine ⟨file', began, fun acts s ran => ?_⟩
  have idle : used (initial o starts forkInRoad).pgrps = 0 := by
    simp [used, initial, State.pgrps]
  have first : Shown me ⟨initial o starts forkInRoad, [0], file', others⟩ := by
    refine ⟨?_, initial_tracked o starts forkInRoad, by rintro _ ⟨⟩, ?_⟩
    · rw [own, idle]
      exact after
    · intro e held
      simp only [cmds, initial, List.map_replicate] at held
      exact absurd (List.eq_of_mem_replicate held) (by rintro ⟨⟩)
  have shown := run_invariant (shown_step singles) first ran
  refine ⟨shown.holds, fun act t orphaned taken => ?_, ?_⟩
  · obtain ⟨s', same, sched, -⟩ := shown_sched singles shown taken orphaned
    exact ⟨s', same, sched⟩
  · have mine := shown.holds
    rw [own, Multiset.cons_add] at mine
    obtain ⟨file'', cleared, -⟩ := must_clear mine
    exact ⟨file'', cleared⟩

def echo : CollEntry := ⟨['e', 'c', 'h', 'o'], ['e', 'c', 'h', 'o', ' ', 'a']⟩

def oneSlot : Opts := ⟨1, false, false, false, true, true, false, false⟩

theorem zoo_shows_echo : ∃ file', startUp 1 100 ['p', 'a', 'n'] [] [] = some file' ∧ ∀ acts s,
    run (sysStep oneSlot [echo]) acts ⟨initial oneSlot 1 false, [0], file', 0⟩ = some s →
      Holds s.file (own 100 s + s.others) := by
  have singles : ∀ e ∈ [echo], Single e := by
    intro e listed
    rw [List.mem_singleton.mp listed]
    exact ⟨by decide, by decide⟩
  have name : '\n' ∉ ['p', 'a', 'n'] := by decide
  have args : '\n' ∉ ([] : Str) := by rintro ⟨⟩
  obtain ⟨file', began, all⟩ := zoo_shows_running oneSlot [echo] singles 1 false 100 ⟨[], rfl, rfl⟩ name args
  exact ⟨file', began, fun acts s ran => (all acts s ran).1⟩

end system

end VteZooRunning
