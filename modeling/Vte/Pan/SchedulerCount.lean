import Mathlib.Data.List.Basic
import Vte.Pan.Scheduler

/-!
pan/ltp-pan.c: the number of active commands against the slots in use. What a step does to the
slots, the counter and the children is said once, and the invariant of a run follows from it.
-/
namespace VteScheduler
open Text

def State.pgrps (s : State) : List Nat := s.running.map (·.pgrp)

def clear (pid : Nat) (ps : List Nat) : List Nat :=
  match ps.findIdx? (· == pid) with
  | some i => ps.set i 0
  | none => ps

def occupied (ps : List Nat) : Nat := ps.countP (· != 0)

section lists
variable {α β : Type} {l : List α} {i : Nat} {f : α → β}

theorem map_modify_same {g : α → α} (same : ∀ a, f (g a) = f a) : (l.modify i g).map f = l.map f := by
  apply List.ext_getElem?
  intro j
  rw [List.getElem?_map, List.getElem?_map, List.getElem?_modify]
  cases l[j]? with
  | none => rfl
  | some a =>
    by_cases here : i = j
    · simp [here, same]
    · simp [here]

theorem map_modify_set {g : α → α} {b : β} (all : ∀ a, f (g a) = b) :
    (l.modify i g).map f = (l.map f).set i b := by
  apply List.ext_getElem?
  intro j
  rw [List.getElem?_map, List.getElem?_modify, List.getElem?_set, List.getElem?_map]
  by_cases here : i = j
  · subst here
    by_cases inside : i < l.length
    · simp [inside, all]
    · simp [inside]
  · simp [here]

end lists

section occupied
variable {ps : List Nat} {i pid : Nat}

theorem occupied_free (some_pid : pid ≠ 0) (here : ps[i]? = some pid) :
    occupied (ps.set i 0) + 1 = occupied ps := by
  obtain ⟨inside, rfl⟩ := List.getElem?_eq_some_iff.mp here
  have positive : 0 < occupied ps := by
    rw [occupied, List.countP_pos_iff]
    exact ⟨ps[i], List.getElem_mem inside, by simpa using some_pid⟩
  have counted := List.countP_set (p := (· != 0)) (a := 0) inside
  simp only [bne_self_eq_false, Bool.false_eq_true, if_false, Nat.add_zero] at counted
  have used : (ps[i] != 0) = true := by simpa using some_pid
  rw [used, if_pos rfl] at counted
  rw [occupied] at positive ⊢
  rw [occupied]
  omega

theorem occupied_take (some_pid : pid ≠ 0) (here : ps[i]? = some 0) :
    occupied (ps.set i pid) = occupied ps + 1 := by
  obtain ⟨inside, empty⟩ := List.getElem?_eq_some_iff.mp here
  have counted := List.countP_set (p := (· != 0)) (a := pid) inside
  have used : (pid != 0) = true := by simpa using some_pid
  simp only [empty, bne_self_eq_false, Bool.false_eq_true, if_false, used, if_true] at counted
  rw [occupied, counted, occupied]
  omega

theorem set_same (here : ps[i]? = some pid) : ps.set i pid = ps := by
  obtain ⟨inside, rfl⟩ := List.getElem?_eq_some_iff.mp here
  exact List.set_getElem_self inside

theorem clear_absent (absent : pid ∉ ps) : clear pid ps = ps := by
  have none : ps.findIdx? (· == pid) = none := by
    rw [List.findIdx?_eq_none_iff]
    intro p mem
    rw [beq_eq_false_iff_ne]
    rintro rfl
    exact absent mem
  rw [clear, none]

theorem clear_present (present : pid ∈ ps) :
    ∃ i, ps[i]? = some pid ∧ clear pid ps = ps.set i 0 := by
  cases found : ps.findIdx? (· == pid) with
  | none =>
    have other := List.findIdx?_eq_none_iff.mp found pid present
    simp at other
  | some i =>
    obtain ⟨inside, same, _⟩ := List.findIdx?_eq_some_iff_getElem.mp found
    have same : ps[i] = pid := by simpa using same
    exact ⟨i, by rw [List.getElem?_eq_getElem inside, same], by rw [clear, found]⟩

theorem clear_length : (clear pid ps).length = ps.length := by
  rw [clear]
  split
  · exact List.length_set
  · rfl

end occupied

inductive Stepped (o : Opts) (coll : List CollEntry) (s : State) : Act → State → Prop where
  | launch {draw : Nat} {result : Launch} {t : State} (pc : s.pc = .schedule)
    (launched : launch o coll draw result s = some t) : Stepped o coll s (.launch draw result) t
  | turn {stopFile : Bool} {t : State} (pc : s.pc = .schedule)
    (turned : turn o stopFile s = some t) : Stepped o coll s (.turn stopFile) t
  | report {pid : Nat} {child : Child} {status : Status}
    (found : s.children.find? (·.pid == pid) = some child) (heard : child.report s = some status) :
    Stepped o coll s (.report pid)
      (finish o (ended o pid status { s with children := reported pid status s.children }).2
        (ended o pid status { s with children := reported pid status s.children }).1)
  | still {i pcnt : Nat} {slot : Slot} (pc : s.pc = .poll i pcnt) (here : s.running[i]? = some slot)
    (some_asked : s.children.filter (·.asked slot.pgrp) ≠ [])
    (silent : (s.children.filter (·.asked slot.pgrp)).all (·.news.isNone) = true) :
    Stepped o coll s .still (pollAgain o i pcnt s)
  | failed {i pcnt : Nat} {slot : Slot} (pc : s.pc = .poll i pcnt) (here : s.running[i]? = some slot)
    (unasked : s.children.all (!·.asked slot.pgrp) = true) :
    Stepped o coll s .noChild (finish o 0 (failSlot o i s))
  | childless (pc : s.pc = .wait) (empty : s.children.isEmpty = true) :
    Stepped o coll s .noChild (finish o 0 s)
  | interrupted {sig : Nat} (pc : s.pc = .wait) (some_child : ¬ s.children.isEmpty = true) :
    Stepped o coll s (.interrupted sig) (finish o 0 (s.waitHandler sig))
  | signal (sig : Nat) : Stepped o coll s (.signal sig) (s.waitHandler sig)
  | news {pid : Nat} {child : Child} {status : Status}
    (found : s.children.find? (·.pid == pid) = some child)
    (lives : ¬ child.news.any (·.terminated) = true) :
    Stepped o coll s (.news pid status)
      { s with children := updateChild pid ({ · with news := some status }) s.children }
  | leave (pid : Nat) : Stepped o coll s (.leave pid)
      { s with children := updateChild pid ({ · with inGroup := false }) s.children }

theorem step_cases {o : Opts} {coll : List CollEntry} {act : Act} {s t : State}
    (stepped : step o coll act s = some t) : Stepped o coll s act t := by
  cases act with
  | launch draw result =>
    rw [step] at stepped
    split at stepped
    · exact .launch ‹_› stepped
    · cases stepped
  | turn stopFile =>
    rw [step] at stepped
    split at stepped
    · exact .turn ‹_› stepped
    · cases stepped
  | report pid =>
    rw [step] at stepped
    obtain ⟨child, found, stepped⟩ := Option.bind_eq_some_iff.mp stepped
    obtain ⟨status, heard, stepped⟩ := Option.bind_eq_some_iff.mp stepped
    obtain rfl := Option.some.inj stepped
    exact .report found heard
  | still =>
    rw [step] at stepped
    split at stepped
    · rename_i i pcnt pc
      obtain ⟨slot, here, stepped⟩ := Option.bind_eq_some_iff.mp stepped
      simp only at stepped
      split at stepped
      · rename_i quiet
        obtain rfl := Option.some.inj stepped
        exact .still pc here quiet.1 quiet.2
      · cases stepped
    · cases stepped
  | noChild =>
    rw [step] at stepped
    split at stepped
    · rename_i i pcnt pc
      obtain ⟨slot, here, stepped⟩ := Option.bind_eq_some_iff.mp stepped
      split at stepped
      · rename_i unasked
        obtain rfl := Option.some.inj stepped
        exact .failed pc here unasked
      · cases stepped
    · rename_i pc
      split at stepped
      · rename_i empty
        obtain rfl := Option.some.inj stepped
        exact .childless pc empty
      · cases stepped
    · cases stepped
  | interrupted sig =>
    rw [step] at stepped
    split at stepped
    · rename_i pc
      split at stepped
      · cases stepped
      · rename_i some_child
        obtain rfl := Option.some.inj stepped
        exact .interrupted pc some_child
    · cases stepped
  | signal sig =>
    obtain rfl := Option.some.inj stepped
    exact .signal sig
  | news pid status =>
    rw [step] at stepped
    split at stepped
    · rename_i child found
      split at stepped
      · cases stepped
      · rename_i lives
        obtain rfl := Option.some.inj stepped
        exact .news found lives
    · cases stepped
  | leave pid =>
    obtain rfl := Option.some.inj stepped
    exact .leave pid

inductive Effect (act : Act) (s t : State) : Prop where
  | same (slots : t.pgrps = s.pgrps) (count : t.numActive = s.numActive)
    (children : t.children = s.children)
  | started (i pid : Nat) (free : s.pgrps[i]? = some 0) (new : fresh s.children pid = true)
    (slots : t.pgrps = s.pgrps.set i pid) (count : t.numActive = s.numActive + 1)
    (children : t.children = s.children ++ [newChild pid])
  | left (pid : Nat) (called : ∃ draw status, act = .launch draw (.failed status (some pid)))
    (new : fresh s.children pid = true) (slots : t.pgrps = s.pgrps)
    (count : t.numActive = s.numActive) (children : t.children = s.children ++ [newChild pid])
  | kernel (pid : Nat) (f : Child → Child) (keeps : ∀ child, (f child).pid = child.pid)
    (group : act = .leave pid ∨ ∀ child, (f child).inGroup = child.inGroup) (slots : t.pgrps = s.pgrps)
    (count : t.numActive = s.numActive) (children : t.children = updateChild pid f s.children)
  | reported (child : Child) (status : Status) (called : act = .report child.pid)
    (found : s.children.find? (·.pid == child.pid) = some child)
    (news : child.news = some status) (slots : t.pgrps = clear child.pid s.pgrps)
    (count : t.numActive = if status.terminated then s.numActive - 1 else s.numActive)
    (children : t.children = reported child.pid status s.children)
  | failed (i pcnt pgrp : Nat) (called : act = .noChild) (pc : s.pc = .poll i pcnt)
    (slot : s.pgrps[i]? = some pgrp) (none : ∀ child ∈ s.children, child.asked pgrp = false)
    (slots : t.pgrps = s.pgrps.set i 0) (count : t.numActive = s.numActive - 1)
    (children : t.children = s.children)

section effects
variable {o : Opts} {coll : List CollEntry} {s t : State}

theorem wait_handler_frame (s : State) (sig : Nat) :
    ∃ recSignal sendSignal lastsent, s.waitHandler sig = { s with recSignal, sendSignal, lastsent } := by
  rw [State.waitHandler]
  split
  · exact ⟨_, _, _, rfl⟩
  · exact ⟨_, _, _, rfl⟩

theorem on_error_frame (o : Opts) (s : State) :
    ∃ goIdle exitStat recSignal sendSignal lastsent,
      onError o s = { s with goIdle, exitStat, recSignal, sendSignal, lastsent } := by
  rw [onError]
  cases o.hasBrakes with
  | false => exact ⟨_, _, _, _, _, rfl⟩
  | true =>
    obtain ⟨_, _, _, same⟩ := wait_handler_frame { s with
      goIdle := if s.forkInRoad then s.goIdle + 1 else s.goIdle
      exitStat := if o.trackExitStats then s.exitStat + 1 else s.exitStat } sigint
    exact ⟨_, _, _, _, _, (if_pos rfl).trans same⟩

theorem exit_test_frame (s : State) :
    ∃ goIdle lastsent pc, s.exitTest = { s with goIdle, lastsent, pc } := by
  rw [State.exitTest]
  split
  · exact ⟨_, _, _, rfl⟩
  · split <;> exact ⟨_, _, _, rfl⟩

theorem finish_frame (o : Opts) (err : Int) (s : State) :
    ∃ goIdle exitStat recSignal sendSignal lastsent pc,
      finish o err s = { s with goIdle, exitStat, recSignal, sendSignal, lastsent, pc } := by
  rw [finish]
  split
  · obtain ⟨_, _, _, same⟩ := exit_test_frame s
    exact ⟨_, _, _, _, _, _, same⟩
  · obtain ⟨_, _, _, _, _, marked⟩ := on_error_frame o s
    obtain ⟨_, _, _, same⟩ := exit_test_frame (onError o s)
    rw [same, marked]
    exact ⟨_, _, _, _, _, _, rfl⟩

theorem on_signal_pgrps (s : State) : s.onSignal.pgrps = s.pgrps := by
  rw [State.onSignal]
  split
  · rfl
  · simp only [State.pgrps]
    split
    · rfl
    · rw [List.map_map]
      apply List.map_congr_left
      intro slot _
      simp only [Function.comp_apply]
      split <;> rfl

theorem on_signal_frame (s : State) :
    s.onSignal.numActive = s.numActive ∧ s.onSignal.children = s.children := by
  rw [State.onSignal]
  split <;> exact ⟨rfl, rfl⟩

theorem free_slot {i : Nat} (found : s.freeSlot = some i) : s.pgrps[i]? = some 0 := by
  obtain ⟨inside, empty, _⟩ := List.findIdx?_eq_some_iff_getElem.mp found
  have empty : s.running[i].pgrp = 0 := by simpa using empty
  rw [State.pgrps, List.getElem?_map, List.getElem?_eq_getElem inside, Option.map_some, empty]

theorem launch_effect {draw : Nat} {result : Launch}
    (launched : launch o coll draw result s = some t) : Effect (.launch draw result) s t := by
  rw [launch] at launched
  split at launched
  · rename_i allowed
    obtain ⟨i, found, launched⟩ := Option.bind_eq_some_iff.mp launched
    obtain ⟨colle, _, launched⟩ := Option.bind_eq_some_iff.mp launched
    obtain rfl := Option.some.inj launched
    have keeps : (s.running.modify i ({ · with cmd := some colle })).map (·.pgrp) = s.pgrps :=
      map_modify_same fun _ => rfl
    cases result with
    | noOutput => exact .same rfl rfl rfl
    | noPipe => exact .same rfl rfl rfl
    | noFork => exact .same keeps rfl rfl
    | garbled => exact .same rfl rfl rfl
    | failed status left =>
      cases left with
      | none => exact .same keeps rfl (List.append_nil _)
      | some pid => exact .left pid ⟨draw, status, rfl⟩ allowed.2.2 keeps rfl rfl
    | started pid =>
      exact .started i pid (free_slot found) allowed.2.2 (map_modify_set fun _ => rfl) rfl rfl
  · cases launched

def Unmoved (s t : State) : Prop :=
  t.pgrps = s.pgrps ∧ t.numActive = s.numActive ∧ t.children = s.children

theorem unmoved_trans {u : State} (left : Unmoved s t) (right : Unmoved t u) : Unmoved s u :=
  ⟨right.1.trans left.1, right.2.1.trans left.2.1, right.2.2.trans left.2.2⟩

theorem wait_handler_unmoved (s : State) (sig : Nat) : Unmoved s (s.waitHandler sig) := by
  obtain ⟨_, _, _, same⟩ := wait_handler_frame s sig
  rw [same]
  exact ⟨rfl, rfl, rfl⟩

theorem finish_unmoved (o : Opts) (err : Int) (s : State) : Unmoved s (finish o err s) := by
  obtain ⟨_, _, _, _, _, _, same⟩ := finish_frame o err s
  rw [same]
  exact ⟨rfl, rfl, rfl⟩

theorem turn_unmoved {stopFile : Bool} (turned : turn o stopFile s = some t) : Unmoved s t := by
  rw [turn] at turned
  split at turned
  · cases turned
  · obtain rfl := Option.some.inj turned
    have aborted : Unmoved s (if s.wantsStart o ∧ !s.held then s.abort else s) := by
      split
      · exact wait_handler_unmoved s sigint
      · exact ⟨rfl, rfl, rfl⟩
    refine unmoved_trans aborted ?_
    generalize (if s.wantsStart o ∧ !s.held then s.abort else s) = u
    refine ⟨(on_signal_pgrps _).trans ?_, (on_signal_frame _).1.trans ?_,
      (on_signal_frame _).2.trans ?_⟩ <;> split <;> rfl

def isQuiet : Act → Bool
  | .turn _ => true
  | .still => true
  | .interrupted _ => true
  | .signal _ => true
  | _ => false

theorem quiet_step {act : Act} (quiet : isQuiet act = true) (stepped : step o coll act s = some t) :
    Unmoved s t := by
  cases step_cases stepped with
  | turn pc turned => exact turn_unmoved turned
  | still pc here some_asked silent =>
    rw [pollAgain]
    split <;> exact ⟨rfl, rfl, rfl⟩
  | interrupted pc some_child =>
    exact unmoved_trans (wait_handler_unmoved s _) (finish_unmoved o 0 _)
  | signal sig => exact wait_handler_unmoved s sig
  | _ => cases quiet

theorem end_slot_frame (o : Opts) (i : Nat) (slot : Slot) (status : Status) (ret : Int) (s : State) :
    (endSlot o i slot status ret s).1.pgrps = s.pgrps.set i 0 ∧
      (endSlot o i slot status ret s).1.numActive = s.numActive ∧
      (endSlot o i slot status ret s).1.children = s.children := by
  refine ⟨?_, rfl, rfl⟩
  rw [endSlot]
  simp only [State.pgrps, List.map_set]

theorem ended_frame (o : Opts) (pid : Nat) (status : Status) (s : State) :
    (ended o pid status s).1.pgrps = clear pid s.pgrps ∧ (ended o pid status s).1.numActive =
        (if status.terminated then s.numActive - 1 else s.numActive) ∧
      (ended o pid status s).1.children = s.children := by
  rw [ended]
  have counted : ∀ u : State, u = (if status.terminated then { s with numActive := s.numActive - 1 } else s) →
        u.running = s.running ∧
        u.numActive = (if status.terminated then s.numActive - 1 else s.numActive) ∧
        u.children = s.children := by
    rintro u rfl
    split <;> exact ⟨rfl, rfl, rfl⟩
  obtain ⟨slots, count, children⟩ := counted _ rfl
  generalize (if status.terminated then { s with numActive := s.numActive - 1 } else s) = u at *
  have found : s.pgrps.findIdx? (· == pid) = u.running.findIdx? (·.pgrp == pid) := by
    rw [slots, State.pgrps, List.findIdx?_map]
    rfl
  have same : u.pgrps = s.pgrps := by rw [State.pgrps, slots, State.pgrps]
  split
  · rename_i none
    rw [clear, found, none]
    exact ⟨same, count, children⟩
  · rename_i i some_index
    rw [clear, found, some_index]
    obtain ⟨inside, _⟩ := List.findIdx?_eq_some_iff_getElem.mp some_index
    rw [List.getElem?_eq_getElem inside]
    obtain ⟨cleared, kept, still⟩ := end_slot_frame o i u.running[i] status _ u
    exact ⟨by rw [cleared, same], kept.trans count, still.trans children⟩

theorem fail_slot_pgrps (o : Opts) (i : Nat) (s : State) :
    (failSlot o i s).pgrps = s.pgrps.set i 0 := map_modify_set fun _ => rfl

theorem child_report {child : Child} {status : Status} (report : child.report s = some status) :
    child.news = some status := by
  rw [Child.report] at report
  split at report
  · split at report
    · split at report
      · exact report
      · cases report
    · cases report
  · rw [Option.filter_eq_some_iff] at report
    exact report.1
  · cases report

theorem find_pid {pid : Nat} {child : Child} {children : List Child}
    (found : children.find? (·.pid == pid) = some child) : child.pid = pid := by
  simpa using List.find?_some found

theorem report_effect {pid : Nat} (stepped : step o coll (.report pid) s = some t) :
    ∃ child status, pid = child.pid ∧ s.children.find? (·.pid == pid) = some child ∧
      child.news = some status ∧ t.pgrps = clear pid s.pgrps ∧
      t.numActive = (if status.terminated then s.numActive - 1 else s.numActive) ∧
      t.children = reported pid status s.children := by
  cases step_cases stepped with
  | @report _ child status found heard =>
    obtain ⟨slots, count, children⟩ := ended_frame o pid status
      { s with children := reported pid status s.children }
    refine ⟨child, status, (find_pid found).symm, found, child_report heard, ?_⟩
    obtain ⟨_, _, _, _, _, _, same⟩ := finish_frame o
      (ended o pid status { s with children := reported pid status s.children }).2
      (ended o pid status { s with children := reported pid status s.children }).1
    rw [same]
    exact ⟨slots, count, children⟩

theorem no_child_effect (stepped : step o coll .noChild s = some t) :
    (∃ i pcnt pgrp, s.pc = .poll i pcnt ∧ s.pgrps[i]? = some pgrp ∧
      (∀ child ∈ s.children, child.asked pgrp = false) ∧ t.pgrps = s.pgrps.set i 0 ∧
      t.numActive = s.numActive - 1 ∧ t.children = s.children) ∨
    s.pc = .wait ∧ t.pgrps = s.pgrps ∧ t.numActive = s.numActive ∧ t.children = s.children := by
  cases step_cases stepped with
  | @failed i pcnt slot pc here unasked =>
    obtain ⟨_, _, _, _, _, _, same⟩ := finish_frame o 0 (failSlot o i s)
    refine Or.inl ⟨i, pcnt, slot.pgrp, pc, ?_, ?_, ?_⟩
    · rw [State.pgrps, List.getElem?_map, here, Option.map_some]
    · intro child mem
      simpa using List.all_eq_true.mp unasked child mem
    · rw [same]
      exact ⟨fail_slot_pgrps o i s, rfl, rfl⟩
  | childless pc empty =>
    obtain ⟨_, _, _, _, _, _, same⟩ := finish_frame o 0 s
    rw [same]
    exact Or.inr ⟨pc, rfl, rfl, rfl⟩

theorem step_effect {act : Act} (stepped : step o coll act s = some t) : Effect act s t := by
  have quiet (is_quiet : isQuiet act = true) : Effect act s t := by
    obtain ⟨slots, count, children⟩ := quiet_step is_quiet stepped
    exact .same slots count children
  cases step_cases stepped with
  | launch pc launched => exact launch_effect launched
  | report found heard =>
    obtain ⟨child, status, rfl, found, news, slots, count, children⟩ := report_effect stepped
    exact .reported child status rfl found news slots count children
  | failed pc here unasked =>
    rcases no_child_effect stepped with
      ⟨i, pcnt, pgrp, pc, slot, none, slots, count, children⟩ | ⟨_, slots, count, children⟩
    · exact .failed i pcnt pgrp rfl pc slot none slots count children
    · exact .same slots count children
  | childless pc empty =>
    obtain ⟨slots, count, children⟩ := finish_unmoved o 0 s
    exact .same slots count children
  | turn pc turned => exact quiet rfl
  | still pc here some_asked silent => exact quiet rfl
  | interrupted pc some_child => exact quiet rfl
  | signal sig => exact quiet rfl
  | @news pid child status found lives =>
    exact .kernel pid ({ · with news := some status }) (fun _ => rfl) (Or.inr fun _ => rfl) rfl rfl rfl
  | leave pid =>
    exact .kernel pid ({ · with inGroup := false }) (fun _ => rfl) (Or.inl rfl) rfl rfl rfl

end effects

/-- The next wait of `check_pids` is for a free slot. -/
def State.pollsFree (s : State) : Bool :=
  match s.pc with
  | .poll i _ => s.pgrps[i]? == some 0
  | _ => false

/-- A report of the end of a child with a slot, or of something else of a child without one; and no
failure of the wait in a free slot. -/
def Meets : Act → State → Prop
  | .report pid, s => ∀ child ∈ s.children.find? (·.pid == pid), ∀ status ∈ child.news,
      (status.terminated = true ↔ pid ∈ s.pgrps)
  | .noChild, s => s.pollsFree = false
  | _, _ => True

instance (act : Act) (s : State) : Decidable (Meets act s) := by
  cases act with
  | report pid =>
    exact inferInstanceAs (Decidable (∀ child ∈ s.children.find? (·.pid == pid),
      ∀ status ∈ child.news, (status.terminated = true ↔ pid ∈ s.pgrps)))
  | noChild => exact inferInstanceAs (Decidable (s.pollsFree = false))
  | _ => exact isTrue trivial

structure Counted (o : Opts) (s : State) : Prop where
  width : s.pgrps.length = o.keepActive
  count : s.numActive = occupied s.pgrps
  pids : ∀ child ∈ s.children, child.pid ≠ 0

section counted
variable {o : Opts} {coll : List CollEntry} {act : Act} {s t : State}

theorem fresh_nonzero {children : List Child} {pid : Nat} (new : fresh children pid = true) :
    pid ≠ 0 := by
  rw [fresh, Bool.and_eq_true] at new
  simpa using new.1

theorem effect_width (effect : Effect act s t) : t.pgrps.length = s.pgrps.length := by
  cases effect with
  | same slots => rw [slots]
  | started i pid _ _ slots => rw [slots, List.length_set]
  | left pid _ _ slots => rw [slots]
  | kernel pid f _ _ slots => rw [slots]
  | reported child status _ _ _ slots => rw [slots, clear_length]
  | failed i pcnt pgrp _ _ _ _ slots => rw [slots, List.length_set]

theorem effect_pids (effect : Effect act s t) (pids : ∀ child ∈ s.children, child.pid ≠ 0) :
    ∀ child ∈ t.children, child.pid ≠ 0 := by
  have added : ∀ pid, fresh s.children pid = true → t.children = s.children ++ [newChild pid] →
      ∀ child ∈ t.children, child.pid ≠ 0 := by
    intro pid new children child mem
    rw [children] at mem
    rcases List.mem_append.mp mem with mem | mem
    · exact pids child mem
    · rw [List.mem_singleton.mp mem]
      exact fresh_nonzero new
  have updated : ∀ (pid : Nat) (f : Child → Child), (∀ child, (f child).pid = child.pid) →
      ∀ child ∈ updateChild pid f s.children, child.pid ≠ 0 := by
    intro pid f keeps child mem
    obtain ⟨old, inside, rfl⟩ := List.mem_map.mp mem
    split
    · rw [keeps]
      exact pids old inside
    · exact pids old inside
  cases effect with
  | same _ _ children =>
    rw [children]
    exact pids
  | started i pid _ new _ _ children => exact added pid new children
  | left pid _ new _ _ children => exact added pid new children
  | kernel pid f keeps _ _ _ children =>
    rw [children]
    exact updated pid f keeps
  | reported child status _ _ _ _ _ children =>
    rw [children, reported]
    split
    · intro other mem
      exact pids other (List.mem_filter.mp mem).1
    · exact updated _ _ fun _ => rfl
  | failed _ _ _ _ _ _ _ _ _ children =>
    rw [children]
    exact pids

theorem report_count_iff (counted : Counted o s) {child : Child} {status : Status}
    (some_pid : child.pid ≠ 0) (slots : t.pgrps = clear child.pid s.pgrps)
    (count : t.numActive = if status.terminated then s.numActive - 1 else s.numActive) :
    t.numActive = occupied t.pgrps ↔ (status.terminated = true ↔ child.pid ∈ s.pgrps) := by
  rw [slots, count, counted.count]
  by_cases present : child.pid ∈ s.pgrps
  · obtain ⟨i, here, cleared⟩ := clear_present present
    have freed := occupied_free some_pid here
    rw [cleared]
    cases status.terminated with
    | true => exact iff_of_true (by rw [if_pos rfl]; omega) (by simp [present])
    | false => exact iff_of_false (by rw [if_neg (by simp)]; omega) (by simp [present])
  · rw [clear_absent present]
    cases status.terminated with
    | true => exact iff_of_false (by rw [if_pos rfl]; omega) (by simp [present])
    | false => exact iff_of_true (by rw [if_neg (by simp)]) (by simp [present])

theorem count_step_iff (counted : Counted o s) (stepped : step o coll act s = some t) :
    t.numActive = occupied t.pgrps ↔ Meets act s := by
  have effect := step_effect stepped
  have quiet (other : ∀ pid, act ≠ .report pid) (goes : act ≠ .noChild) :
      t.numActive = occupied t.pgrps := by
    cases effect with
    | same slots count => rw [slots, count, counted.count]
    | started i pid free new slots count =>
      rw [slots, count, counted.count, occupied_take (fresh_nonzero new) free]
      rfl
    | left pid _ new slots count => rw [slots, count, counted.count]
    | kernel pid f keeps _ slots count => rw [slots, count, counted.count]
    | reported child status called => exact absurd called (other child.pid)
    | failed i pcnt pgrp called => exact absurd called goes
  cases act with
  | report pid =>
    obtain ⟨child, status, rfl, found, news, slots, count, _⟩ := report_effect stepped
    have some_pid := counted.pids child (List.mem_of_find?_eq_some found)
    rw [report_count_iff counted some_pid slots count, Meets, found]
    simp [news]
  | noChild =>
    rcases no_child_effect stepped with
      ⟨i, pcnt, pgrp, pc, slot, _, slots, count, _⟩ | ⟨pc, slots, count, _⟩
    · have polls : s.pollsFree = (some pgrp == some 0) := by
        rw [State.pollsFree, pc]
        exact congrArg (· == some 0) slot
      rw [Meets, polls, slots, count, counted.count]
      by_cases free : pgrp = 0
      · subst free
        rw [set_same slot]
        exact iff_of_false (by omega) (by simp)
      · have freed := occupied_free free slot
        exact iff_of_true (by omega) (by simpa using free)
    · have polls : s.pollsFree = false := by rw [State.pollsFree, pc]
      rw [Meets, polls, slots, count]
      exact iff_of_true counted.count rfl
  | launch draw result => exact iff_of_true (quiet nofun nofun) trivial
  | turn stopFile => exact iff_of_true (quiet nofun nofun) trivial
  | still => exact iff_of_true (quiet nofun nofun) trivial
  | interrupted sig => exact iff_of_true (quiet nofun nofun) trivial
  | signal sig => exact iff_of_true (quiet nofun nofun) trivial
  | news pid status => exact iff_of_true (quiet nofun nofun) trivial
  | leave pid => exact iff_of_true (quiet nofun nofun) trivial

theorem counted_step (counted : Counted o s) (stepped : step o coll act s = some t)
    (meets : Meets act s) : Counted o t where
  width := (effect_width (step_effect stepped)).trans counted.width
  count := (count_step_iff counted stepped).mpr meets
  pids := effect_pids (step_effect stepped) counted.pids

theorem initial_counted (o : Opts) (starts : Int) (forkInRoad : Bool) :
    Counted o (initial o starts forkInRoad) where
  width := by simp [initial, State.pgrps]
  count := by simp [initial, State.pgrps, occupied, List.countP_replicate]
  pids := nofun

end counted

def Distinct (ps : List Nat) : Prop :=
  ∀ i j pid : Nat, pid ≠ 0 → ps[i]? = some pid → ps[j]? = some pid → i = j

structure Tracked (s : State) : Prop where
  distinct : Distinct s.pgrps
  alive : ∀ pid ∈ s.pgrps, pid ≠ 0 → ∃ child ∈ s.children, child.pid = pid

section tracked
variable {ps : List Nat} {i pid : Nat} {o : Opts} {coll : List CollEntry} {act : Act} {s t : State}

theorem set_get {p : Nat} {j : Nat} (here : (ps.set i pid)[j]? = some p) :
    (i = j ∧ p = pid) ∨ i ≠ j ∧ ps[j]? = some p := by
  rw [List.getElem?_set] at here
  split at here
  · rename_i same
    split at here
    · exact Or.inl ⟨same, (Option.some.inj here).symm⟩
    · cases here
  · rename_i other
    exact Or.inr ⟨other, here⟩

theorem distinct_set (distinct : Distinct ps) (new : pid = 0 ∨ pid ∉ ps) :
    Distinct (ps.set i pid) := by
  intro j k p some_pid left right
  rcases set_get left with ⟨rfl, rfl⟩ | ⟨_, old⟩
  · rcases set_get right with ⟨rfl, _⟩ | ⟨_, old'⟩
    · rfl
    · exact absurd (List.mem_of_getElem? old') (new.resolve_left some_pid)
  · rcases set_get right with ⟨rfl, rfl⟩ | ⟨_, old'⟩
    · exact absurd (List.mem_of_getElem? old) (new.resolve_left some_pid)
    · exact distinct j k p some_pid old old'

theorem distinct_clear (distinct : Distinct ps) : Distinct (clear pid ps) := by
  rw [clear]
  split
  · exact distinct_set distinct (Or.inl rfl)
  · exact distinct

theorem mem_clear {p : Nat} (mem : p ∈ clear pid ps) : p = 0 ∨ p ∈ ps := by
  rw [clear] at mem
  split at mem
  · exact (List.mem_or_eq_of_mem_set mem).symm
  · exact Or.inr mem

theorem cleared_absent (distinct : Distinct ps) (some_pid : pid ≠ 0) : pid ∉ clear pid ps := by
  intro mem
  by_cases present : pid ∈ ps
  · obtain ⟨i, here, cleared⟩ := clear_present present
    rw [cleared] at mem
    obtain ⟨j, there⟩ := List.mem_iff_getElem?.mp mem
    rcases set_get there with ⟨_, zero⟩ | ⟨other, there⟩
    · exact some_pid zero
    · exact other (distinct i j pid some_pid here there)
  · rw [clear_absent present] at mem
    exact present mem

theorem occupied_le (pids : List Nat) (distinct : Distinct ps)
    (alive : ∀ pid ∈ ps, pid ≠ 0 → pid ∈ pids) : occupied ps ≤ pids.length := by
  induction pids generalizing ps with
  | nil =>
    have free : ∀ p ∈ ps, ¬ (p != 0) = true := by
      intro p mem used
      exact absurd (alive p mem (by simpa using used)) (by simp)
    rw [occupied, List.countP_eq_zero.mpr free]
    exact Nat.zero_le _
  | cons a pids ih =>
    have fewer : occupied ps ≤ occupied (clear a ps) + 1 := by
      by_cases zero : a = 0 ∨ a ∉ ps
      · rcases zero with rfl | absent
        · by_cases present : 0 ∈ ps
          · obtain ⟨i, here, cleared⟩ := clear_present present
            rw [cleared, set_same here]
            omega
          · rw [clear_absent present]
            omega
        · rw [clear_absent absent]
          omega
      · rw [not_or, not_not] at zero
        obtain ⟨i, here, cleared⟩ := clear_present zero.2
        exact Nat.le_of_eq (by rw [cleared, occupied_free zero.1 here])
    have rest : ∀ p ∈ clear a ps, p ≠ 0 → p ∈ pids := by
      intro p mem some_p
      rcases List.mem_cons.mp (alive p ((mem_clear mem).resolve_left some_p) some_p) with rfl | later
      · exact absurd mem (cleared_absent distinct some_p)
      · exact later
    have bound := ih (distinct_clear distinct) rest
    rw [List.length_cons]
    omega

theorem tracked_occupied (tracked : Tracked s) : occupied s.pgrps ≤ s.children.length := by
  have bound := occupied_le (s.children.map (·.pid)) tracked.distinct (by
    intro pid mem some_pid
    obtain ⟨child, inside, rfl⟩ := tracked.alive pid mem some_pid
    exact List.mem_map.mpr ⟨child, inside, rfl⟩)
  rwa [List.length_map] at bound

theorem update_pids {f : Child → Child} (keeps : ∀ child, (f child).pid = child.pid)
    (children : List Child) :
    (updateChild pid f children).map (·.pid) = children.map (·.pid) := by
  rw [updateChild, List.map_map]
  apply List.map_congr_left
  intro child _
  simp only [Function.comp_apply]
  split
  · exact keeps child
  · rfl

theorem fresh_absent {children : List Child} (new : fresh children pid = true) :
    ∀ child ∈ children, child.pid ≠ pid := by
  rw [fresh, Bool.and_eq_true, List.all_eq_true] at new
  intro child mem
  simpa using new.2 child mem

theorem tracked_step (tracked : Tracked s) (stepped : step o coll act s = some t) : Tracked t := by
  have survives {children : List Child} (kept : children.map (·.pid) = s.children.map (·.pid)) :
      ∀ pid ∈ s.pgrps, pid ≠ 0 → ∃ child ∈ children, child.pid = pid := by
    intro pid mem some_pid
    obtain ⟨child, inside, rfl⟩ := tracked.alive pid mem some_pid
    have listed : child.pid ∈ children.map (·.pid) := by
      rw [kept]
      exact List.mem_map.mpr ⟨child, inside, rfl⟩
    obtain ⟨other, there, same⟩ := List.mem_map.mp listed
    exact ⟨other, there, same⟩
  cases step_effect stepped with
  | same slots _ children =>
    refine ⟨by rw [slots]; exact tracked.distinct, ?_⟩
    rw [slots, children]
    exact tracked.alive
  | started i pid free new slots _ children =>
    have unused : pid ∉ s.pgrps := by
      intro mem
      obtain ⟨child, inside, same⟩ := tracked.alive pid mem (fresh_nonzero new)
      exact fresh_absent new child inside same
    refine ⟨by rw [slots]; exact distinct_set tracked.distinct (Or.inr unused), ?_⟩
    rw [slots, children]
    intro p mem some_p
    rcases List.mem_or_eq_of_mem_set mem with mem | rfl
    · obtain ⟨child, inside, same⟩ := tracked.alive p mem some_p
      exact ⟨child, List.mem_append_left _ inside, same⟩
    · exact ⟨newChild p, by simp, rfl⟩
  | left pid _ new slots _ children =>
    refine ⟨by rw [slots]; exact tracked.distinct, ?_⟩
    rw [slots, children]
    intro p mem some_p
    obtain ⟨child, inside, same⟩ := tracked.alive p mem some_p
    exact ⟨child, List.mem_append_left _ inside, same⟩
  | kernel pid f keeps _ slots _ children =>
    refine ⟨by rw [slots]; exact tracked.distinct, ?_⟩
    rw [slots, children]
    exact survives (update_pids keeps s.children)
  | reported child status _ _ _ slots _ children =>
    refine ⟨by rw [slots]; exact distinct_clear tracked.distinct, ?_⟩
    rw [slots, children, reported]
    intro p mem some_p
    have old := (mem_clear mem).resolve_left some_p
    split
    · obtain ⟨other, inside, rfl⟩ := tracked.alive p old some_p
      have apart : other.pid ≠ child.pid := by
        intro same
        rw [same] at mem some_p
        exact cleared_absent tracked.distinct some_p mem
      exact ⟨other, List.mem_filter.mpr ⟨inside, by simpa using apart⟩, rfl⟩
    · exact survives (update_pids (f := ({ · with news := none })) (fun _ => rfl) s.children) p old
        some_p
  | failed i pcnt pgrp _ _ _ _ slots _ children =>
    refine ⟨by rw [slots]; exact distinct_set tracked.distinct (Or.inl rfl), ?_⟩
    rw [slots, children]
    intro p mem some_p
    rcases List.mem_or_eq_of_mem_set mem with mem | rfl
    · exact tracked.alive p mem some_p
    · exact absurd rfl some_p

theorem initial_tracked (o : Opts) (starts : Int) (forkInRoad : Bool) :
    Tracked (initial o starts forkInRoad) where
  distinct := by
    intro i j pid some_pid here
    have mem := List.mem_of_getElem? here
    simp only [initial, State.pgrps, List.map_replicate] at mem
    exact absurd (List.eq_of_mem_replicate mem) some_pid
  alive := by
    intro pid mem some_pid
    simp only [initial, State.pgrps, List.map_replicate] at mem
    exact absurd (List.eq_of_mem_replicate mem) some_pid

end tracked
end VteScheduler
