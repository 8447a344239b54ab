import Mathlib.Data.List.Nodup
import Mathlib.Data.List.Range
import Vte.Pan.SchedulerCount

/-!
pan/ltp-pan.c in sequential mode: the commands are started one after the other in the order of the
collection, each in a free slot, and `starts` counts the ones that are left.
-/
namespace VteScheduler
open Text Machine

/-- The calls of `run_child` in a run: the index of the command and the slot's process group. -/
def callOf (o : Opts) (coll : List CollEntry) : Act → State → List (Nat × Nat)
  | .launch draw _, s => (s.freeSlot.map fun i => (s.next o coll draw, s.pgrps.getD i 0)).toList
  | _, _ => []

def calls (o : Opts) (coll : List CollEntry) : List Act → State → List (Nat × Nat)
  | [], _ => []
  | act :: acts, s =>
    match step o coll act s with
    | some t => callOf o coll act s ++ calls o coll acts t
    | none => []

def Peaceful : Act → Prop
  | .launch _ (.failed _ (some _)) => False
  | .launch _ .garbled => False
  | .interrupted _ => False
  | .signal _ => False
  | .leave _ => False
  | _ => True

/-- The children are all in pan's process group, have different pids, and hold the slots. -/
structure Housed (o : Opts) (s : State) : Prop where
  width : s.pgrps.length = o.keepActive
  tracked : Tracked s
  nodup : (s.children.map (·.pid)).Nodup
  inGroup : ∀ child ∈ s.children, child.inGroup = true

section housed
variable {o : Opts} {coll : List CollEntry} {act : Act} {s t : State}

theorem fresh_nodup {children : List Child} {pid : Nat} (nodup : (children.map (·.pid)).Nodup)
    (new : fresh children pid = true) : ((children ++ [newChild pid]).map (·.pid)).Nodup := by
  rw [List.map_append, List.nodup_append]
  refine ⟨nodup, by simp, ?_⟩
  intro a mem b single
  obtain ⟨child, inside, rfl⟩ := List.mem_map.mp mem
  obtain rfl : b = pid := by simpa [newChild] using single
  exact fresh_absent new child inside

theorem pids_filter {children : List Child} {child : Child}
    (nodup : (children.map (·.pid)).Nodup) (mem : child ∈ children) :
    (children.filter (·.pid != child.pid)).length + 1 = children.length := by
  induction children with
  | nil => cases mem
  | cons head children ih =>
    rw [List.map_cons, List.nodup_cons] at nodup
    rcases List.mem_cons.mp mem with rfl | mem
    · have others : children.filter (·.pid != child.pid) = children := by
        rw [List.filter_eq_self]
        intro other inside
        have apart : other.pid ≠ child.pid := fun same =>
          nodup.1 (same ▸ List.mem_map.mpr ⟨other, inside, rfl⟩)
        simpa using apart
      rw [List.filter_cons_of_neg (by simp), others, List.length_cons]
    · have apart : head.pid ≠ child.pid := fun same =>
        nodup.1 (same ▸ List.mem_map.mpr ⟨child, mem, rfl⟩)
      rw [List.filter_cons_of_pos (by simpa using apart), List.length_cons, List.length_cons, ih nodup.2 mem]

theorem housed_step (housed : Housed o s) (peaceful : Peaceful act)
    (stepped : step o coll act s = some t) : Housed o t := by
  have effect := step_effect stepped
  refine ⟨(effect_width effect).trans housed.width, tracked_step housed.tracked stepped, ?_, ?_⟩
  · cases effect with
    | same _ _ children =>
      rw [children]
      exact housed.nodup
    | started i pid free new _ _ children =>
      rw [children]
      exact fresh_nodup housed.nodup new
    | left pid called new _ _ children =>
      rw [children]
      exact fresh_nodup housed.nodup new
    | kernel pid f keeps _ _ _ children =>
      rw [children, update_pids keeps]
      exact housed.nodup
    | reported child status _ _ _ _ _ children =>
      rw [children, reported]
      split
      · exact housed.nodup.sublist (List.filter_sublist.map _)
      · rw [update_pids (f := ({ · with news := none })) fun _ => rfl]
        exact housed.nodup
    | failed i pcnt pgrp _ _ _ _ _ _ children =>
      rw [children]
      exact housed.nodup
  · have added (pid : Nat) : ∀ child ∈ s.children ++ [newChild pid], child.inGroup = true := by
      intro child mem
      rcases List.mem_append.mp mem with mem | mem
      · exact housed.inGroup child mem
      · rw [List.mem_singleton.mp mem]
        rfl
    have updated (pid : Nat) (f : Child → Child) (keeps : ∀ child, (f child).inGroup = child.inGroup) :
        ∀ child ∈ updateChild pid f s.children, child.inGroup = true := by
      intro child mem
      obtain ⟨old, inside, rfl⟩ := List.mem_map.mp mem
      split
      · rw [keeps]
        exact housed.inGroup old inside
      · exact housed.inGroup old inside
    cases effect with
    | same _ _ children =>
      rw [children]
      exact housed.inGroup
    | started i pid free new _ _ children =>
      rw [children]
      exact added pid
    | left pid called new _ _ children =>
      rw [children]
      exact added pid
    | kernel pid f keeps group _ _ children =>
      rw [children]
      rcases group with rfl | group
      · exact peaceful.elim
      · exact updated pid f group
    | reported child status _ _ _ _ _ children =>
      rw [children, reported]
      split
      · exact fun other mem => housed.inGroup other (List.mem_filter.mp mem).1
      · exact updated _ _ fun _ => rfl
    | failed i pcnt pgrp _ _ _ _ _ _ children =>
      rw [children]
      exact housed.inGroup

theorem children_count_step (housed : Housed o s) (peaceful : Peaceful act)
    (stepped : step o coll act s = some t) (count : s.numActive = s.children.length)
    (active : ∀ i pcnt, s.pc = .poll i pcnt → s.numActive ≠ 0) :
    t.numActive = t.children.length := by
  cases step_effect stepped with
  | same _ same children => rw [same, children, count]
  | started i pid free new _ more children =>
    rw [more, children, count, List.length_append, List.length_singleton]
    omega
  | left pid called =>
    obtain ⟨draw, status, rfl⟩ := called
    exact peaceful.elim
  | kernel pid f _ _ _ same children => rw [same, children, count, updateChild, List.length_map]
  | reported child status _ found _ _ fewer children =>
    rw [fewer, children, reported, count]
    split
    · have once := pids_filter housed.nodup (List.mem_of_find?_eq_some found)
      omega
    · rw [updateChild, List.length_map]
  | failed i pcnt pgrp _ pc slot none =>
    have some_children : s.children ≠ [] := by
      intro empty
      rw [empty] at count
      exact active i pcnt pc count
    obtain ⟨child, mem⟩ := List.exists_mem_of_ne_nil _ some_children
    by_cases free : pgrp = 0
    · have asked := none child mem
      rw [Child.asked, if_pos free, housed.inGroup child mem] at asked
      cases asked
    · obtain ⟨other, inside, same⟩ := housed.tracked.alive pgrp (List.mem_of_getElem? slot) free
      have asked := none other inside
      rw [Child.asked, if_neg free] at asked
      simp [same] at asked

end housed

def State.waits (s : State) : Bool :=
  match s.pc with
  | .poll _ _ => true
  | .wait => true
  | _ => false

/-- The loop after `k` calls of `run_child`. -/
structure InOrder (o : Opts) (coll : List CollEntry) (k : Nat) (s : State) : Prop where
  made : k ≤ coll.length
  starts : s.starts = coll.length - k
  c : s.c = k % coll.length
  quiet : s.recSignal = 0
  stop : s.stop ≠ 0 → s.starts = 0
  idle : s.pc = .schedule → s.goIdle ≠ 0 → s.numActive ≠ 0
  exited : s.pc = .exited → s.starts = 0
  index : ∀ i pcnt, s.pc = .poll i pcnt → i < o.keepActive
  waiting : s.waits → s.starts ≠ 0 → o.keepActive ≠ 0 → s.numActive ≠ 0
  crashed : s.pc = .crashed → o.keepActive ≠ 0 → s.starts = 0
  count : s.starts ≠ 0 → s.numActive = s.children.length
  housed : Housed o s

def SameControl (s t : State) : Prop :=
  t.starts = s.starts ∧ t.c = s.c ∧ t.stop = s.stop ∧ t.recSignal = s.recSignal

section order
variable {o : Opts} {coll : List CollEntry} {act : Act} {k : Nat} {s t : State}

theorem ended_control (o : Opts) (pid : Nat) (status : Status) (s : State) :
    SameControl s (ended o pid status s).1 := by
  rw [ended]
  have counted :
      SameControl s (if status.terminated then { s with numActive := s.numActive - 1 } else s) := by
    split <;> exact ⟨rfl, rfl, rfl, rfl⟩
  generalize (if status.terminated then { s with numActive := s.numActive - 1 } else s) = u at *
  split
  · exact counted
  · split
    · exact counted
    · exact counted

theorem exit_test_pc (s : State) :
    (s.exitTest.pc = .schedule ∧ (s.exitTest.goIdle ≠ 0 → s.numActive ≠ 0)) ∨ s.exitTest.pc = .exited ∧ s.stop ≠ 0 := by
  rw [State.exitTest]
  by_cases ends : s.stop ≠ 0 ∧ s.numActive = 0
  · rw [if_pos ends]
    exact Or.inr ⟨rfl, ends.1⟩
  · rw [if_neg ends]
    by_cases resumes : s.goIdle ≠ 0 ∧ s.numActive = 0
    · rw [if_pos resumes]
      exact Or.inl ⟨rfl, fun idle => absurd rfl idle⟩
    · rw [if_neg resumes]
      exact Or.inl ⟨rfl, fun idle none => resumes ⟨idle, none⟩⟩

theorem finish_control (brakes : o.hasBrakes = false) (err : Int) (s : State) :
    SameControl s (finish o err s) ∧
      (((finish o err s).pc = .schedule ∧ ((finish o err s).goIdle ≠ 0 → s.numActive ≠ 0)) ∨
        (finish o err s).pc = .exited ∧ s.stop ≠ 0) := by
  have tested (u : State) (same : SameControl s u) (active : u.numActive = s.numActive) :
      SameControl s u.exitTest ∧ ((u.exitTest.pc = .schedule ∧ (u.exitTest.goIdle ≠ 0 → s.numActive ≠ 0)) ∨
          u.exitTest.pc = .exited ∧ s.stop ≠ 0) := by
    have place := exit_test_pc u
    obtain ⟨_, _, _, frame⟩ := exit_test_frame u
    rw [active, same.2.2.1] at place
    refine ⟨?_, place⟩
    rw [frame]
    exact same
  rw [finish]
  split
  · exact tested s ⟨rfl, rfl, rfl, rfl⟩ rfl
  · refine tested (onError o s) ?_ ?_ <;> simp [onError, brakes, SameControl]

theorem finish_in_order {u : State} {err : Int} (brakes : o.hasBrakes = false)
    (inv : InOrder o coll k s) (same : SameControl s u) (moved : t = finish o err u)
    (housed : Housed o t) (count : s.starts ≠ 0 → t.numActive = t.children.length) :
    InOrder o coll k t := by
  obtain ⟨control, place⟩ := finish_control brakes err u
  have active := (finish_unmoved o err u).2.1
  rw [← moved] at control place active
  have starts : t.starts = s.starts := control.1.trans same.1
  have stop : t.stop = s.stop := control.2.2.1.trans same.2.2.1
  rw [← active, same.2.2.1] at place
  have pc : t.pc = .schedule ∨ t.pc = .exited := place.imp And.left And.left
  refine ⟨inv.made, starts.trans inv.starts, (control.2.1.trans same.2.1).trans inv.c,
    (control.2.2.2.trans same.2.2.2).trans inv.quiet, ?_, ?_, ?_, ?_, ?_, ?_, ?_, housed⟩
  · rw [stop, starts]
    exact inv.stop
  · intro schedule
    rcases place with ⟨_, idle⟩ | ⟨ended, _⟩
    · exact idle
    · rw [ended] at schedule
      cases schedule
  · intro ended
    rcases place with ⟨schedule, _⟩ | ⟨_, stopped⟩
    · rw [schedule] at ended
      cases ended
    · rw [starts]
      exact inv.stop stopped
  · intro i pcnt poll
    rcases pc with schedule | ended
    · cases schedule.symm.trans poll
    · cases ended.symm.trans poll
  · intro waits
    rcases pc with schedule | ended
    · simp [State.waits, schedule] at waits
    · simp [State.waits, ended] at waits
  · intro crashed
    rcases pc with schedule | ended
    · cases schedule.symm.trans crashed
    · cases ended.symm.trans crashed
  · rw [starts]
    exact count

theorem counted_in_order (inv : InOrder o coll k s) (peaceful : Peaceful act)
    (stepped : step o coll act s = some t) (more : s.starts ≠ 0) :
    t.numActive = t.children.length := by
  refine children_count_step inv.housed peaceful stepped (inv.count more) ?_
  intro i pcnt poll
  have inside := inv.index i pcnt poll
  exact inv.waiting (by rw [State.waits, poll]) more (by omega)

theorem slot_free (inv : InOrder o coll k s) (wants : s.wantsStart o = true) :
    s.freeSlot.isSome = true := by
  rw [State.wantsStart, Bool.and_eq_true, decide_eq_true_eq, bne_iff_ne] at wants
  obtain ⟨few, more⟩ := wants
  by_contra none
  have full : ∀ slot ∈ s.running, slot.pgrp ≠ 0 := by
    intro slot mem
    have used := List.findIdx?_eq_none_iff.mp (Option.not_isSome_iff_eq_none.mp none) slot mem
    simpa using used
  have all : occupied s.pgrps = s.pgrps.length := by
    rw [occupied, List.countP_eq_length]
    intro p mem
    obtain ⟨slot, inside, rfl⟩ := List.mem_map.mp mem
    simpa using full slot inside
  have bound := tracked_occupied inv.housed.tracked
  have count := inv.count more
  have width := inv.housed.width
  omega

theorem after_run_starts (sequential : o.sequential = true) (c : Nat) (r : State × Option Nat)
    (more : 0 < r.1.starts) : (afterRun o coll c r).starts = r.1.starts - 1 :=
  if_pos ⟨by rw [sequential, Bool.or_true], more⟩

theorem after_run_c (sequential : o.sequential = true) (r : State × Option Nat)
    (less : k < coll.length) : (afterRun o coll k r).c = (k + 1) % coll.length := by
  refine (if_pos sequential).trans ?_
  split
  · rename_i last
    rw [show k + 1 = coll.length by omega, Nat.mod_self]
  · rw [Nat.mod_eq_of_lt (by omega)]

theorem launch_in_order {draw : Nat} {result : Launch} (sequential : o.sequential = true)
    (inv : InOrder o coll k s) (peaceful : Peaceful (.launch draw result))
    (schedule : s.pc = .schedule) (launched : launch o coll draw result s = some t)
    (stepped : step o coll (.launch draw result) s = some t) :
    InOrder o coll (k + 1) t ∧ callOf o coll (.launch draw result) s = [(k, 0)] := by
  have housed := housed_step inv.housed peaceful stepped
  rw [launch] at launched
  split at launched
  · rename_i allowed
    obtain ⟨wants, free, _⟩ := allowed
    rw [State.wantsStart, Bool.and_eq_true, bne_iff_ne] at wants
    have count := counted_in_order inv peaceful stepped wants.2
    obtain ⟨i, found, launched⟩ := Option.bind_eq_some_iff.mp launched
    obtain ⟨colle, listed, launched⟩ := Option.bind_eq_some_iff.mp launched
    have here : s.next o coll draw = s.c := by rw [State.next, if_pos sequential]
    have left := inv.starts
    have made := inv.made
    have less : k < coll.length := by
      have more := wants.2
      omega
    have index : s.c = k := by rw [inv.c, Nat.mod_eq_of_lt less]
    have slot : s.pgrps.getD i 0 = 0 := by
      rw [List.getD_eq_getElem?_getD, free_slot found]
      rfl
    refine ⟨?_, by rw [callOf, found, here, index, Option.map_some, slot]; rfl⟩
    have stays : (runChild o colle i result s).1.pc = .schedule ∧ SameControl s (runChild o colle i result s).1 ∧
        (runChild o colle i result s).1.goIdle = s.goIdle := by
      cases result with
      | garbled => exact peaceful.elim
      | _ => exact ⟨schedule, ⟨rfl, rfl, rfl, rfl⟩, rfl⟩
    obtain rfl := Option.some.inj launched
    obtain ⟨pc, ⟨starts, _, stop, quiet⟩, idle⟩ := stays
    simp only [State.held, Bool.not_eq_true', Bool.or_eq_false_iff, bne_eq_false_iff_eq] at free
    refine ⟨less, ?_, ?_, quiet.trans inv.quiet, ?_, ?_, ?_, ?_, ?_, ?_, fun _ => count, housed⟩
    · rw [after_run_starts sequential _ _ (by rw [starts]; omega), starts]
      omega
    · rw [here, index]
      exact after_run_c sequential _ less
    · intro stopped
      exact absurd (stop.trans free.1.1) stopped
    · intro _ idling
      exact absurd (idle.trans free.2) idling
    · intro ended
      cases (pc.symm.trans ended)
    · intro j pcnt poll
      cases (pc.symm.trans poll)
    · intro waits
      rw [State.waits, show (afterRun o coll (s.next o coll draw) (runChild o colle i result s)).pc =
        .schedule from pc] at waits
      cases waits
    · intro crashed
      cases (pc.symm.trans crashed)
  · cases launched

def Named (s : State) : Prop :=
  ∀ slot ∈ s.running.head?, slot.pgrp ≠ 0 ∨ s.children ≠ [] → slot.cmd.isSome = true

theorem turn_quiet {stopFile : Bool} (inv : InOrder o coll k s)
    (turned : turn o stopFile s = some t) :
    t = { s with stop := if s.starts = 0 then s.stop + 1 else s.stop, pc := s.checkPc o } ∧
      ¬ (s.wantsStart o = true ∧ (!s.held) = true) := by
  rw [turn] at turned
  split at turned
  · cases turned
  · rename_i stays
    have full : ¬ (s.wantsStart o = true ∧ (!s.held) = true) := fun both =>
      stays ⟨both.1, both.2, slot_free inv both.1⟩
    simp only [if_neg full] at turned
    obtain rfl := Option.some.inj turned
    have left := inv.starts
    have made := inv.made
    have never : s.starts ≠ -1 := by omega
    have silent (u : State) (quiet : u.recSignal = 0) : u.onSignal = u := by
      rw [State.onSignal, if_pos quiet]
    refine ⟨?_, full⟩
    by_cases last : s.starts = 0
    · rw [if_pos (Or.inl last), if_pos last, silent { s with stop := s.stop + 1 } inv.quiet]
      rfl
    · rw [if_neg (by simp [last, never]), if_neg last, silent s inv.quiet]

theorem turn_active (inv : InOrder o coll k s) (schedule : s.pc = .schedule)
    (full : ¬ (s.wantsStart o = true ∧ (!s.held) = true)) (more : s.starts ≠ 0)
    (some_slot : o.keepActive ≠ 0) : s.numActive ≠ 0 := by
  have going : s.stop = 0 := by
    by_contra stopped
    exact more (inv.stop stopped)
  by_cases idle : s.goIdle = 0
  · have free : (!s.held) = true := by simp [State.held, going, inv.quiet, idle]
    have busy : ¬ s.numActive < o.keepActive := by
      intro few
      exact full ⟨by simp [State.wantsStart, few, more], free⟩
    omega
  · exact inv.idle schedule idle

theorem turn_in_order {stopFile : Bool} (inv : InOrder o coll k s) (named : Named s)
    (schedule : s.pc = .schedule) (turned : turn o stopFile s = some t)
    (stepped : step o coll (.turn stopFile) s = some t) :
    InOrder o coll k t ∧ (s.starts ≠ 0 → o.keepActive ≠ 0 → t.waits = true) := by
  have peaceful : Peaceful (.turn stopFile) := trivial
  have housed := housed_step inv.housed peaceful stepped
  have count := counted_in_order inv peaceful stepped
  obtain ⟨rfl, full⟩ := turn_quiet inv turned
  have active := turn_active inv schedule full
  have width := inv.housed.width
  rw [State.pgrps, List.length_map] at width
  have set : s.starts ≠ 0 → o.keepActive ≠ 0 → s.cmd.isSome = true := by
    intro more some_slot
    have some_child : s.children ≠ [] := by
      intro empty
      have none := inv.count more
      rw [empty] at none
      exact active more some_slot none
    cases slots : s.running with
    | nil =>
      rw [slots] at width
      exact absurd width.symm some_slot
    | cons slot slots' =>
      have first := named slot (by rw [slots]; rfl) (Or.inr some_child)
      rw [State.cmd, slots]
      exact first
  have place : s.checkPc o = .wait ∨ (s.checkPc o = .poll 0 0 ∧ s.cmd.isSome = true) ∨
      (s.checkPc o = .crashed ∧ s.cmd.isSome = false) := by
    rw [State.checkPc]
    cases o.logfile with
    | false => exact Or.inl rfl
    | true =>
      cases cmd : s.cmd.isSome with
      | true => exact Or.inr (Or.inl ⟨by simp, rfl⟩)
      | false => exact Or.inr (Or.inr ⟨by simp, rfl⟩)
  refine ⟨⟨inv.made, inv.starts, inv.c, inv.quiet, ?_, ?_, ?_, ?_, fun _ => active, ?_, count, housed⟩, ?_⟩
  · intro stopped
    by_contra more
    rw [if_neg more] at stopped
    exact more (inv.stop stopped)
  · intro pc
    rcases place with wait | ⟨poll, _⟩ | ⟨crashed, _⟩
    · cases pc.symm.trans wait
    · cases pc.symm.trans poll
    · cases pc.symm.trans crashed
  · intro pc
    rcases place with wait | ⟨poll, _⟩ | ⟨crashed, _⟩
    · cases pc.symm.trans wait
    · cases pc.symm.trans poll
    · cases pc.symm.trans crashed
  · intro i pcnt pc
    rcases place with wait | ⟨poll, cmd⟩ | ⟨crashed, _⟩
    · cases pc.symm.trans wait
    · obtain ⟨rfl, _⟩ := Pc.poll.inj (pc.symm.trans poll)
      cases slots : s.running with
      | nil => simp [State.cmd, slots] at cmd
      | cons slot slots' =>
        rw [slots, List.length_cons] at width
        omega
    · cases pc.symm.trans crashed
  · intro pc some_slot
    by_contra more
    rcases place with wait | ⟨poll, _⟩ | ⟨_, missing⟩
    · cases pc.symm.trans wait
    · cases pc.symm.trans poll
    · rw [set more some_slot] at missing
      cases missing
  · intro more some_slot
    rcases place with wait | ⟨poll, _⟩ | ⟨_, missing⟩
    · simp [State.waits, wait]
    · simp [State.waits, poll]
    · rw [set more some_slot] at missing
      cases missing

theorem in_order_step (sequential : o.sequential = true) (brakes : o.hasBrakes = false)
    (inv : InOrder o coll k s) (named : Named s) (peaceful : Peaceful act)
    (stepped : step o coll act s = some t) :
    ∃ n, InOrder o coll (k + n) t ∧ callOf o coll act s = (List.range' k n).map fun index => (index, 0) := by
  have housed := housed_step inv.housed peaceful stepped
  have count := counted_in_order inv peaceful stepped
  cases step_cases stepped with
  | launch schedule launched =>
    exact ⟨1, launch_in_order sequential inv peaceful schedule launched stepped⟩
  | turn schedule turned => exact ⟨0, (turn_in_order inv named schedule turned stepped).1, rfl⟩
  | @report pid child status found heard =>
    refine ⟨0, ?_, rfl⟩
    exact finish_in_order brakes inv (ended_control o pid status
      { s with children := reported pid status s.children }) rfl housed count
  | @failed i pcnt slot pc here unasked =>
    refine ⟨0, ?_, rfl⟩
    exact finish_in_order (u := failSlot o i s) brakes inv ⟨rfl, rfl, rfl, rfl⟩ rfl housed count
  | childless pc empty =>
    refine ⟨0, ?_, rfl⟩
    exact finish_in_order (u := s) brakes inv ⟨rfl, rfl, rfl, rfl⟩ rfl housed count
  | @still i pcnt slot poll here some_asked silent =>
    refine ⟨0, ?_, rfl⟩
    have inside := inv.index i pcnt poll
    have active := inv.waiting (by rw [State.waits, poll])
    have width := inv.housed.width
    rw [State.pgrps, List.length_map] at width
    rw [pollAgain] at housed count ⊢
    split at housed
    · rename_i late
      rw [if_pos late] at count ⊢
      exact ⟨inv.made, inv.starts, inv.c, inv.quiet, inv.stop, by rintro ⟨⟩, by rintro ⟨⟩,
        by rintro _ _ ⟨⟩, by rintro ⟨⟩, by rintro ⟨⟩, count, housed⟩
    · rename_i early
      rw [if_neg early] at count ⊢
      refine ⟨inv.made, inv.starts, inv.c, inv.quiet, inv.stop, by rintro ⟨⟩, by rintro ⟨⟩, ?_,
        fun _ => active, by rintro ⟨⟩, count, housed⟩
      intro j pcnt' again
      obtain ⟨rfl, _⟩ := Pc.poll.inj again
      split <;> omega
  | interrupted pc some_child => exact peaceful.elim
  | signal sig => exact peaceful.elim
  | news found lives =>
    refine ⟨0, ?_, rfl⟩
    exact ⟨inv.made, inv.starts, inv.c, inv.quiet, inv.stop, inv.idle, inv.exited, inv.index,
      inv.waiting, inv.crashed, count, housed⟩
  | leave pid => exact peaceful.elim

section head
variable {l : List Slot} {i : Nat} {slot : Slot}

theorem modify_head {f : Slot → Slot} (mem : slot ∈ (l.modify i f).head?) :
    (i = 0 ∧ ∃ old ∈ l.head?, slot = f old) ∨ i ≠ 0 ∧ slot ∈ l.head? := by
  cases l with
  | nil => simp at mem
  | cons first l =>
    cases i with
    | zero => exact Or.inl ⟨rfl, first, rfl, (Option.some.inj mem).symm⟩
    | succ i => exact Or.inr ⟨by simp, mem⟩

theorem set_head {new : Slot} (mem : slot ∈ (l.set i new).head?) :
    (i = 0 ∧ slot = new) ∨ i ≠ 0 ∧ slot ∈ l.head? := by
  cases l with
  | nil => simp at mem
  | cons first l =>
    cases i with
    | zero => exact Or.inl ⟨rfl, (Option.some.inj mem).symm⟩
    | succ i => exact Or.inr ⟨by simp, mem⟩

end head

theorem named_same (named : Named s) (running : t.running = s.running)
    (children : s.children = [] → t.children = []) : Named t := by
  intro slot mem used
  rw [running] at mem
  exact named slot mem (used.imp id fun some_child empty => some_child (children empty))

theorem run_child_named (named : Named s) {colle : CollEntry} {i : Nat} {result : Launch}
    (free : s.freeSlot = some i) (peaceful : Peaceful (.launch 0 result)) :
    Named (runChild o colle i result s).1 := by
  have busy : i ≠ 0 → ∀ slot ∈ s.running.head?, slot.cmd.isSome = true := by
    intro later slot mem
    obtain ⟨inside, _, before⟩ := List.findIdx?_eq_some_iff_getElem.mp free
    refine named slot mem (Or.inl ?_)
    cases slots : s.running with
    | nil => simp [slots] at mem
    | cons first rest =>
      have used := before 0 (Nat.pos_of_ne_zero later)
      simp only [slots, List.getElem_cons_zero] at used
      rw [slots] at mem
      obtain rfl := Option.some.inj mem
      simpa using used
  have set : Named { s with running := s.running.modify i ({ · with cmd := some colle }) } := by
    intro slot mem used
    rcases modify_head mem with ⟨_, old, _, rfl⟩ | ⟨later, mem⟩
    · rfl
    · exact busy later slot mem
  cases result with
  | noOutput => exact named
  | noPipe => exact named
  | noFork => exact set
  | garbled => exact peaceful.elim
  | failed status left =>
    cases left with
    | some pid => exact peaceful.elim
    | none => exact named_same set rfl fun empty => (List.append_nil _).trans empty
  | started pid =>
    intro slot mem used
    rcases modify_head mem with ⟨_, old, _, rfl⟩ | ⟨later, mem⟩
    · rfl
    · exact busy later slot mem

theorem finish_named {err : Int} (named : Named s) : Named (finish o err s) := by
  obtain ⟨_, _, _, _, _, _, same⟩ := finish_frame o err s
  rw [same]
  exact named

theorem freed_named {i : Nat} {slot : Slot} (named : Named s) (here : s.running[i]? = some slot)
    (running : t.running = s.running.set i { slot with pgrp := 0 })
    (children : s.children = [] → t.children = []) : Named t := by
  intro first mem used
  rw [running] at mem
  have kept : t.children ≠ [] → s.children ≠ [] := fun some_child empty => some_child (children empty)
  rcases set_head mem with ⟨rfl, rfl⟩ | ⟨_, mem⟩
  · refine named slot (by rwa [List.head?_eq_getElem?]) (Or.inr (kept ?_))
    exact used.resolve_left fun busy => busy rfl
  · exact named first mem (used.imp id kept)

theorem ended_named {pid : Nat} {status : Status} (named : Named s) :
    Named (ended o pid status s).1 := by
  rw [ended]
  have counted : Named (if status.terminated then { s with numActive := s.numActive - 1 } else s) := by
    split
    · exact named
    · exact named
  generalize (if status.terminated then { s with numActive := s.numActive - 1 } else s) = u at *
  split
  · exact counted
  · split
    · exact counted
    · rename_i i _ slot here
      exact freed_named counted here rfl id

theorem named_step (named : Named s) (inv : InOrder o coll k s) (peaceful : Peaceful act)
    (stepped : step o coll act s = some t) : Named t := by
  cases step_cases stepped with
  | @launch draw result _ pc launched =>
    rw [launch] at launched
    split at launched
    · obtain ⟨i, free, launched⟩ := Option.bind_eq_some_iff.mp launched
      obtain ⟨colle, _, launched⟩ := Option.bind_eq_some_iff.mp launched
      obtain rfl := Option.some.inj launched
      have ran : Named (runChild o colle i result s).1 := by
        refine run_child_named named free ?_
        cases result with
        | failed status left => cases left <;> exact peaceful
        | _ => exact peaceful
      exact ran
    · cases launched
  | turn pc turned =>
    obtain ⟨rfl, _⟩ := turn_quiet inv turned
    exact named
  | report found heard =>
    refine finish_named (ended_named (named_same named rfl ?_))
    intro empty
    simp [reported, updateChild, empty]
  | still pc here some_asked silent =>
    rw [pollAgain]
    split
    · exact named
    · exact named
  | failed pc here unasked =>
    refine finish_named ?_
    intro first mem used
    rcases modify_head mem with ⟨_, old, there, rfl⟩ | ⟨_, mem⟩
    · exact named old there (Or.inr (used.resolve_left fun busy => busy rfl))
    · exact named first mem used
  | childless pc empty => exact finish_named named
  | interrupted pc some_child => exact peaceful.elim
  | signal sig => exact peaceful.elim
  | news found lives => exact named_same named rfl fun empty => by simp [updateChild, empty]
  | leave pid => exact peaceful.elim

theorem in_order_run (sequential : o.sequential = true) (brakes : o.hasBrakes = false)
    {acts : List Act} (inv : InOrder o coll k s) (named : Named s)
    (peaceful : ∀ act ∈ acts, Peaceful act) (ran : run (step o coll) acts s = some t) :
    ∃ n, InOrder o coll (k + n) t ∧ Named t ∧ calls o coll acts s = (List.range' k n).map fun index => (index, 0) := by
  induction acts generalizing k s with
  | nil =>
    obtain rfl := Option.some.inj ran
    exact ⟨0, inv, named, rfl⟩
  | cons act acts ih =>
    obtain ⟨here, later⟩ := List.forall_mem_cons.mp peaceful
    obtain ⟨u, taken, rest⟩ := run_cons ran
    obtain ⟨m, next, first⟩ := in_order_step sequential brakes inv named here taken
    obtain ⟨n, last, named', others⟩ := ih next (named_step named inv here taken) later rest
    refine ⟨m + n, by rwa [← Nat.add_assoc], named', ?_⟩
    rw [calls, taken, ← List.range'_append_1, List.map_append, ← first, ← others]

end order

section progress
variable {o : Opts} {coll : List CollEntry} {k : Nat} {s t : State}

theorem launch_due (sequential : o.sequential = true) (inv : InOrder o coll k s)
    (schedule : s.pc = .schedule) (wants : s.wantsStart o = true) (free : (!s.held) = true) :
    ∃ t, step o coll (.launch 0 (.failed (.exited 1) none)) s = some t ∧ t.pc = .schedule := by
  obtain ⟨i, found⟩ := Option.isSome_iff_exists.mp (slot_free inv wants)
  rw [State.wantsStart, Bool.and_eq_true, bne_iff_ne] at wants
  have left := inv.starts
  have made := inv.made
  have less : k < coll.length := by
    have more := wants.2
    omega
  have index : s.next o coll 0 = k := by
    rw [State.next, if_pos sequential, inv.c, Nat.mod_eq_of_lt less]
  rw [step, schedule]
  simp only
  rw [launch, if_pos ⟨by rw [State.wantsStart, Bool.and_eq_true, bne_iff_ne]; exact wants, free, rfl⟩, found]
  simp only [Option.bind_eq_bind, Option.bind_some, index]
  rw [List.getElem?_eq_getElem less]
  exact ⟨_, rfl, schedule⟩

theorem turn_due (coll : List CollEntry) (schedule : s.pc = .schedule)
    (full : ¬ (s.wantsStart o = true ∧ (!s.held) = true)) :
    ∃ t, step o coll (.turn false) s = some t := by
  rw [step, schedule]
  simp only
  rw [turn, if_neg fun all => full ⟨all.1, all.2.1⟩]
  exact ⟨_, rfl⟩

def Asked (s : State) (child : Child) : Prop :=
  match s.pc with
  | .poll i _ => ∃ slot, s.running[i]? = some slot ∧ child.asked slot.pgrp = true
  | .wait => True
  | _ => False

theorem find_child {children : List Child} {child : Child}
    (nodup : (children.map (·.pid)).Nodup) (mem : child ∈ children) :
    children.find? (·.pid == child.pid) = some child := by
  cases there : children.find? (·.pid == child.pid) with
  | none => simpa using List.find?_eq_none.mp there child mem
  | some other =>
    rw [List.inj_on_of_nodup_map nodup (List.mem_of_find?_eq_some there) mem (find_pid there)]

theorem report_due (o : Opts) (coll : List CollEntry) {child : Child} {status : Status}
    (nodup : (s.children.map (·.pid)).Nodup) (mem : child ∈ s.children) (asked : Asked s child)
    (news : child.news = some status) (terminated : status.terminated = true) :
    ∃ t, step o coll (.report child.pid) s = some t ∧
      t.children.length + 1 = s.children.length ∧ (t.pc = .schedule ∨ t.pc = .exited) := by
  have found : s.children.find? (·.pid == child.pid) = some child := find_child nodup mem
  have report : child.report s = some status := by
    rw [Child.report]
    rw [Asked] at asked
    split at asked
    · rename_i i pcnt pc
      obtain ⟨slot, here, asks⟩ := asked
      simp only [pc, here, asks, if_true, news]
    · rename_i pc
      simp [pc, news, terminated]
    · exact asked.elim
  have stepped : ∃ t, step o coll (.report child.pid) s = some t ∧ (t.pc = .schedule ∨ t.pc = .exited) := by
    rw [step, found]
    simp only [Option.bind_eq_bind, Option.bind_some, report]
    exact ⟨_, rfl, (exit_test_pc _).imp And.left And.left⟩
  obtain ⟨t, stepped, place⟩ := stepped
  obtain ⟨other, status', _, found', news', _, _, children⟩ := report_effect stepped
  obtain rfl := Option.some.inj (found.symm.trans found')
  obtain rfl := Option.some.inj (news.symm.trans news')
  refine ⟨t, stepped, ?_, place⟩
  rw [children, reported, if_pos terminated]
  exact pids_filter nodup mem

theorem asked_child (inv : InOrder o coll k s) (waits : s.waits = true) (more : s.starts ≠ 0)
    (some_slot : o.keepActive ≠ 0) : ∃ child ∈ s.children, Asked s child := by
  have some_children : s.children ≠ [] := by
    intro empty
    have none := inv.count more
    rw [empty] at none
    exact inv.waiting waits more some_slot none
  obtain ⟨child, mem⟩ := List.exists_mem_of_ne_nil _ some_children
  rw [State.waits] at waits
  split at waits
  · rename_i i pcnt pc
    have inside := inv.index i pcnt pc
    have width := inv.housed.width
    rw [State.pgrps, List.length_map] at width
    rw [← width] at inside
    have here := List.getElem?_eq_getElem inside
    by_cases free : s.running[i].pgrp = 0
    · refine ⟨child, mem, ?_⟩
      rw [Asked, pc]
      exact ⟨_, here, by rw [Child.asked, if_pos free, inv.housed.inGroup child mem]⟩
    · obtain ⟨other, there, same⟩ := inv.housed.tracked.alive s.running[i].pgrp
        (List.mem_map.mpr ⟨_, List.getElem_mem inside, rfl⟩) free
      refine ⟨other, there, ?_⟩
      rw [Asked, pc]
      exact ⟨_, here, by rw [Child.asked, if_neg free, same, beq_self_eq_true]⟩
  · rename_i pc
    refine ⟨child, mem, ?_⟩
    rw [Asked, pc]
    trivial
  · cases waits

theorem wait_due (sequential : o.sequential = true) (brakes : o.hasBrakes = false)
    (inv : InOrder o coll k s) (named : Named s) (waits : s.waits = true) (more : s.starts ≠ 0)
    (some_slot : o.keepActive ≠ 0) :
    ∃ acts t, (∀ act ∈ acts, Peaceful act) ∧ run (step o coll) acts s = some t ∧
      t.children.length + 1 = s.children.length ∧ (t.pc = .schedule ∨ t.pc = .exited) := by
  obtain ⟨child, mem, asked⟩ := asked_child inv waits more some_slot
  by_cases gone : child.news.any (·.terminated) = true
  · obtain ⟨status, news, terminated⟩ := (Option.any_eq_true _ _).mp gone
    obtain ⟨t, stepped, fewer, place⟩ := report_due o coll inv.housed.nodup mem asked news terminated
    exact ⟨[.report child.pid], t, by simp [Peaceful], by rw [run, stepped]; rfl, fewer, place⟩
  · have found : s.children.find? (·.pid == child.pid) = some child :=
      find_child inv.housed.nodup mem
    have heard : step o coll (.news child.pid (.exited 0)) s = some { s with
        children := updateChild child.pid ({ · with news := some (.exited 0) }) s.children } := by
      rw [step, found]
      simp only
      rw [if_neg gone]
    have peaceful : Peaceful (.news child.pid (.exited 0)) := trivial
    obtain ⟨_, next, _⟩ := in_order_step sequential brakes inv named peaceful heard
    have ended : { child with news := some (.exited 0) } ∈
        updateChild child.pid ({ · with news := some (.exited 0) }) s.children :=
      List.mem_map.mpr ⟨child, mem, by rw [if_pos rfl]⟩
    obtain ⟨t, stepped, fewer, place⟩ := report_due o coll next.housed.nodup ended asked rfl rfl
    refine ⟨[.news child.pid (.exited 0), .report child.pid], t, by simp [Peaceful], ?_, ?_, place⟩
    · rw [run, heard, Option.bind_some, run, stepped]
      rfl
    · rw [fewer, updateChild, List.length_map]

def Advances (o : Opts) (coll : List CollEntry) (k : Nat) (s : State) : Prop :=
  ∃ acts t n, (∀ act ∈ acts, Peaceful act) ∧ run (step o coll) acts s = some t ∧
    t.pc ≠ .rebooted ∧ InOrder o coll (k + n) t ∧ Named t ∧
    (n ≠ 0 ∨ t.children.length < s.children.length)

theorem wait_advances (sequential : o.sequential = true) (brakes : o.hasBrakes = false)
    (some_slot : o.keepActive ≠ 0) (inv : InOrder o coll k s) (named : Named s)
    (waits : s.waits = true) (more : s.starts ≠ 0) : Advances o coll k s := by
  obtain ⟨acts, t, peaceful, ran, fewer, place⟩ :=
    wait_due sequential brakes inv named waits more some_slot
  obtain ⟨n, next, named', _⟩ := in_order_run sequential brakes inv named peaceful ran
  have up : t.pc ≠ .rebooted := by
    rcases place with place | place
    · rw [place]
      nofun
    · rw [place]
      nofun
  exact ⟨acts, t, n, peaceful, ran, up, next, named', Or.inr (by omega)⟩

theorem advance (sequential : o.sequential = true) (brakes : o.hasBrakes = false)
    (some_slot : o.keepActive ≠ 0) (inv : InOrder o coll k s) (named : Named s)
    (more : s.starts ≠ 0) (up : s.pc ≠ .rebooted) : Advances o coll k s := by
  cases pc : s.pc with
  | schedule =>
    by_cases ready : s.wantsStart o = true ∧ (!s.held) = true
    · obtain ⟨t, stepped, schedule⟩ := launch_due sequential inv pc ready.1 ready.2
      have launched := stepped
      rw [step, pc] at launched
      have peaceful : Peaceful (.launch 0 (.failed (.exited 1) none)) := trivial
      have next := (launch_in_order sequential inv peaceful pc launched stepped).1
      exact ⟨[.launch 0 (.failed (.exited 1) none)], t, 1, List.forall_mem_singleton.mpr peaceful,
        by rw [run, stepped]; rfl, by rw [schedule]; rintro ⟨⟩, next,
        named_step named inv peaceful stepped, Or.inl (by simp)⟩
    · have peaceful : Peaceful (.turn false) := trivial
      obtain ⟨u, stepped⟩ := turn_due coll pc ready
      have turned := stepped
      rw [step, pc] at turned
      obtain ⟨next, waits⟩ := turn_in_order inv named pc turned stepped
      have same := (turn_unmoved turned).2.2
      have left : u.starts ≠ 0 := by rwa [next.starts, ← inv.starts]
      obtain ⟨acts, t, n, calm, ran, place, last, named', fewer⟩ :=
        wait_advances sequential brakes some_slot next (named_step named inv peaceful stepped)
          (waits more some_slot) left
      refine ⟨.turn false :: acts, t, n, ?_, ?_, place, last, named', by rwa [same] at fewer⟩
      · exact List.forall_mem_cons.mpr ⟨peaceful, calm⟩
      · rw [run, stepped, Option.bind_some, ran]
  | poll i pcnt =>
    exact wait_advances sequential brakes some_slot inv named (by rw [State.waits, pc]) more
  | wait =>
    exact wait_advances sequential brakes some_slot inv named (by rw [State.waits, pc]) more
  | exited => exact absurd (inv.exited pc) more
  | rebooted => exact absurd pc up
  | crashed => exact absurd (inv.crashed pc some_slot) more

theorem calls_reachable (sequential : o.sequential = true) (brakes : o.hasBrakes = false)
    (some_slot : o.keepActive ≠ 0) : ∀ (left size k : Nat) (s : State), coll.length - k = left →
      s.children.length = size → InOrder o coll k s → Named s → s.pc ≠ .rebooted →
      ∃ acts t, (∀ act ∈ acts, Peaceful act) ∧ run (step o coll) acts s = some t ∧ t.starts = 0 := by
  intro left
  induction left using Nat.strong_induction_on with
  | _ left outer =>
    intro size
    induction size using Nat.strong_induction_on with
    | _ size inner =>
      intro k s remaining children inv named up
      by_cases last : s.starts = 0
      · exact ⟨[], s, by simp, rfl, last⟩
      · obtain ⟨acts, t, n, peaceful, ran, up', next, named', further⟩ :=
          advance sequential brakes some_slot inv named last up
        have more : ∃ acts' u, (∀ act ∈ acts', Peaceful act) ∧ run (step o coll) acts' t = some u ∧ u.starts = 0 := by
          have bound := next.made
          by_cases none : n = 0
          · subst none
            exact inner t.children.length (by omega) k t remaining rfl next named' up'
          · exact outer (coll.length - (k + n)) (by omega) t.children.length (k + n) t rfl rfl next
              named' up'
        obtain ⟨acts', u, peaceful', ran', done⟩ := more
        refine ⟨acts ++ acts', u, ?_, (run_append ran).trans ran', done⟩
        intro act mem
        rcases List.mem_append.mp mem with mem | mem
        · exact peaceful act mem
        · exact peaceful' act mem

end progress

theorem initial_in_order (o : Opts) (coll : List CollEntry) (forkInRoad : Bool) :
    InOrder o coll 0 (initial o (defaultStarts false true (-1) o.keepActive coll.length) forkInRoad) ∧
      Named (initial o (defaultStarts false true (-1) o.keepActive coll.length) forkInRoad) := by
  constructor
  · refine ⟨Nat.zero_le _, ?_, (Nat.zero_mod _).symm, rfl, fun stopped => absurd rfl stopped,
      fun _ idle => absurd rfl idle, by rintro ⟨⟩, by rintro _ _ ⟨⟩, by rintro ⟨⟩, by rintro ⟨⟩, fun _ => rfl, ?_⟩
    · simp [initial, defaultStarts]
    · exact ⟨by simp [initial, State.pgrps], initial_tracked o _ forkInRoad, by simp [initial], by rintro _ ⟨⟩⟩
  · intro slot mem used
    rcases used with busy | some_child
    · have first := List.eq_of_mem_replicate (List.mem_of_mem_head? mem)
      rw [first] at busy
      exact absurd rfl busy
    · exact absurd rfl some_child

/-- In sequential mode with the default number of starts the calls of `run_child` are for the
commands in order, each once and in a free slot; `starts` is what is left of them, and the loop ends
only after the last. From every state it can come to the last, unless the machine is rebooted. -/
theorem sequential_calls (o : Opts) (coll : List CollEntry) (forkInRoad : Bool) (acts : List Act)
    (t : State) (sequential : o.sequential = true) (brakes : o.hasBrakes = false)
    (peaceful : ∀ act ∈ acts, Peaceful act)
    (ran : run (step o coll) acts
      (initial o (defaultStarts false true (-1) o.keepActive coll.length) forkInRoad) = some t) :
    ∃ n ≤ coll.length, calls o coll acts
        (initial o (defaultStarts false true (-1) o.keepActive coll.length) forkInRoad) =
        (List.range n).map (fun index => (index, 0)) ∧
      t.starts = coll.length - n ∧
      (t.starts = 0 ↔ n = coll.length) ∧
      (t.pc = .exited → n = coll.length) ∧
      (o.keepActive ≠ 0 → t.pc ≠ .rebooted →
        ∃ acts' u, (∀ act ∈ acts', Peaceful act) ∧ run (step o coll) acts' t = some u ∧ u.starts = 0) := by
  obtain ⟨inv, named⟩ := initial_in_order o coll forkInRoad
  obtain ⟨n, last, named', made⟩ := in_order_run sequential brakes inv named peaceful ran
  rw [Nat.zero_add] at last
  have starts := last.starts
  have bound := last.made
  refine ⟨n, bound, ?_, starts, by omega, ?_, ?_⟩
  · rw [made, List.range_eq_range']
  · intro ended
    have none := last.exited ended
    omega
  · intro some_slot up
    exact calls_reachable sequential brakes some_slot _ _ n t rfl rfl last named' up

def sequentialOpts (keepActive : Nat) : Opts where
  keepActive
  sequential := true
  hasBrakes := false
  trackExitStats := false
  fmtPrint := false
  logfile := false
  failcmdfile := false
  testOutDir := false

theorem two_commands_called :
    ∃ n ≤ 2, calls (sequentialOpts 2) [⟨"ls".toList, "ls".toList⟩, ⟨"ps".toList, "ps".toList⟩]
      [.launch 0 (.failed (.exited 1) none), .launch 0 (.started 7)]
      (initial (sequentialOpts 2) 2 false) = (List.range n).map (fun index => (index, 0)) :=
  (sequential_calls (sequentialOpts 2) [⟨"ls".toList, "ls".toList⟩, ⟨"ps".toList, "ps".toList⟩]
    false [.launch 0 (.failed (.exited 1) none), .launch 0 (.started 7)] _ rfl rfl
    (by simp [Peaceful]) rfl).imp fun _ called => ⟨called.1, called.2.1⟩

theorem no_slot_no_calls (coll : List CollEntry) (keepActive : o.keepActive = 0) (acts : List Act)
    (width : s.pgrps.length = o.keepActive) : calls o coll acts s = [] := by
  induction acts generalizing s with
  | nil => rfl
  | cons act acts ih =>
    rw [calls]
    cases stepped : step o coll act s with
    | none => rfl
    | some t =>
      have empty : s.running = [] := by
        rwa [keepActive, State.pgrps, List.length_map, List.length_eq_zero_iff] at width
      have none : callOf o coll act s = [] := by
        cases act with
        | launch draw result =>
          rw [callOf, State.freeSlot, empty]
          rfl
        | _ => rfl
      simp only
      rw [none, List.nil_append]
      exact ih ((effect_width (step_effect stepped)).trans width)

/-- `-x 0` has no slots, and the command of the collection is never started. -/
theorem no_slot_starts_nothing :
    ¬ ∀ (o : Opts) (coll : List CollEntry), o.sequential = true → o.hasBrakes = false →
      ∃ acts t, (∀ act ∈ acts, Peaceful act) ∧ run (step o coll) acts
          (initial o (defaultStarts false true (-1) o.keepActive coll.length) false) = some t ∧
        calls o coll acts
          (initial o (defaultStarts false true (-1) o.keepActive coll.length) false) =
          (List.range coll.length).map (fun index => (index, 0)) ∧
        t.starts = 0 := by
  intro always
  obtain ⟨acts, t, _, _, made, _⟩ := always (sequentialOpts 0) [⟨"ls".toList, "ls".toList⟩] rfl rfl
  have none := no_slot_no_calls (o := sequentialOpts 0) [⟨"ls".toList, "ls".toList⟩] rfl acts
    (s := initial (sequentialOpts 0) (defaultStarts false true (-1) 0 1) false) rfl
  have same := congrArg List.length (made.symm.trans none)
  simp at same

end VteScheduler
