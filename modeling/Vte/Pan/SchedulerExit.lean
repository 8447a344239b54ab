import Vte.Pan.SchedulerCount

/-!
pan/ltp-pan.c: the end of the main loop. With the right count, a stopped scheduler whose children
have all terminated counts down to the exit; a wait in a free slot without children does not.
-/
namespace VteScheduler
open Text Machine

structure Finishing (s : State) : Prop where
  stop : s.stop ≠ 0
  terminated : ∀ child ∈ s.children, child.news.any (·.terminated) = true

def isReport : Act → Bool
  | .report _ => true
  | _ => false

def reports (acts : List Act) : Nat := acts.countP isReport

section exit
variable {o : Opts} {coll : List CollEntry} {act : Act} {s t : State}

theorem finish_exits {err : Int} (stop : s.stop ≠ 0) (none : s.numActive = 0) :
    (finish o err s).pc = .exited := by
  have ends (u : State) (stop : u.stop ≠ 0) (none : u.numActive = 0) : u.exitTest.pc = .exited := by
    rw [State.exitTest, if_pos ⟨stop, none⟩]
  rw [finish]
  split
  · exact ends s stop none
  · obtain ⟨_, _, _, _, _, same⟩ := on_error_frame o s
    apply ends
    · rw [same]
      exact stop
    · rw [same]
      exact none

theorem ended_stop (o : Opts) (pid : Nat) (status : Status) (s : State) :
    (ended o pid status s).1.stop = s.stop := by
  rw [ended]
  have counted : (if status.terminated then { s with numActive := s.numActive - 1 } else s).stop = s.stop := by
    split <;> rfl
  generalize (if status.terminated then { s with numActive := s.numActive - 1 } else s) = u at *
  split
  · exact counted
  · split
    · exact counted
    · exact counted

theorem on_signal_stop (s : State) : s.stop ≤ s.onSignal.stop := by
  rw [State.onSignal]
  split
  · exact Nat.le_refl _
  · simp only
    generalize (if s.recSignal = sigusr1 then false else s.forkInRoad) = fork
    cases fork
    · simp
    · simp

theorem stop_step (stepped : step o coll act s = some t) (stop : s.stop ≠ 0) : t.stop ≠ 0 := by
  have finished (err : Int) {u : State} (kept : u.stop ≠ 0) : (finish o err u).stop ≠ 0 := by
    obtain ⟨_, _, _, _, _, _, same⟩ := finish_frame o err u
    rw [same]
    exact kept
  have handled (sig : Nat) : (s.waitHandler sig).stop ≠ 0 := by
    obtain ⟨_, _, _, same⟩ := wait_handler_frame s sig
    rw [same]
    exact stop
  cases step_cases stepped with
  | launch pc launched =>
    rw [launch] at launched
    simp [State.held, stop] at launched
  | turn pc turned =>
    rw [turn] at turned
    have running : ¬ (s.wantsStart o = true ∧ (!s.held) = true) := by
      simp [State.held, stop]
    rw [if_neg fun all => running ⟨all.1, all.2.1⟩] at turned
    obtain rfl := Option.some.inj turned
    simp only [if_neg running]
    refine Nat.ne_of_gt (Nat.lt_of_lt_of_le (Nat.pos_of_ne_zero ?_) (on_signal_stop _))
    split
    · exact Nat.succ_ne_zero _
    · exact stop
  | report found heard =>
    refine finished _ ?_
    rw [ended_stop]
    exact stop
  | still pc here some_asked silent =>
    rw [pollAgain]
    split <;> exact stop
  | failed pc here unasked => exact finished 0 stop
  | childless pc empty => exact finished 0 stop
  | interrupted pc some_child => exact finished 0 (handled _)
  | signal sig => exact handled sig
  | news found lives => exact stop
  | leave pid => exact stop

theorem finishing_not_still (finishing : Finishing s) : step o coll .still s = none := by
  rw [Option.eq_none_iff_forall_not_mem]
  intro t stepped
  cases step_cases stepped with
  | still pc here some_asked silent =>
    obtain ⟨child, mem⟩ := List.exists_mem_of_ne_nil _ some_asked
    have news := List.all_eq_true.mp silent child mem
    have terminated := finishing.terminated child (List.mem_filter.mp mem).1
    cases found : child.news with
    | none => simp [found] at terminated
    | some status => simp [found] at news

theorem finishing_step (tracked : Tracked s) (finishing : Finishing s)
    (meets : Meets act s) (stepped : step o coll act s = some t) :
    Finishing t ∧ t.numActive + (reports [act] : Nat) = s.numActive := by
  have stop := stop_step stepped finishing.stop
  have quiet (is_quiet : isQuiet act = true) (none : reports [act] = 0) :
      Finishing t ∧ t.numActive + (reports [act] : Nat) = s.numActive := by
    obtain ⟨_, count, children⟩ := quiet_step is_quiet stepped
    refine ⟨⟨stop, ?_⟩, by rw [none]; simpa using count⟩
    rw [children]
    exact finishing.terminated
  cases step_cases stepped with
  | report found heard =>
    obtain ⟨child, status, rfl, found, news, _, count, children⟩ := report_effect stepped
    have ended := finishing.terminated child (List.mem_of_find?_eq_some found)
    have terminated : status.terminated = true := by simpa [news] using ended
    rw [if_pos terminated] at count
    refine ⟨⟨stop, ?_⟩, ?_⟩
    · rw [children, reported, if_pos terminated]
      intro other mem
      exact finishing.terminated other (List.mem_filter.mp mem).1
    · have one : reports [.report child.pid] = 1 := rfl
      rw [one]
      omega
  | @failed i pcnt slot pc here unasked =>
    have some_pid : slot.pgrp ≠ 0 := by
      intro free
      simp [Meets, State.pollsFree, State.pgrps, pc, here, free] at meets
    have used : slot.pgrp ∈ s.pgrps := List.mem_map.mpr ⟨slot, List.mem_of_getElem? here, rfl⟩
    obtain ⟨child, inside, same⟩ := tracked.alive slot.pgrp used some_pid
    have asked := List.all_eq_true.mp unasked child inside
    rw [Child.asked, if_neg some_pid] at asked
    simp [same] at asked
  | childless pc empty =>
    obtain ⟨_, count, children⟩ := finish_unmoved o 0 s
    refine ⟨⟨stop, ?_⟩, by simpa [reports, isReport] using count⟩
    rw [children]
    exact finishing.terminated
  | still pc here some_asked silent =>
    rw [finishing_not_still finishing] at stepped
    cases stepped
  | launch pc launched =>
    rw [launch] at launched
    simp [State.held, finishing.stop] at launched
  | news found lives =>
    exact absurd (finishing.terminated _ (List.mem_of_find?_eq_some found)) lives
  | leave pid =>
    refine ⟨⟨stop, ?_⟩, by simp [reports, isReport]⟩
    intro child mem
    obtain ⟨old, inside, rfl⟩ := List.mem_map.mp mem
    split
    · exact finishing.terminated old inside
    · exact finishing.terminated old inside
  | turn pc turned => exact quiet rfl rfl
  | interrupted pc some_child => exact quiet rfl rfl
  | signal sig => exact quiet rfl rfl

theorem exited_step (stepped : step o coll act s = some t) (ended : s.pc = .exited) :
    t.pc = .exited := by
  cases step_cases stepped with
  | signal sig =>
    obtain ⟨_, _, _, same⟩ := wait_handler_frame s sig
    rw [same]
    exact ended
  | news found lives => exact ended
  | leave pid => exact ended
  | report found heard => simp [Child.report, ended] at heard
  | launch pc | turn pc | still pc | failed pc | childless pc | interrupted pc =>
    cases ended.symm.trans pc

theorem report_exits {pid : Nat} (stepped : step o coll (.report pid) s = some t)
    (stop : s.stop ≠ 0) (none : t.numActive = 0) : t.pc = .exited := by
  cases step_cases stepped with
  | report found heard =>
    refine finish_exits ?_ ?_
    · rw [ended_stop]
      exact stop
    · rw [← (finish_unmoved o _ _).2.1]
      exact none

theorem finishing_run {acts : List Act} (tracked : Tracked s) (finishing : Finishing s)
    (along : Along (step o coll) Meets acts s) (ran : run (step o coll) acts s = some t) :
    step o coll .still t = none ∧ t.numActive + (reports acts : Nat) = s.numActive ∧
      (0 < reports acts → t.numActive = 0 → t.pc = .exited) := by
  induction acts generalizing s with
  | nil =>
    obtain rfl := Option.some.inj ran
    exact ⟨finishing_not_still finishing, by simp [reports], fun some_report => by
      simp [reports] at some_report⟩
  | cons act acts ih =>
    obtain ⟨u, taken, rest⟩ := run_cons ran
    obtain ⟨meets, later⟩ := along
    obtain ⟨next, count⟩ := finishing_step tracked finishing meets taken
    obtain ⟨quiet, total, exits⟩ := ih (tracked_step tracked taken) next (later u taken) rest
    have both : reports (act :: acts) = reports [act] + reports acts := by
      rw [reports, reports, reports, ← List.countP_append]
      rfl
    refine ⟨quiet, by omega, ?_⟩
    intro some_report none
    rcases Nat.eq_zero_or_pos (reports acts) with last | more
    · -- the last report is this one, and the loop has ended with it
      have one : isReport act = true := by
        by_contra other
        have zero : reports [act] = 0 := by simp [reports, other]
        omega
      have idle : u.numActive = 0 := by omega
      have ended : u.pc = .exited := by
        cases act with
        | report pid => exact report_exits taken finishing.stop idle
        | _ => cases one
      exact run_invariant (fun _ _ _ before stepped => exited_step stepped before) ended rest
    · exact exits more none

end exit

/-- What is claimed of a state: the count is right and in its bounds, and once the scheduler is
stopped and every child has terminated it counts down to the exit, without a wait in between. -/
structure CountsDown (o : Opts) (coll : List CollEntry) (s : State) : Prop where
  count : s.numActive = occupied s.pgrps
  nonnegative : 0 ≤ s.numActive
  bounded : s.numActive ≤ o.keepActive
  exits : Finishing s → ∀ acts t, Along (step o coll) Meets acts s → run (step o coll) acts s = some t →
      step o coll .still t = none ∧ t.numActive + (reports acts : Nat) = s.numActive ∧
        (0 < reports acts → t.numActive = 0 → t.pc = .exited)

/-- In a run whose steps all meet the condition, every state has the right count. -/
theorem counts_along (o : Opts) (coll : List CollEntry) (starts : Int) (forkInRoad : Bool)
    (acts : List Act) (t : State)
    (along : Along (step o coll) Meets acts (initial o starts forkInRoad))
    (ran : run (step o coll) acts (initial o starts forkInRoad) = some t) :
    CountsDown o coll t := by
  have counted : Counted o t :=
    run_along (fun _ _ _ before meets stepped => counted_step before stepped meets)
      (initial_counted o starts forkInRoad) along ran
  have tracked : Tracked t :=
    run_invariant (fun _ _ _ before stepped => tracked_step before stepped)
      (initial_tracked o starts forkInRoad) ran
  have bound : occupied t.pgrps ≤ t.pgrps.length := List.countP_le_length
  refine ⟨counted.count, ?_, ?_, ?_⟩
  · rw [counted.count]
    exact Int.natCast_nonneg _
  · rw [counted.count, ← counted.width]
    exact Int.ofNat_le.mpr bound
  · intro finishing acts' u along' ran'
    exact finishing_run tracked finishing along' ran'

def sequentialLogged : Opts where
  keepActive := 1
  sequential := true
  hasBrakes := false
  trackExitStats := false
  fmtPrint := true
  logfile := true
  failcmdfile := false
  testOutDir := false

theorem counts_one_command :
    ∃ t, run (step sequentialLogged [⟨"ls".toList, "ls".toList⟩])
      [.launch 0 (.started 7), .turn false, .news 7 (.exited 0), .report 7]
      (initial sequentialLogged 1 false) = some t ∧
      CountsDown sequentialLogged [⟨"ls".toList, "ls".toList⟩] t :=
  ⟨_, rfl, counts_along _ _ 1 false [.launch 0 (.started 7), .turn false, .news 7 (.exited 0), .report 7]
    _ (by decide) rfl⟩

/-- The only command cannot be executed: the wait in its free slot counts below zero. -/
theorem failed_exec_miscounts :
    ¬ ∀ (o : Opts) (coll : List CollEntry) (starts : Int) (forkInRoad : Bool) (acts : List Act)
      (t : State), run (step o coll) acts (initial o starts forkInRoad) = some t →
        t.numActive = occupied t.pgrps ∧ 0 ≤ t.numActive ∧ t.numActive ≤ o.keepActive := by
  intro always
  have counted := (always sequentialLogged [⟨"ls".toList, "ls".toList⟩] 1 false
    [.launch 0 (.failed (.exited 2) none), .turn false, .noChild] _ rfl).2.1
  exact absurd counted (by decide)

end VteScheduler
