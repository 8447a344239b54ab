import Mathlib.Data.List.Induction
import Mathlib.Order.Bounds.Basic
import Vte.Base.Machine

/-!
testcases/network/stress/ns-tools/ns-tcpserver.c: `handle_client` in the concurrent mode, next to the
children that it forks. Between two calls of the server a child may exit and SIGHUP may come.
-/
namespace VteTcpServer

/-- Where the server is: at the head of the loop, before a call of select(), accept(), fork() or
waitpid(), or at its end. -/
inductive Pc where
  | top
  | select
  | accept
  | fork
  | wait
  | returned
  | fatal
deriving DecidableEq

inductive Selected where
  | failed
  | timeout
  | ready
  | other
deriving DecidableEq

/-- What happens next; `closes` says whether the calls of close() in the step succeed. -/
inductive Event where
  | exits (child : Nat) (status : Int)
  | sighup
  | loop (closes : Bool)
  | select (result : Selected) (closes : Bool)
  | accept (succeeds closes : Bool)
  | fork (succeeds closes : Bool)
  | wait (child : Nat)
deriving DecidableEq

/-- `children` are forked and not yet waited for, with their status once they have exited; `reaped`
holds the statuses of those waited for. -/
structure State where
  children : List (Option Int)
  reaped : List Int
  current_connection : Int
  max_connection : Int
  lost_connection : Int
  do_accept : Bool
  catch_sighup : Bool
  ret : Int
  /-- the calls of close() for the listening socket -/
  closed : Nat
  /-- a call of close() has failed -/
  closeFailed : Bool
  pc : Pc

def initial : State where
  children := []
  reaped := []
  current_connection := 0
  max_connection := 0
  lost_connection := 0
  do_accept := true
  catch_sighup := false
  ret := 0
  closed := 0
  closeFailed := false
  pc := .top

section code
variable (s : State)

/-- `do_accept = 0; if (close(info_p->listen_sd)) fatal_error("close()"); continue;` -/
def stopAccept (closes : Bool) : State :=
  { s with
    do_accept := false, closed := s.closed + 1, closeFailed := s.closeFailed || !closes,
    pc := if closes then .top else .fatal }

def failed : State := { s with ret := if s.catch_sighup then s.ret else 1 }

def loopStep (closes : Bool) : State :=
  if s.do_accept then
    if s.catch_sighup then stopAccept s closes else { s with pc := .select }
  else { s with pc := .wait }

def selectStep (closes : Bool) : Selected → State
  | .failed => stopAccept (failed s) closes
  | .timeout => { s with pc := .wait }
  | .ready => { s with pc := .accept }
  | .other => { s with pc := .top }

def acceptStep (succeeds closes : Bool) : State :=
  if succeeds then { s with pc := .fork } else stopAccept (failed s) closes

def forkStep (succeeds closes : Bool) : State :=
  if succeeds then
    let s := { s with children := s.children ++ [none] }
    if closes then
      { s with
        current_connection := s.current_connection + 1
        max_connection := if s.max_connection < s.current_connection + 1
          then s.current_connection + 1 else s.max_connection
        pc := .wait }
    else { s with closeFailed := true, pc := .fatal }
  else stopAccept s closes

/-- What follows `delete_zombies`: the next turn, or the end when no connection is accepted. -/
def afterDelete : State :=
  if s.do_accept = false ∧ s.current_connection = 0 then { s with pc := .returned }
  else { s with pc := .top }

/-- One turn of `delete_zombies`, where `waitpid` finds the child, no child that has exited, or no
child at all. -/
def waitStep (child : Nat) : Option State :=
  if s.current_connection = 0 then some (afterDelete s)
  else if s.children = [] then some { s with pc := .fatal }
  else if s.children.all Option.isNone then some (afterDelete s)
  else
    match s.children[child]? with
    | some (some status) =>
      some { s with
        children := s.children.eraseIdx child
        reaped := s.reaped ++ [status]
        current_connection := s.current_connection - 1
        lost_connection := if status ≠ 0 then s.lost_connection + 1 else s.lost_connection }
    | _ => none

end code

def step : Event → State → Option State
  | .exits child status, s =>
    if s.children[child]? = some none then
      some { s with children := s.children.set child (some status) }
    else none
  | .sighup, s => some { s with catch_sighup := true }
  | .loop closes, s => if s.pc = .top then some (loopStep s closes) else none
  | .select result closes, s => if s.pc = .select then some (selectStep s closes result) else none
  | .accept succeeds closes, s =>
    if s.pc = .accept then some (acceptStep s succeeds closes) else none
  | .fork succeeds closes, s => if s.pc = .fork then some (forkStep s succeeds closes) else none
  | .wait child, s => if s.pc = .wait then waitStep s child else none

section spec
open Machine

structure Counted (s : State) : Prop where
  current : s.current_connection = s.children.length
  lost : s.lost_connection = (s.reaped.filter (· ≠ 0)).length
  closed : s.closed = if s.do_accept then 0 else 1
  accepting : s.pc = .select ∨ s.pc = .accept ∨ s.pc = .fork → s.do_accept = true
  none_left : s.pc = .returned → s.do_accept = false ∧ s.children = []

def currents (events : List Event) : Set Int :=
  { n | ∃ before, before <+: events ∧ ∃ u, run step before initial = some u ∧ u.current_connection = n }

/-- The counters are right, the socket is closed once, and no child is left at the return; a fatal
error comes from a failed close() only. -/
structure Accounting (events : List Event) (s : State) : Prop where
  counted : s.pc ≠ .fatal → Counted s
  maximum : IsGreatest (currents events) s.max_connection
  only_close : s.pc = .fatal → s.closeFailed = true

end spec

section steps
variable {s t : State} {event : Event}

structure Inv (s : State) : Prop where
  counted : s.pc ≠ .fatal → Counted s
  below : s.current_connection ≤ s.max_connection
  only_close : s.pc = .fatal → s.closeFailed = true

theorem stop_inv (closes : Bool) (accepting : s.do_accept = true) (alive : s.pc ≠ .fatal)
    (inv : Inv s) : Inv (stopAccept s closes) := by
  have counted := inv.counted alive
  have closed := counted.closed
  rw [accepting] at closed
  cases closes with
  | false => exact ⟨fun live => absurd rfl live, inv.below, fun _ => Bool.or_true s.closeFailed⟩
  | true =>
    refine ⟨fun _ => ⟨counted.current, counted.lost, ?_, fun impossible => ?_, nofun⟩, inv.below, nofun⟩
    · exact congrArg (· + 1) closed
    · rcases impossible with same | same | same <;> cases same

theorem failed_inv (inv : Inv s) : Inv (failed s) :=
  ⟨fun live => ⟨(inv.counted live).current, (inv.counted live).lost, (inv.counted live).closed,
    (inv.counted live).accepting, (inv.counted live).none_left⟩, inv.below, inv.only_close⟩

theorem move_inv {pc : Pc} (inv : Inv s) (alive : s.pc ≠ .fatal) (live : pc ≠ .fatal)
    (accepting : pc = .select ∨ pc = .accept ∨ pc = .fork → s.do_accept = true)
    (none_left : pc = .returned → s.do_accept = false ∧ s.children = []) :
    Inv { s with pc := pc } := by
  have counted := inv.counted alive
  exact ⟨fun _ => ⟨counted.current, counted.lost, counted.closed, accepting, none_left⟩, inv.below,
    fun fatal => absurd fatal live⟩

theorem after_delete_inv (inv : Inv s) (alive : s.pc ≠ .fatal) : Inv (afterDelete s) := by
  unfold afterDelete
  split
  · rename_i ended
    refine move_inv inv alive nofun (fun moved => absurd moved (by decide))
      fun _ => ⟨ended.1, ?_⟩
    have current := (inv.counted alive).current
    exact List.length_eq_zero_iff.mp (by omega)
  · exact move_inv inv alive nofun (fun moved => absurd moved (by decide)) nofun

theorem loop_inv (closes : Bool) (here : s.pc = .top) (inv : Inv s) : Inv (loopStep s closes) := by
  have alive : s.pc ≠ .fatal := here ▸ nofun
  unfold loopStep
  split
  · rename_i accepting
    split
    · exact stop_inv closes accepting alive inv
    · exact move_inv inv alive nofun (fun _ => accepting) nofun
  · exact move_inv inv alive nofun (fun moved => absurd moved (by decide)) nofun

theorem select_inv (closes : Bool) (result : Selected) (here : s.pc = .select) (inv : Inv s) :
    Inv (selectStep s closes result) := by
  have alive : s.pc ≠ .fatal := here ▸ nofun
  have accepting := (inv.counted alive).accepting (.inl here)
  cases result with
  | failed => exact stop_inv closes accepting alive (failed_inv inv)
  | timeout =>
    exact move_inv inv alive nofun (fun moved => absurd moved (by decide)) nofun
  | ready => exact move_inv inv alive nofun (fun _ => accepting) nofun
  | other =>
    exact move_inv inv alive nofun (fun moved => absurd moved (by decide)) nofun

theorem accept_inv (succeeds closes : Bool) (here : s.pc = .accept) (inv : Inv s) :
    Inv (acceptStep s succeeds closes) := by
  have alive : s.pc ≠ .fatal := here ▸ nofun
  have accepting := (inv.counted alive).accepting (.inr (.inl here))
  cases succeeds with
  | true => exact move_inv inv alive nofun (fun _ => accepting) nofun
  | false => exact stop_inv closes accepting alive (failed_inv inv)

theorem fork_inv (succeeds closes : Bool) (here : s.pc = .fork) (inv : Inv s) :
    Inv (forkStep s succeeds closes) := by
  have alive : s.pc ≠ .fatal := here ▸ nofun
  have counted := inv.counted alive
  have accepting := counted.accepting (.inr (.inr here))
  have below := inv.below
  cases succeeds with
  | false => exact stop_inv closes accepting alive inv
  | true =>
    cases closes with
    | false => exact ⟨fun live => absurd rfl live, below, fun _ => rfl⟩
    | true =>
      refine ⟨fun _ => ⟨?_, counted.lost, counted.closed, fun _ => accepting, nofun⟩, ?_, nofun⟩
      · have current := counted.current
        simp only [forkStep, if_true, List.length_append, List.length_singleton]
        omega
      · simp only [forkStep, if_true]
        split <;> omega

theorem wait_inv {child : Nat} (here : s.pc = .wait) (inv : Inv s)
    (taken : waitStep s child = some t) : Inv t := by
  have alive : s.pc ≠ .fatal := here ▸ nofun
  have counted := inv.counted alive
  have current := counted.current
  have below := inv.below
  unfold waitStep at taken
  split at taken
  · obtain rfl := Option.some.inj taken
    exact after_delete_inv inv alive
  split at taken
  · rename_i some_child no_child
    rw [no_child] at current
    exact absurd current some_child
  split at taken
  · obtain rfl := Option.some.inj taken
    exact after_delete_inv inv alive
  split at taken
  · rename_i status found
    obtain rfl := Option.some.inj taken
    obtain ⟨inside, _⟩ := List.getElem?_eq_some_iff.mp found
    refine ⟨fun _ => ⟨?_, ?_, counted.closed, counted.accepting, fun returned => ?_⟩, ?_, fun fatal => ?_⟩
    · dsimp only
      rw [List.length_eraseIdx_of_lt inside]
      omega
    · have lost := counted.lost
      dsimp only
      rw [List.filter_append, List.length_append]
      split
      · rename_i failure
        simp [failure, lost]
      · rename_i success
        simp [success, lost]
    · rw [here] at returned
      cases returned
    · dsimp only
      omega
    · exact absurd fatal alive
  · cases taken

theorem step_cases (taken : step event s = some t) :
    (∃ child status, s.children[child]? = some none ∧ t = { s with children := s.children.set child (some status) }) ∨
    t = { s with catch_sighup := true } ∨
    (s.pc = .top ∧ ∃ closes, t = loopStep s closes) ∨
    (s.pc = .select ∧ ∃ result closes, t = selectStep s closes result) ∨
    (s.pc = .accept ∧ ∃ succeeds closes, t = acceptStep s succeeds closes) ∨
    (s.pc = .fork ∧ ∃ succeeds closes, t = forkStep s succeeds closes) ∨
    (s.pc = .wait ∧ ∃ child, waitStep s child = some t) := by
  cases event with
  | exits child status =>
    obtain ⟨running, next⟩ := Option.ite_none_right_eq_some.mp taken
    exact .inl ⟨child, status, running, (Option.some.inj next).symm⟩
  | sighup => exact .inr (.inl (Option.some.inj taken).symm)
  | loop closes =>
    obtain ⟨here, next⟩ := Option.ite_none_right_eq_some.mp taken
    exact .inr (.inr (.inl ⟨here, closes, (Option.some.inj next).symm⟩))
  | select result closes =>
    obtain ⟨here, next⟩ := Option.ite_none_right_eq_some.mp taken
    exact .inr (.inr (.inr (.inl ⟨here, result, closes, (Option.some.inj next).symm⟩)))
  | accept succeeds closes =>
    obtain ⟨here, next⟩ := Option.ite_none_right_eq_some.mp taken
    exact .inr (.inr (.inr (.inr (.inl ⟨here, succeeds, closes, (Option.some.inj next).symm⟩))))
  | fork succeeds closes =>
    obtain ⟨here, next⟩ := Option.ite_none_right_eq_some.mp taken
    exact .inr (.inr (.inr (.inr (.inr
      (.inl ⟨here, succeeds, closes, (Option.some.inj next).symm⟩)))))
  | wait child =>
    rw [step] at taken
    split at taken
    · rename_i here
      exact .inr (.inr (.inr (.inr (.inr (.inr ⟨here, child, taken⟩)))))
    · cases taken

theorem step_inv (inv : Inv s) (taken : step event s = some t) : Inv t := by
  obtain ⟨child, status, running, rfl⟩ | rfl | ⟨here, closes, rfl⟩ | ⟨here, result, closes, rfl⟩ |
    ⟨here, succeeds, closes, rfl⟩ | ⟨here, succeeds, closes, rfl⟩ | ⟨here, child, waited⟩ :=
    step_cases taken
  · refine ⟨fun live => ?_, inv.below, inv.only_close⟩
    have counted := inv.counted live
    refine ⟨?_, counted.lost, counted.closed, counted.accepting, fun returned => ?_⟩
    · rw [counted.current, List.length_set]
    · rw [(counted.none_left returned).2] at running
      cases running
  · exact ⟨fun live => ⟨(inv.counted live).current, (inv.counted live).lost,
      (inv.counted live).closed, (inv.counted live).accepting, (inv.counted live).none_left⟩,
      inv.below, inv.only_close⟩
  · exact loop_inv closes here inv
  · exact select_inv closes result here inv
  · exact accept_inv succeeds closes here inv
  · exact fork_inv succeeds closes here inv
  · exact wait_inv here inv waited

theorem wait_counts {child : Nat} (taken : waitStep s child = some t) :
    t.max_connection = s.max_connection ∧ t.current_connection ≤ s.current_connection := by
  have ended : (afterDelete s).max_connection = s.max_connection ∧
      (afterDelete s).current_connection ≤ s.current_connection := by
    unfold afterDelete
    split <;> exact ⟨rfl, Int.le_refl _⟩
  unfold waitStep at taken
  split at taken
  · exact Option.some.inj taken ▸ ended
  split at taken
  · obtain rfl := Option.some.inj taken
    exact ⟨rfl, Int.le_refl _⟩
  split at taken
  · exact Option.some.inj taken ▸ ended
  split at taken
  · obtain rfl := Option.some.inj taken
    exact ⟨rfl, Int.sub_le_self _ (by decide)⟩
  · cases taken

theorem step_counts (taken : step event s = some t) :
    t.max_connection = s.max_connection ∧ t.current_connection ≤ s.current_connection ∨
      t.current_connection = s.current_connection + 1 ∧
        t.max_connection = if s.max_connection < t.current_connection then t.current_connection
          else s.max_connection := by
  obtain ⟨child, status, running, rfl⟩ | rfl | ⟨here, closes, rfl⟩ | ⟨here, result, closes, rfl⟩ |
    ⟨here, succeeds, closes, rfl⟩ | ⟨here, succeeds, closes, rfl⟩ | ⟨here, child, waited⟩ :=
    step_cases taken
  · exact .inl ⟨rfl, Int.le_refl _⟩
  · exact .inl ⟨rfl, Int.le_refl _⟩
  · unfold loopStep
    split
    · split <;> exact .inl ⟨rfl, Int.le_refl _⟩
    · exact .inl ⟨rfl, Int.le_refl _⟩
  · cases result <;> exact .inl ⟨rfl, Int.le_refl _⟩
  · cases succeeds <;> exact .inl ⟨rfl, Int.le_refl _⟩
  · cases succeeds with
    | false => exact .inl ⟨rfl, Int.le_refl _⟩
    | true =>
      cases closes with
      | false => exact .inl ⟨rfl, Int.le_refl _⟩
      | true => exact .inr ⟨rfl, rfl⟩
  · exact .inl (wait_counts waited)

end steps

section runs
open Machine
variable {events : List Event} {event : Event} {s t : State}

theorem currents_snoc (ran : run step (events ++ [event]) initial = some t) :
    currents (events ++ [event]) = currents events ∪ {t.current_connection} := by
  ext n
  simp only [currents, List.prefix_concat_iff, Set.mem_ofPred_eq, Set.mem_union, Set.mem_singleton_iff]
  constructor
  · rintro ⟨before, rfl | earlier, u, reached, rfl⟩
    · rw [ran] at reached
      exact .inr (congrArg _ (Option.some.inj reached)).symm
    · exact .inl ⟨before, earlier, u, reached, rfl⟩
  · rintro (⟨before, earlier, u, reached, rfl⟩ | rfl)
    · exact ⟨before, .inr earlier, u, reached, rfl⟩
    · exact ⟨_, .inl rfl, t, ran, rfl⟩

theorem initial_inv : Inv initial :=
  ⟨fun _ => ⟨rfl, rfl, rfl, fun _ => rfl, nofun⟩, Int.le_refl 0, nofun⟩

theorem run_inv (ran : run step events initial = some s) :
    Inv s ∧ IsGreatest (currents events) s.max_connection := by
  induction events using List.reverseRecOn generalizing s with
  | nil =>
    obtain rfl := Option.some.inj ran
    refine ⟨initial_inv, ⟨[], List.prefix_refl [], _, rfl, rfl⟩, ?_⟩
    rintro n ⟨before, none, u, reached, rfl⟩
    rw [List.prefix_nil.mp none] at reached
    exact Option.some.inj reached ▸ Int.le_refl 0
  | append_singleton events event ih =>
    obtain ⟨u, before, last⟩ := run_snoc ran
    obtain ⟨inv, greatest⟩ := ih before
    have next : s.max_connection = max u.max_connection s.current_connection := by
      have below := inv.below
      rcases step_counts last with ⟨same, less⟩ | ⟨more, larger⟩
      · omega
      · rw [larger]
        split <;> omega
    rw [currents_snoc ran, next]
    exact ⟨step_inv inv last, greatest.union isGreatest_singleton⟩

theorem server_accounts (ran : run step events initial = some s) : Accounting events s :=
  ⟨(run_inv ran).1.counted, (run_inv ran).2, (run_inv ran).1.only_close⟩

def oneConnection : List Event :=
  [.loop true, .select .ready true, .accept true true, .fork true true, .wait 0, .exits 0 256,
   .sighup, .loop true, .loop true, .wait 0, .wait 0]

def oneLost : State where
  children := []
  reaped := [256]
  current_connection := 0
  max_connection := 1
  lost_connection := 1
  do_accept := false
  catch_sighup := true
  ret := 0
  closed := 1
  closeFailed := false
  pc := .returned

theorem one_connection_accounted : Accounting oneConnection oneLost := server_accounts rfl

end runs
end VteTcpServer
