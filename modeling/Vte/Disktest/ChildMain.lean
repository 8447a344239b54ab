import Vte.Disktest.ActionSlots
import Vte.Disktest.InRange

/-!
testcases/kernel/io/disktest/childmain.c: the threads of `ChildMain`, one pass after the other, with
the errors and the retries of their I/O. With `CLD_FLG_LBA_SYNC` the action list has one entry for
each action that a thread has taken and not released. A thread that is stopped with an action leaves
without a release, and its entry stays on the list until the list is cleared for the next pass.
-/
namespace VteChildMain
open VteDisktest

/-- What `ChildMain` reads besides the arguments that its actions depend on. -/
structure Settings where
  retries : BitVec 32
  wfsync : Bool
  /-- `GLB_FLG_KILL` -/
  kill : Bool

structure Stops where
  bContinue : Bool
  /-- `SIGNAL_STOP` -/
  signalStop : Bool
  glbRun : Bool

inductive Point where
  | start
  /-- `while (env->bContinue)` -/
  | loop
  | lookSignal
  | lookRun
  | next
  /-- the end of the inner loop -/
  | again
  | leave
  | leaveContinue
  | leaveRun
  | seek
  | sync
  /-- the transfer, and the look at its count -/
  | transfer
  | compare
  | giveUp
  | finish
  | out
  deriving DecidableEq

structure Thread where
  point : Point
  target : Action
  retries : BitVec 32
  isRetry : Bool
  /-- the action that is taken and not released; nothing is decided by it -/
  taken : Option Action

/-- What a step of a thread gets from outside: what `rand` returns, and whether its call succeeds. A
sync that is not due is one that succeeds. -/
structure Input where
  draws : Draws := { sizes := [], lbas := [] }
  succeeds : Bool := true

structure Sys where
  memory : Memory
  stops : Stops
  threads : List Thread
  fault : Option Fault

inductive SysAct where
  | pass (pass : TestPass)
  | thread (i : Nat) (input : Input)
  /-- a signal that sets `SIGNAL_STOP` -/
  | signal
  /-- the end of the time, or of the patience with an I/O, which is an error -/
  | timer (error : Bool)
  /-- an error in another test -/
  | kill

section thread

def Thread.go (t : Thread) (point : Point) : Thread := { t with point }

/-- After an error of a seek or of a transfer: `retries-- > 1`. -/
def Thread.onError (t : Thread) : Thread :=
  if 1 < t.retries.toNat then
    { t with point := .loop, retries := t.retries - 1, isRetry := true }
  else { t with point := .giveUp, retries := t.retries - 1, isRetry := false }

def Thread.takes (t : Thread) (target : Action) : Thread :=
  { t with
    point := .again
    target
    taken := if target.oper.performed then some target else none }

def Thread.releases (t : Thread) : Thread :=
  { t with point := .loop, isRetry := false, taken := none }

def Thread.unlocked (flags : Flags) (settings : Settings) (stops : Stops) (succeeds : Bool)
    (t : Thread) : Option Thread :=
  match t.point with
  | .loop => some <|
    if !stops.bContinue then t.go .out
    else if t.isRetry then t.go .leave
    else { t with point := .lookSignal, retries := settings.retries }
  | .lookSignal => some (t.go (if stops.signalStop then .leave else .lookRun))
  | .lookRun => some (t.go (if stops.glbRun then .next else .leave))
  | .again => some (t.go (if stops.bContinue && t.target.oper = .retry then .lookSignal else .leave))
  | .leave =>
    some (t.go (if t.target.oper = .none || stops.signalStop then .out else .leaveContinue))
  | .leaveContinue => some (t.go (if stops.bContinue then .leaveRun else .out))
  | .leaveRun => some (t.go (if stops.glbRun then .seek else .out))
  | .seek => some <|
    if !succeeds then t.onError
    else t.go (if t.target.oper = .writer && settings.wfsync then .sync else .transfer)
  -- the source holds on to the lock until it has given up; to let go of it only adds interleavings
  | .sync => some (if succeeds then t.go .transfer else { t with point := .giveUp, isRetry := false })
  | .transfer => some <|
    if !succeeds then t.onError
    else t.go (if t.target.oper = .reader && flags.cmpr then .compare else .finish)
  | .compare =>
    some (if succeeds then t.go .finish else { t with point := .giveUp, isRetry := false })
  | _ => none

end thread

section sys
variable (args : ChildArgs) (settings : Settings) (mask : Nat)

/-- `SET_STS_FAIL` where something failed. -/
def setSts (ok : Bool) (m : Memory) : Memory :=
  { m with env := { m.env with testState := { m.env.testState with sts := m.env.testState.sts && ok } } }

def Sys.updateTestState (s : Sys) : Sys :=
  let dies := args.flags.alldie || settings.kill
  { s with
    memory := setSts (!dies) s.memory
    stops := { s.stops with
      bContinue := s.stops.bContinue && !dies
      glbRun := s.stops.glbRun && !settings.kill } }

/-- What thread `i` does under `MutexACTION`. -/
def Sys.locked (s : Sys) (i : Nat) (t : Thread) : Except Fault Memory → Sys
  | .ok memory => { s with memory, threads := s.threads.set i t }
  | .error fault => { s with fault := some fault }

def Sys.threadStep (s : Sys) (i : Nat) (input : Input) (t : Thread) : Option Sys :=
  match t.point with
  | .start =>
    let t := { t with target := t.target.setOper s.memory.env.testState.oper }
    some { s with
      memory := setSts input.succeeds s.memory
      threads := s.threads.set i (t.go (if input.succeeds then .loop else .out)) }
  | .next => (propose args mask input.draws s.memory.env).map fun p =>
    s.locked i (t.takes (p.checked args).target) (s.memory.record args (p.checked args))
  | .giveUp =>
    let s := s.updateTestState args settings
    some (s.locked i t.releases (s.memory.decrementIoCount args t.target))
  | .finish => some (s.locked i t.releases (s.memory.completeIo args t.target))
  | _ => (t.unlocked args.flags settings s.stops input.succeeds).map fun t =>
    { s with threads := s.threads.set i t }

def emptySlot : Action where
  oper := .writer
  trsiz := 0
  lba := 0

def newThread : Thread where
  point := .start
  target := { oper := .none, trsiz := 0, lba := 0 }
  retries := 0
  isRetry := false
  taken := none

def Sys.startPass (s : Sys) (pass : TestPass) : Sys :=
  { s with
    memory := { env := pass.start args s.memory.env, free := List.replicate args.tKids emptySlot }
    stops := { s.stops with bContinue := true }
    threads := List.replicate args.tKids newThread }

def sysStep (act : SysAct) (s : Sys) : Option Sys :=
  if s.fault.isSome then none
  else match act with
    | .pass pass =>
      if args.flags.has pass ∧ ∀ t ∈ s.threads, t.point = .out then some (s.startPass args pass)
      else none
    | .thread i input => s.threads[i]?.bind (s.threadStep args settings mask i input)
    | .signal => some { s with stops := { s.stops with signalStop := true } }
    | .timer error => some { s with
        memory := setSts (!error) s.memory
        stops := { s.stops with bContinue := false } }
    | .kill => some { s with stops := { s.stops with glbRun := false } }

def sysInit : Sys where
  memory := { env := initEnv args, free := List.replicate args.tKids emptySlot }
  stops := { bContinue := true, signalStop := false, glbRun := true }
  threads := []
  fault := none

end sys

section facts

def Stops.Asked (stops : Stops) : Prop :=
  stops.bContinue = false ∨ stops.signalStop = true ∨ stops.glbRun = false

instance (stops : Stops) : Decidable stops.Asked := inferInstanceAs (Decidable (_ ∨ _))

/-- What a thread has taken, by where it is. A thread that comes to `leave` without an action of its
own finds a reason to leave at one of the looks that are left. -/
def Thread.Facts (stops : Stops) (t : Thread) : Prop :=
  match t.point with
  | .start => t.taken = none ∧ t.isRetry = false
  | .loop => t.taken = if t.isRetry then some t.target else none
  | .again => t.taken = if t.target.oper.performed then some t.target else none
  | .leave => t.taken = some t.target ∨ t.taken = none ∧ (t.target.oper = .none ∨ stops.Asked)
  | .leaveContinue =>
    t.taken = some t.target ∨ t.taken = none ∧ (stops.bContinue = false ∨ stops.glbRun = false)
  | .leaveRun => t.taken = some t.target ∨ t.taken = none ∧ stops.glbRun = false
  | .out => t.taken = none ∨ stops.Asked
  | .lookSignal | .lookRun | .next => t.taken = none
  | .seek | .sync | .transfer | .compare | .giveUp | .finish => t.taken = some t.target

structure Thread.Inv (stops : Stops) (t : Thread) : Prop where
  facts : t.Facts stops
  performed : ∀ a ∈ t.taken, a.oper.performed

structure Lowered (stops stops' : Stops) : Prop where
  bContinue : stops.bContinue = false → stops'.bContinue = false
  signalStop : stops.signalStop = true → stops'.signalStop = true
  glbRun : stops.glbRun = false → stops'.glbRun = false

variable {stops stops' : Stops} {t t' : Thread}

theorem lowered_asked (lowered : Lowered stops stops') (asked : stops.Asked) : stops'.Asked :=
  asked.imp lowered.bContinue (Or.imp lowered.signalStop lowered.glbRun)

theorem facts_lowered (lowered : Lowered stops stops') (facts : t.Facts stops) : t.Facts stops' := by
  unfold Thread.Facts at facts ⊢
  cases point : t.point
  case leave =>
    rw [point] at facts
    exact facts.imp_right (And.imp_right (Or.imp_right (lowered_asked lowered)))
  case leaveContinue =>
    rw [point] at facts
    exact facts.imp_right (And.imp_right (Or.imp lowered.bContinue lowered.glbRun))
  case leaveRun =>
    rw [point] at facts
    exact facts.imp_right (And.imp_right lowered.glbRun)
  case out =>
    rw [point] at facts
    exact facts.imp_right (lowered_asked lowered)
  all_goals rwa [point] at facts

theorem on_error_facts (taken : t.taken = some t.target) :
    t.onError.Facts stops ∧ t.onError.taken = t.taken := by
  unfold Thread.onError
  split
  · exact ⟨taken, rfl⟩
  · exact ⟨taken, rfl⟩

theorem unlocked_facts {flags : Flags} {settings : Settings} {succeeds : Bool}
    (inv : t.Inv stops) (moved : t.unlocked flags settings stops succeeds = some t') :
    t'.Facts stops ∧ t'.taken = t.taken := by
  obtain ⟨facts, performed⟩ := inv
  unfold Thread.Facts at facts
  unfold Thread.unlocked at moved
  cases point : t.point with
  | start => rw [point] at moved; cases moved
  | loop =>
    rw [point] at facts moved
    obtain rfl := Option.some.inj moved
    cases goes : stops.bContinue with
    | false => exact ⟨Or.inr (Or.inl goes), rfl⟩
    | true =>
      cases again : t.isRetry with
      | true =>
        simp only [again, if_true] at facts
        exact ⟨Or.inl facts, rfl⟩
      | false =>
        simp only [again, Bool.false_eq_true, if_false] at facts
        exact ⟨facts, rfl⟩
  | lookSignal =>
    rw [point] at facts moved
    obtain rfl := Option.some.inj moved
    cases signal : stops.signalStop with
    | true => exact ⟨Or.inr ⟨facts, Or.inr (Or.inr (Or.inl signal))⟩, rfl⟩
    | false => exact ⟨facts, rfl⟩
  | lookRun =>
    rw [point] at facts moved
    obtain rfl := Option.some.inj moved
    cases run : stops.glbRun with
    | true => exact ⟨facts, rfl⟩
    | false => exact ⟨Or.inr ⟨facts, Or.inr (Or.inr (Or.inr run))⟩, rfl⟩
  | next => rw [point] at moved; cases moved
  | again =>
    rw [point] at facts moved
    obtain rfl := Option.some.inj moved
    cases oper : t.target.oper with
    | writer =>
      rw [oper] at facts
      rw [decide_eq_false (by decide), Bool.and_false]
      exact ⟨Or.inl facts, rfl⟩
    | reader =>
      rw [oper] at facts
      rw [decide_eq_false (by decide), Bool.and_false]
      exact ⟨Or.inl facts, rfl⟩
    | none =>
      rw [oper] at facts
      rw [decide_eq_false (by decide), Bool.and_false]
      exact ⟨Or.inr ⟨facts, Or.inl oper⟩, rfl⟩
    | retry =>
      rw [oper] at facts
      cases goes : stops.bContinue with
      | true => exact ⟨facts, rfl⟩
      | false => exact ⟨Or.inr ⟨facts, Or.inr (Or.inl goes)⟩, rfl⟩
  | leave =>
    rw [point] at facts moved
    obtain rfl := Option.some.inj moved
    cases signal : stops.signalStop with
    | true =>
      rw [Bool.or_true]
      exact ⟨Or.inr (Or.inr (Or.inl signal)), rfl⟩
    | false =>
      rw [Bool.or_false]
      by_cases none : t.target.oper = .none
      · rw [decide_eq_true none]
        refine ⟨Or.inl ?_, rfl⟩
        rcases facts with own | ⟨free, _⟩
        · have some := performed t.target own
          rw [none] at some
          cases some
        · exact free
      · rw [decide_eq_false none]
        refine ⟨facts.imp_right fun ⟨free, why⟩ => ⟨free, ?_⟩, rfl⟩
        rcases why with done | stop | signalled | stop
        · exact absurd done none
        · exact Or.inl stop
        · rw [signal] at signalled
          cases signalled
        · exact Or.inr stop
  | leaveContinue =>
    rw [point] at facts moved
    obtain rfl := Option.some.inj moved
    cases goes : stops.bContinue with
    | false => exact ⟨Or.inr (Or.inl goes), rfl⟩
    | true =>
      refine ⟨facts.imp_right fun ⟨free, why⟩ => ⟨free, ?_⟩, rfl⟩
      rcases why with stop | stop
      · rw [goes] at stop
        cases stop
      · exact stop
  | leaveRun =>
    rw [point] at facts moved
    obtain rfl := Option.some.inj moved
    cases run : stops.glbRun with
    | false => exact ⟨Or.inr (Or.inr (Or.inr run)), rfl⟩
    | true =>
      rcases facts with own | ⟨_, stop⟩
      · exact ⟨own, rfl⟩
      · rw [run] at stop
        cases stop
  | seek =>
    rw [point] at facts moved
    obtain rfl := Option.some.inj moved
    cases succeeds with
    | false => exact on_error_facts facts
    | true =>
      cases decide (t.target.oper = .writer) && settings.wfsync with
      | false => exact ⟨facts, rfl⟩
      | true => exact ⟨facts, rfl⟩
  | sync =>
    rw [point] at facts moved
    obtain rfl := Option.some.inj moved
    cases succeeds with
    | false => exact ⟨facts, rfl⟩
    | true => exact ⟨facts, rfl⟩
  | transfer =>
    rw [point] at facts moved
    obtain rfl := Option.some.inj moved
    cases succeeds with
    | false => exact on_error_facts facts
    | true =>
      cases decide (t.target.oper = .reader) && flags.cmpr with
      | false => exact ⟨facts, rfl⟩
      | true => exact ⟨facts, rfl⟩
  | compare =>
    rw [point] at facts moved
    obtain rfl := Option.some.inj moved
    cases succeeds with
    | false => exact ⟨facts, rfl⟩
    | true => exact ⟨facts, rfl⟩
  | giveUp => rw [point] at moved; cases moved
  | finish => rw [point] at moved; cases moved
  | out => rw [point] at moved; cases moved

end facts

section invariant
variable {args : ChildArgs} {settings : Settings} {mask : Nat} {s : Sys} {i : Nat} {t : Thread}

def held (threads : List Thread) : List Action := threads.filterMap Thread.taken

structure Inv (args : ChildArgs) (s : Sys) : Prop where
  slots : s.memory.slots.length = args.tKids
  crew : s.threads.length ≤ args.tKids
  entries : (s.memory.env.actionList.map Action.lba).Perm ((held s.threads).map Action.lba)
  threads : ∀ t ∈ s.threads, t.Inv s.stops
  fault : s.fault = none

theorem thread_split {threads : List Thread} (here : threads[i]? = some t) :
    ∃ before after, threads = before ++ t :: after ∧ ∀ t', threads.set i t' = before ++ t' :: after := by
  obtain ⟨inside, rfl⟩ := List.getElem?_eq_some_iff.mp here
  have changed : ∀ t', threads.set i t' = threads.take i ++ t' :: threads.drop (i + 1) := by
    intro t'
    rw [List.set_eq_take_append_cons_drop, if_pos inside]
  refine ⟨threads.take i, threads.drop (i + 1), ?_, changed⟩
  rw [← changed, List.set_getElem_self]

theorem held_split (before after : List Thread) (t : Thread) :
    (held (before ++ t :: after)).Perm (t.taken.toList ++ held (before ++ after)) := by
  unfold held
  rw [List.filterMap_append, List.filterMap_append, List.filterMap_cons]
  cases t.taken with
  | none => exact List.Perm.refl _
  | some target => exact List.perm_middle

theorem empty_held {threads : List Thread} (free : ∀ t ∈ threads, t.taken = none) :
    held threads = [] := List.filterMap_eq_nil_iff.mpr free

theorem lowered_inv (inv : Inv args s) {m : Memory} {stops : Stops}
    (list : m.env.actionList = s.memory.env.actionList) (free : m.free = s.memory.free)
    (lowered : Lowered s.stops stops) : Inv args { s with memory := m, stops := stops } where
  slots := by
    rw [Memory.slots, list, free]
    exact inv.slots
  crew := inv.crew
  entries := by
    rw [list]
    exact inv.entries
  threads := fun t member =>
    { facts := facts_lowered lowered (inv.threads t member).facts
      performed := (inv.threads t member).performed }
  fault := inv.fault

theorem set_threads (inv : Inv args s) {t' : Thread} (changed : t'.Inv s.stops) :
    ∀ t ∈ s.threads.set i t', t.Inv s.stops := by
  intro t member
  rcases List.mem_or_eq_of_mem_set member with old | rfl
  · exact inv.threads t old
  · exact changed

theorem alone_inv (inv : Inv args s) (here : s.threads[i]? = some t) {t' : Thread}
    (facts : t'.Facts s.stops) (same : t'.taken = t.taken) :
    Inv args { s with threads := s.threads.set i t' } where
  slots := inv.slots
  crew := by
    rw [List.length_set]
    exact inv.crew
  entries := by
    obtain ⟨before, after, split, changed⟩ := thread_split here
    have kept : held (before ++ t' :: after) = held (before ++ t :: after) := by
      simp only [held, List.filterMap_append, List.filterMap_cons, same]
    rw [changed, kept, ← split]
    exact inv.entries
  threads := by
    refine set_threads inv ⟨facts, ?_⟩
    rw [same]
    exact (inv.threads t (List.mem_of_getElem? here)).performed
  fault := inv.fault

theorem list_room (inv : Inv args s) (here : s.threads[i]? = some t) (free : t.taken = none) :
    s.memory.env.actionList.length < args.tKids := by
  obtain ⟨before, after, split, _⟩ := thread_split here
  have length := inv.entries.length_eq
  rw [List.length_map, List.length_map, split, (held_split before after t).length_eq, free,
    Option.toList_none, List.nil_append] at length
  have some : (held (before ++ after)).length ≤ (before ++ after).length := List.length_filterMap_le ..
  have crew := inv.crew
  rw [split, List.length_append, List.length_cons] at crew
  rw [List.length_append] at some
  omega

theorem held_listed (inv : Inv args s) (member : t ∈ s.threads) (taken : t.taken = some t.target) :
    ∃ e ∈ s.memory.env.actionList, e.lba = t.target.lba := by
  have among : t.target ∈ held s.threads := List.mem_filterMap.mpr ⟨t, member, taken⟩
  exact List.mem_map.mp (inv.entries.symm.subset (List.mem_map_of_mem among))

theorem locked_ok (i : Nat) (t' : Thread) {call : Except Fault Memory} {env : Option TestEnv}
    (refines : Refines s.memory call env) :
    ∃ m, env = some m.env ∧ m.slots.length = s.memory.slots.length ∧
      s.locked i t' call = { s with memory := m, threads := s.threads.set i t' } := by
  obtain ⟨m, rfl, same, length⟩ := refines
  exact ⟨m, same, length, rfl⟩

theorem release_inv (inv : Inv args s) (here : s.threads[i]? = some t)
    (taken : t.taken = some t.target) {call : Except Fault Memory} {env : Option TestEnv}
    (refines : Refines s.memory call env)
    (removed : ∀ env' ∈ env, env'.actionList = s.memory.env.actionList.eraseP (·.lba == t.target.lba)) :
    Inv args (s.locked i t.releases call) := by
  have member := List.mem_of_getElem? here
  obtain ⟨m, rfl, length, result⟩ := locked_ok i t.releases refines
  have list := removed m.env rfl
  rw [result]
  constructor
  · exact length.trans inv.slots
  · rw [List.length_set]
    exact inv.crew
  · obtain ⟨before, after, split, changed⟩ := thread_split here
    obtain ⟨front, first, back, entries, start, erased, _⟩ :=
      find_slot_listed (held_listed inv member taken)
    have listLbas : (s.memory.env.actionList.map Action.lba).Perm
        (t.target.lba :: (front ++ back).map Action.lba) := by
      rw [entries, List.map_append, List.map_cons, start, List.map_append]
      exact List.perm_middle
    have heldLbas := (held_split before after t).map Action.lba
    rw [← split, taken] at heldLbas
    have rest := ((listLbas.symm.trans inv.entries).trans heldLbas).cons_inv
    rw [list, erased, changed]
    exact rest.trans ((held_split before after t.releases).map Action.lba).symm
  · refine set_threads inv ⟨rfl, ?_⟩
    intro a some
    cases some
  · exact inv.fault

theorem propose_list {draws : Draws} {env : TestEnv} {p : Proposal}
    (proposed : propose args mask draws env = some p) : p.env.actionList = env.actionList := by
  obtain ⟨trsiz, _, picked⟩ := Option.bind_eq_some_iff.mp proposed
  exact (pick_lba_keeps picked).1

theorem take_inv (sync : args.flags.lbaSync = true) (inv : Inv args s)
    (here : s.threads[i]? = some t) (free : t.taken = none) {draws : Draws} {p : Proposal}
    (proposed : propose args mask draws s.memory.env = some p) :
    Inv args (s.locked i (t.takes (p.checked args).target)
      (s.memory.record args (p.checked args))) := by
  have same : (p.checked args).env.actionList = s.memory.env.actionList :=
    (checked_keeps args p).1.trans (propose_list proposed)
  have refines := record_refines same (list_room inv here free) inv.slots
  obtain ⟨m, recorded, length, result⟩ :=
    locked_ok i (t.takes (p.checked args).target) refines
  obtain ⟨_, list⟩ := record_lists sync recorded
  rw [result]
  constructor
  · exact length.trans inv.slots
  · rw [List.length_set]
    exact inv.crew
  · obtain ⟨before, after, split, changed⟩ := thread_split here
    have others := (held_split before after t).map Action.lba
    rw [← split, free] at others
    have added := (held_split before after (t.takes (p.checked args).target)).map Action.lba
    rw [changed]
    refine List.Perm.trans ?_ added.symm
    have rest := inv.entries.trans others
    unfold Thread.takes
    by_cases performed : (p.checked args).target.oper.performed = true
    · rw [if_pos performed] at list ⊢
      rw [list, same, List.map_append]
      exact (List.perm_append_singleton _ _).trans (rest.cons _)
    · rw [if_neg performed] at list ⊢
      rw [list, same]
      exact rest
  · refine set_threads inv ⟨rfl, ?_⟩
    intro a some
    unfold Thread.takes at some
    split at some
    · rename_i performed
      rw [← Option.some.inj some]
      exact performed
    · cases some
  · exact inv.fault

theorem complete_list (sync : args.flags.lbaSync = true) {target : Action} {env env' : TestEnv}
    (done : completeIo args target env = some env') :
    env'.actionList = env.actionList.eraseP (·.lba == target.lba) := by
  rw [remove_spec sync done]
  split <;> rfl

theorem decrement_list (sync : args.flags.lbaSync = true) {target : Action} {env env' : TestEnv}
    (done : decrementIoCount args target env = some env') :
    env'.actionList = env.actionList.eraseP (·.lba == target.lba) := by
  obtain ⟨between, removed, rfl⟩ := Option.map_eq_some_iff.mp done
  rw [remove_spec sync removed]
  split <;> rfl

theorem lowered_refl (stops : Stops) : Lowered stops stops := ⟨id, id, id⟩

theorem update_inv (settings : Settings) (inv : Inv args s) : Inv args (s.updateTestState args settings) := by
  refine lowered_inv inv (m := setSts _ s.memory) rfl rfl ⟨?_, id, ?_⟩
  · intro halted
    rw [halted]
    rfl
  · intro halted
    rw [halted]
    rfl

theorem thread_step_inv (sync : args.flags.lbaSync = true) (inv : Inv args s)
    (here : s.threads[i]? = some t) {input : Input} {s' : Sys}
    (taken : s.threadStep args settings mask i input t = some s') : Inv args s' := by
  have own := inv.threads t (List.mem_of_getElem? here)
  have alone : ∀ t', t.unlocked args.flags settings s.stops input.succeeds = some t' →
      Inv args { s with threads := s.threads.set i t' } := by
    intro t' moved
    obtain ⟨facts, same⟩ := unlocked_facts own moved
    exact alone_inv inv here facts same
  have facts := own.facts
  unfold Thread.Facts at facts
  unfold Sys.threadStep at taken
  cases point : t.point
  case start =>
    rw [point] at facts taken
    obtain rfl := Option.some.inj taken
    have marked := lowered_inv inv (m := setSts input.succeeds s.memory) rfl rfl (lowered_refl s.stops)
    obtain ⟨free, fresh⟩ := facts
    refine alone_inv marked here ?_ rfl
    cases input.succeeds with
    | true =>
      have loops : t.taken =
          if t.isRetry then some (t.target.setOper s.memory.env.testState.oper) else none := by
        rw [free, fresh, if_neg Bool.false_ne_true]
      exact loops
    | false => exact Or.inl free
  case next =>
    rw [point] at facts taken
    obtain ⟨p, proposed, rfl⟩ := Option.map_eq_some_iff.mp taken
    exact take_inv sync inv here facts proposed
  case giveUp =>
    rw [point] at facts taken
    obtain rfl := Option.some.inj taken
    have updated := update_inv settings inv
    have refines := decrement_io_count_refines args
      (held_listed updated (List.mem_of_getElem? here) facts)
    exact release_inv updated here facts refines fun env' done => decrement_list sync done
  case finish =>
    rw [point] at facts taken
    obtain rfl := Option.some.inj taken
    have refines := complete_io_refines args
      (held_listed inv (List.mem_of_getElem? here) facts)
    exact release_inv inv here facts refines fun env' done => complete_list sync done
  all_goals
    rw [point] at taken
    obtain ⟨t', moved, rfl⟩ := Option.map_eq_some_iff.mp taken
    exact alone t' moved

theorem pass_list (pass : TestPass) (env : TestEnv) : (pass.start args env).actionList = [] := by
  cases pass <;> rfl

theorem start_pass_inv (fault : s.fault = none) (pass : TestPass) :
    Inv args (s.startPass args pass) where
  slots := by
    rw [Sys.startPass, Memory.slots, pass_list, List.nil_append, List.length_replicate]
  crew := by
    rw [Sys.startPass, List.length_replicate]
  entries := by
    have free : ∀ t ∈ List.replicate args.tKids newThread, t.taken = none := by
      intro t member
      rw [List.eq_of_mem_replicate member]
      rfl
    rw [Sys.startPass, pass_list, empty_held free]
  threads := by
    intro t member
    rw [List.eq_of_mem_replicate member]
    refine ⟨⟨rfl, rfl⟩, ?_⟩
    intro a some
    cases some
  fault := fault

theorem sys_step_inv (sync : args.flags.lbaSync = true) (act : SysAct) (s s' : Sys)
    (inv : Inv args s) (taken : sysStep args settings mask act s = some s') : Inv args s' := by
  unfold sysStep at taken
  have running : s.fault.isSome = false := by
    rw [inv.fault]
    rfl
  rw [running, if_neg Bool.false_ne_true] at taken
  cases act with
  | pass pass =>
    dsimp only at taken
    split at taken
    · obtain rfl := Option.some.inj taken
      exact start_pass_inv inv.fault pass
    · cases taken
  | thread i input =>
    obtain ⟨t, here, stepped⟩ := Option.bind_eq_some_iff.mp taken
    exact thread_step_inv sync inv here stepped
  | signal =>
    obtain rfl := Option.some.inj taken
    have lowered : Lowered s.stops { s.stops with signalStop := true } := ⟨id, fun _ => rfl, id⟩
    exact lowered_inv inv rfl rfl lowered
  | timer error =>
    obtain rfl := Option.some.inj taken
    have lowered : Lowered s.stops { s.stops with bContinue := false } := ⟨fun _ => rfl, id, id⟩
    exact lowered_inv inv (m := setSts _ s.memory) rfl rfl lowered
  | kill =>
    obtain rfl := Option.some.inj taken
    have lowered : Lowered s.stops { s.stops with glbRun := false } := ⟨id, id, fun _ => rfl⟩
    exact lowered_inv inv rfl rfl lowered

theorem sys_init_inv (args : ChildArgs) : Inv args (sysInit args) where
  slots := by simp [sysInit, Memory.slots, initEnv]
  crew := Nat.zero_le _
  entries := List.Perm.nil
  threads := by simp [sysInit]
  fault := rfl

def Sys.inFlight (s : Sys) : List Action := held (s.threads.filter (·.point ≠ .out))

def Sys.leftBehind (s : Sys) : List Action := held (s.threads.filter (·.point = .out))

def Thread.Removes (t : Thread) : Prop := t.point = .giveUp ∨ t.point = .finish

structure ListKept (args : ChildArgs) (s : Sys) : Prop where
  entries : (s.memory.env.actionList.map Action.lba).Perm ((s.inFlight ++ s.leftBehind).map Action.lba)
  left : s.leftBehind ≠ [] → s.stops.Asked
  bounded : s.memory.env.actionList.length ≤ args.tKids
  found : ∀ t ∈ s.threads, t.Removes → ∃ i < s.memory.env.actionList.length,
    findSlot t.target.lba s.memory.env.actionList.length s.memory.slots 0 = .ok i
  noFault : s.fault = none

theorem held_parts (s : Sys) : (s.inFlight ++ s.leftBehind).Perm (held s.threads) := by
  have parts := List.filter_append_perm (fun t : Thread => decide (t.point ≠ .out)) s.threads
  have left : s.threads.filter (fun t => decide (t.point = .out)) =
      s.threads.filter (fun t => !decide (t.point ≠ .out)) := by
    congr
    funext t
    simp
  rw [Sys.inFlight, Sys.leftBehind, left, held, held, ← List.filterMap_append]
  exact parts.filterMap Thread.taken

theorem inv_list_kept (inv : Inv args s) : ListKept args s := by
  constructor
  · exact inv.entries.trans ((held_parts s).map Action.lba).symm
  · intro left
    by_contra calm
    apply left
    apply empty_held
    intro t member
    obtain ⟨inside, out⟩ := List.mem_filter.mp member
    have facts := (inv.threads t inside).facts
    rw [Thread.Facts, of_decide_eq_true out] at facts
    exact facts.resolve_right calm
  · have length := inv.entries.length_eq
    rw [List.length_map, List.length_map] at length
    rw [length]
    exact (List.length_filterMap_le ..).trans inv.crew
  · intro t member removes
    have facts := (inv.threads t member).facts
    have taken : t.taken = some t.target := by
      unfold Thread.Facts at facts
      rcases removes with point | point
      · rwa [point] at facts
      · rwa [point] at facts
    obtain ⟨before, first, after, split, _, _, found⟩ := find_slot_listed (held_listed inv member taken)
    refine ⟨before.length, ?_, found⟩
    rw [split, List.length_append, List.length_cons]
    omega
  · exact inv.fault

/-- The list has one entry for each action in flight, and one for each that a thread was stopped
with; the search of `remove_action` ends at an entry, and nothing aborts. -/
theorem list_follows_threads (args : ChildArgs) (sync : args.flags.lbaSync = true)
    (settings : Settings) (mask : Nat) (acts : List SysAct) (s : Sys)
    (ran : Machine.run (sysStep args settings mask) acts (sysInit args) = some s) :
    ListKept args s :=
  inv_list_kept (Machine.run_invariant (sys_step_inv sync) (sys_init_inv args) ran)

end invariant

section runs

def goOn (i : Nat) : SysAct := .thread i {}

def fails (i : Nat) : SysAct := .thread i { succeeds := false }

def firstAction (i size lba : Nat) : List SysAct :=
  [goOn i, goOn i, goOn i, goOn i, .thread i { draws := { sizes := [size], lbas := [lba] } }, goOn i]

def twoRetries : Settings where
  retries := 2
  wfsync := false
  kill := false

/-- The second thread's seek fails once, and then its write is done; the first thread is still at its
own. -/
def retriedWrite : List SysAct :=
  .pass .mixed :: firstAction 0 3 0 ++ firstAction 1 1 4 ++
    [goOn 1, goOn 1, goOn 1, fails 1, goOn 1, goOn 1, goOn 1, goOn 1, goOn 1, goOn 1, goOn 1]

theorem write_after_retry : ∃ s, Machine.run (sysStep ranged twoRetries 7) retriedWrite (sysInit ranged) = some s ∧
      s.threads.map Thread.point = [.leave, .loop] ∧ ListKept ranged s := by
  have ends : (Machine.run (sysStep ranged twoRetries 7) retriedWrite (sysInit ranged)).map
      (fun s => s.threads.map Thread.point) = some [.leave, .loop] := by
    decide
  obtain ⟨s, ran, points⟩ := Option.map_eq_some_iff.mp ends
  exact ⟨s, ran, points, list_follows_threads ranged rfl twoRetries 7 retriedWrite s ran⟩

def signalled : List SysAct := .pass .mixed :: firstAction 0 3 0 ++ [.signal, goOn 0]

theorem entry_of_stopped : ¬ ∀ (o : Outside) (given args : ChildArgs), Accepted o given args →
    args.flags.lbaSync = true → ∀ (settings : Settings) (mask : Nat) (acts : List SysAct) (s : Sys),
      Machine.run (sysStep args settings mask) acts (sysInit args) = some s →
        (s.memory.env.actionList.map Action.lba).Perm (s.inFlight.map Action.lba) := by
  intro all
  have ends : (Machine.run (sysStep ranged twoRetries 7) signalled (sysInit ranged)).map
      (fun s => (s.memory.env.actionList.map Action.lba, s.inFlight.map Action.lba)) = some ([0], []) := by
    decide
  obtain ⟨s, ran, lists⟩ := Option.map_eq_some_iff.mp ends
  obtain ⟨listed, flying⟩ := Prod.mk.inj lists
  have same := all plainFile rangedGiven ranged ranged_accepted rfl twoRetries 7 signalled s ran
  rw [listed, flying] at same
  cases same.length_eq

end runs
end VteChildMain
