import Mathlib.Logic.Function.Basic

/-!
lib/forker.c: `forker`, in every process that comes out of it. The fork of one pass of the loop
succeeds or fails from outside. A pass of the loop runs in the parent and in the child at once, and
one of the two goes on with it.
-/
namespace Forker

def forkerMaxPids : Nat := 4098

abbrev Pid := { pid : Nat // 0 < pid }

/-- `Forker_npids` and `Forker_pids`; the entries not counted yet are zero. -/
structure Globals where
  npids : Nat
  pids : Fin forkerMaxPids → Nat
  unused : ∀ i, npids ≤ i.val → pids i = 0

def Globals.initial : Globals := ⟨0, fun _ => 0, fun _ _ => rfl⟩

/-- `Forker_pids[i] = value`; undefined past the array. -/
def storePid (g : Globals) (i value : Nat) (used : i < g.npids ∨ value = 0) : Option Globals :=
  if inside : i < forkerMaxPids then
    some { g with
      pids := Function.update g.pids ⟨i, inside⟩ value
      unused := by
        intro j unused
        rw [Function.update_apply]
        split
        · rename_i same
          rw [same] at unused
          exact used.resolve_left (Nat.not_lt.mpr unused)
        · exact g.unused j unused }
  else none

def countFork (g : Globals) : Globals :=
  { g with npids := g.npids + 1, unused := fun i unused => g.unused i (Nat.le_of_succ_le unused) }

def addPid (g : Globals) (pid : Pid) : Option Globals :=
  let g := countFork g
  if g.npids < forkerMaxPids then
    storePid g (g.npids - 1) pid (.inl (Nat.sub_lt (Nat.succ_pos _) Nat.one_pos))
  else some g

def endPids (g : Globals) : Option Globals :=
  if g.npids < forkerMaxPids then storePid g g.npids 0 (.inr rfl) else some g

/-- A process that `forker` returns in. -/
structure Outcome where
  pid : Pid
  value : Int
  globals : Globals
  stderr : Option String

section forker
variable (file : String) (strerror : Int → String) (prefixText : Option String) (mode : Int)
  (fork : Nat → Except Int Pid)

def forkError (errno : Int) : Option String :=
  prefixText.map fun text => text ++ ": " ++ file ++ ",forker(): fork() failed, errno:" ++
    toString errno ++ " " ++ strerror errno ++ "\n"

/-- The loop in the process `self`, with the passes that are left. -/
def forkerLoop : Nat → Nat → Pid → Globals → Option (List Outcome)
  | 0, cnt, self, g => do
    let g ← endPids g
    return [⟨self, (cnt : Int) - 1, g, none⟩]
  | passes + 1, cnt, self, g =>
    if mode = 1 then
      match fork cnt with
      | .error errno => some [⟨self, 0, g, forkError file strerror prefixText errno⟩]
      | .ok pid => do
        let parent ← addPid g pid
        let child ← addPid g pid
        -- the child continues the forking
        let others ← forkerLoop passes (cnt + 1) pid child
        return ⟨self, (cnt : Int) - 1, parent, none⟩ :: others
    else
      match fork cnt with
      | .error errno =>
        some [⟨self, (cnt : Int) - 1, g, forkError file strerror prefixText errno⟩]
      | .ok pid => do
        let parent ← addPid g pid
        let child ← addPid g pid
        -- the parent continues the forking
        let others ← forkerLoop passes (cnt + 1) self parent
        return ⟨pid, cnt, child, none⟩ :: others

def forker (ncopies : Int) (self : Pid) (g : Globals) : Option (List Outcome) := do
  let g ← storePid g 0 0 (.inr rfl)
  forkerLoop file strerror prefixText mode fork (ncopies - 1).toNat 1 self g

end forker

def successfulForks (fork : Nat → Except Int Pid) : Nat → Nat → List Pid
  | 0, _ => []
  | passes + 1, cnt =>
    match fork cnt with
    | .error _ => []
    | .ok pid => pid :: successfulForks fork passes (cnt + 1)

def processes (mode : Int) (parent : Pid) (forks : List Pid) : List Pid :=
  if mode = 1 then parent :: forks else forks ++ [parent]

/-- What the globals should hold in a process that knows of the forks `known`: their pids behind those
    of earlier calls, as far as the array has room. -/
structure Knows (before : Globals) (known : List Pid) (g : Globals) : Prop where
  npids : g.npids = before.npids + known.length
  earlier : ∀ i : Fin forkerMaxPids, i.val < before.npids → g.pids i = before.pids i
  new : ∀ (i : Fin forkerMaxPids) (pid : Pid), before.npids ≤ i.val →
    known[i.val - before.npids]? = some pid → g.pids i = pid

/-- The contract: the `i`-th process knows of the first `i + 1` forks, and returns their number. In
    mode 0 the last process is the parent, in mode 1 the first. -/
structure Contract (mode : Int) (parent : Pid) (before : Globals) (forks : List Pid)
    (outcomes : List Outcome) : Prop where
  created : outcomes.map Outcome.pid = processes mode parent forks
  value : ∀ (i : Nat) (o : Outcome), outcomes[i]? = some o → o.value = (forks.take (i + 1)).length
  globals : ∀ (i : Nat) (o : Outcome), outcomes[i]? = some o → Knows before (forks.take (i + 1)) o.globals

/-- What an entry holds after the forks `known`: the last entry of the array gets no pid. -/
def heldEntry (before : Globals) (known : List Pid) (i : Fin forkerMaxPids) : Nat :=
  if i.val < before.npids then before.pids i
  else if i.val + 1 < forkerMaxPids then
    ((known.map Subtype.val)[i.val - before.npids]?).getD 0
  else 0

structure Held (before : Globals) (known : List Pid) (g : Globals) : Prop where
  npids : g.npids = before.npids + known.length
  entries : ∀ i, g.pids i = heldEntry before known i

section steps
variable {before g : Globals} {known : List Pid}

theorem held_start (g : Globals) : Held g [] g := by
  refine ⟨rfl, fun i => ?_⟩
  rw [heldEntry]
  split
  · rfl
  · rename_i counted
    rw [g.unused i (Nat.not_lt.mp counted)]
    split <;> rfl

theorem held_snoc_other (pid : Pid) {i : Fin forkerMaxPids}
    (other : i.val ≠ before.npids + known.length ∨ forkerMaxPids ≤ i.val + 1) :
    heldEntry before (known ++ [pid]) i = heldEntry before known i := by
  unfold heldEntry
  split
  · rfl
  · split
    · have elsewhere : i.val - before.npids ≠ (known.map Subtype.val).length := by
        rw [List.length_map]
        omega
      rw [List.map_append, List.map_singleton]
      rcases Nat.lt_or_gt_of_ne elsewhere with low | high
      · rw [List.getElem?_append_left low]
      · rw [List.getElem?_eq_none (by simp at high ⊢; omega), List.getElem?_eq_none (by omega)]
    · rfl

theorem held_snoc_here (pid : Pid) {i : Fin forkerMaxPids}
    (here : i.val = before.npids + known.length) (room : i.val + 1 < forkerMaxPids) :
    heldEntry before (known ++ [pid]) i = pid := by
  have place : i.val - before.npids = (known.map Subtype.val).length := by
    rw [List.length_map]
    omega
  rw [heldEntry, if_neg (by omega), if_pos room, place, List.map_append, List.map_singleton,
    List.getElem?_concat_length]
  rfl

theorem add_pid_held (held : Held before known g) (pid : Pid) :
    ∃ g', addPid g pid = some g' ∧ Held before (known ++ [pid]) g' := by
  have count : (countFork g).npids = before.npids + (known ++ [pid]).length := by
    rw [List.length_append]
    exact congrArg (· + 1) held.npids
  have place : (countFork g).npids - 1 = before.npids + known.length := held.npids
  unfold addPid
  dsimp only
  split
  · rename_i room
    have inside : (countFork g).npids - 1 < forkerMaxPids := by omega
    rw [storePid, dif_pos inside]
    refine ⟨_, rfl, count, fun i => ?_⟩
    dsimp only
    rw [Function.update_apply]
    split
    · rename_i same
      have index : i.val = (countFork g).npids - 1 := congrArg Fin.val same
      have next : (countFork g).npids - 1 + 1 = (countFork g).npids := rfl
      rw [held_snoc_here pid (index.trans place) (by omega)]
    · rename_i other
      rw [held_snoc_other pid (.inl fun same => other (Fin.ext (same.trans place.symm)))]
      exact held.entries i
  · rename_i full
    refine ⟨_, rfl, count, fun i => ?_⟩
    rw [held_snoc_other pid]
    · exact held.entries i
    · have small := i.isLt
      rw [count, List.length_append, List.length_singleton] at full
      omega

theorem end_held (held : Held before known g) :
    ∃ g', endPids g = some g' ∧ Held before known g' := by
  unfold endPids
  split
  · rename_i inside
    rw [storePid, dif_pos inside]
    refine ⟨_, rfl, held.npids, fun i => ?_⟩
    dsimp only
    rw [Function.update_apply]
    split
    · rename_i same
      rw [← held.entries, g.unused i (Nat.le_of_eq (congrArg Fin.val same).symm)]
    · exact held.entries i
  · exact ⟨g, rfl, held⟩

end steps

section loop
variable {file : String} {strerror : Int → String} {prefixText : Option String} {mode : Int}
  {fork : Nat → Except Int Pid} {before : Globals}

/-- The `i`-th of the processes has the globals of the forks up to its own. -/
def HeldBy (before : Globals) (known forks : List Pid) (outcomes : List Outcome) : Prop :=
  ∀ (i : Nat) (o : Outcome), outcomes[i]? = some o → Held before (known ++ forks.take (i + 1)) o.globals

theorem held_by_last {known : List Pid} {o : Outcome} (held : Held before known o.globals) :
    HeldBy before known [] [o] := by
  intro i o' at_i
  obtain ⟨_, rfl⟩ := List.getElem?_eq_some_iff.mp at_i
  rw [List.take_nil, List.append_nil]
  simpa using held

theorem held_by_cons {known forks : List Pid} {pid : Pid} {o : Outcome} {others : List Outcome}
    (held : Held before (known ++ [pid]) o.globals)
    (rest : HeldBy before (known ++ [pid]) forks others) :
    HeldBy before known (pid :: forks) (o :: others) := by
  intro i o' at_i
  rw [List.take_succ_cons, List.append_cons]
  cases i with
  | zero =>
    cases at_i
    simpa using held
  | succ i => exact rest i o' at_i

def FanValues (cnt : Nat) (forks : List Pid) (outcomes : List Outcome) : Prop :=
  ∀ (i : Nat) (o : Outcome), outcomes[i]? = some o → o.value = (cnt : Int) - 1 + (forks.take (i + 1)).length

theorem fan_values_last {cnt : Nat} {o : Outcome} (value : o.value = (cnt : Int) - 1) :
    FanValues cnt [] [o] := by
  intro i o' at_i
  obtain ⟨_, rfl⟩ := List.getElem?_eq_some_iff.mp at_i
  simpa using value

theorem fan_values_cons {cnt : Nat} {forks : List Pid} {pid : Pid} {o : Outcome}
    {others : List Outcome} (value : o.value = cnt) (rest : FanValues (cnt + 1) forks others) :
    FanValues cnt (pid :: forks) (o :: others) := by
  intro i o' at_i
  rw [List.take_succ_cons, List.length_cons]
  cases i with
  | zero =>
    cases at_i
    rw [value, List.take_zero, List.length_nil]
    omega
  | succ i =>
    rw [rest i o' at_i]
    omega

theorem fan_loop (fan : mode ≠ 1) (passes : Nat) : ∀ {cnt : Nat} {self : Pid} {g : Globals}
    {known : List Pid}, Held before known g →
    ∃ outcomes, forkerLoop file strerror prefixText mode fork passes cnt self g = some outcomes ∧
      outcomes.map Outcome.pid = successfulForks fork passes cnt ++ [self] ∧
      FanValues cnt (successfulForks fork passes cnt) outcomes ∧
      HeldBy before known (successfulForks fork passes cnt) outcomes := by
  induction passes with
  | zero =>
    intro cnt self g known held
    obtain ⟨g', ended, held'⟩ := end_held held
    rw [forkerLoop, ended]
    exact ⟨_, rfl, rfl, fan_values_last rfl, held_by_last held'⟩
  | succ passes ih =>
    intro cnt self g known held
    rw [forkerLoop, if_neg fan, successfulForks]
    cases fork cnt with
    | error errno => exact ⟨_, rfl, rfl, fan_values_last rfl, held_by_last held⟩
    | ok pid =>
      obtain ⟨g', added, held'⟩ := add_pid_held held pid
      obtain ⟨others, run, created, values, helds⟩ := @ih (cnt + 1) self _ _ held'
      dsimp only
      rw [added, Option.bind_eq_bind, Option.bind_some, Option.bind_some, run]
      exact ⟨_, rfl, congrArg _ created, fan_values_cons rfl values, held_by_cons held' helds⟩

def ChainValues (cnt passes : Nat) (forks : List Pid) (outcomes : List Outcome) : Prop :=
  ∀ (i : Nat) (o : Outcome), outcomes[i]? = some o →
    o.value = if i < forks.length ∨ forks.length = passes then (cnt : Int) - 1 + i else 0

theorem chain_loop (passes : Nat) : ∀ {cnt : Nat} {self : Pid} {g : Globals}
    {known : List Pid}, Held before known g →
    ∃ outcomes, forkerLoop file strerror prefixText 1 fork passes cnt self g = some outcomes ∧
      outcomes.map Outcome.pid = self :: successfulForks fork passes cnt ∧
      ChainValues cnt passes (successfulForks fork passes cnt) outcomes ∧
      HeldBy before known (successfulForks fork passes cnt) outcomes := by
  induction passes with
  | zero =>
    intro cnt self g known held
    obtain ⟨g', ended, held'⟩ := end_held held
    rw [forkerLoop, ended]
    refine ⟨_, rfl, rfl, ?_, held_by_last held'⟩
    intro i o at_i
    obtain ⟨inside, rfl⟩ := List.getElem?_eq_some_iff.mp at_i
    obtain rfl : i = 0 := Nat.lt_one_iff.mp inside
    simp [successfulForks]
  | succ passes ih =>
    intro cnt self g known held
    rw [forkerLoop, if_pos rfl, successfulForks]
    cases fork cnt with
    | error errno =>
      refine ⟨_, rfl, rfl, ?_, held_by_last held⟩
      intro i o at_i
      obtain ⟨inside, rfl⟩ := List.getElem?_eq_some_iff.mp at_i
      simp
    | ok pid =>
      obtain ⟨g', added, held'⟩ := add_pid_held held pid
      obtain ⟨others, run, created, values, helds⟩ := @ih (cnt + 1) pid _ _ held'
      dsimp only
      rw [added, Option.bind_eq_bind, Option.bind_some, Option.bind_some, run]
      refine ⟨_, rfl, congrArg _ created, ?_, held_by_cons held' helds⟩
      intro i o at_i
      cases i with
      | zero =>
        cases at_i
        simp
      | succ i =>
        rw [values i o at_i]
        simp only [List.length_cons, Nat.add_lt_add_iff_right, Nat.add_right_cancel_iff]
        split <;> omega

end loop

def firstEntry : Fin forkerMaxPids := ⟨0, by decide⟩

def lastEntry : Fin forkerMaxPids := ⟨forkerMaxPids - 1, by decide⟩

theorem first_cleared (g : Globals) : ∃ g', storePid g 0 0 (.inr rfl) = some g' ∧
    g'.npids = g.npids ∧ ∀ i, g'.pids i = if i = firstEntry then 0 else g.pids i := by
  rw [storePid, dif_pos (by decide : 0 < forkerMaxPids)]
  exact ⟨_, rfl, rfl, fun i => Function.update_apply _ _ _ _⟩

section knows
variable {g cleared g' : Globals} {known : List Pid}

/-- The pids that the code keeps are those that it should, but for the first entry, which a later call
    clears, and the last, which is never used. -/
theorem knows_iff (count : cleared.npids = g.npids)
    (entries : ∀ i, cleared.pids i = if i = firstEntry then 0 else g.pids i)
    (held : Held cleared known g') :
    Knows g known g' ↔ (g.npids = 0 ∨ g.pids firstEntry = 0) ∧
      (g.npids < forkerMaxPids → g.npids + known.length < forkerMaxPids) := by
  constructor
  · intro knows
    constructor
    · by_contra taken
      have counted : firstEntry.val < g.npids := Nat.pos_of_ne_zero fun none => taken (.inl none)
      have kept := knows.earlier firstEntry counted
      rw [held.entries, heldEntry, count, if_pos counted, entries, if_pos rfl] at kept
      exact taken (.inr kept.symm)
    · intro room
      by_contra full
      have small : forkerMaxPids - 1 - g.npids < known.length := by omega
      have behind : g.npids ≤ lastEntry.val := Nat.le_sub_one_of_lt room
      have outside : ¬ lastEntry.val + 1 < forkerMaxPids := by decide
      have pid := knows.new lastEntry _ behind (List.getElem?_eq_getElem small)
      rw [held.entries, heldEntry, count, if_neg (Nat.not_lt.mpr behind), if_neg outside] at pid
      exact absurd pid (Nat.ne_of_lt known[forkerMaxPids - 1 - g.npids].property)
  · rintro ⟨first, room⟩
    refine ⟨by rw [held.npids, count], ?_, ?_⟩
    · intro i counted
      rw [held.entries, heldEntry, count, if_pos counted, entries]
      split
      · rename_i same
        rw [same] at counted ⊢
        exact (first.resolve_left (Nat.ne_of_gt counted)).symm
      · rfl
    · intro i pid new here
      obtain ⟨inside, _⟩ := List.getElem?_eq_some_iff.mp here
      have small := i.isLt
      have room' := room (by omega)
      rw [held.entries, heldEntry, count, if_neg (Nat.not_lt.mpr new), if_pos (by omega), List.getElem?_map, here]
      rfl

end knows

section contract
variable {g cleared : Globals} {forks : List Pid} {outcomes : List Outcome}

theorem all_know_iff (count : cleared.npids = g.npids)
    (entries : ∀ i, cleared.pids i = if i = firstEntry then 0 else g.pids i)
    (created : outcomes.length = forks.length + 1) (helds : HeldBy cleared [] forks outcomes) :
    (∀ (i : Nat) (o : Outcome), outcomes[i]? = some o → Knows g (forks.take (i + 1)) o.globals) ↔
      (g.npids = 0 ∨ g.pids firstEntry = 0) ∧ (g.npids < forkerMaxPids → g.npids + forks.length < forkerMaxPids) := by
  constructor
  · intro knows
    have inside : forks.length < outcomes.length := by omega
    have at_last := List.getElem?_eq_getElem inside
    have last := (knows_iff count entries (helds _ _ at_last)).mp (knows _ _ at_last)
    rwa [List.nil_append, List.take_of_length_le (Nat.le_succ _)] at last
  · rintro ⟨first, room⟩ i o at_i
    refine (knows_iff count entries (helds i o at_i)).mpr ⟨first, fun inside => ?_⟩
    have room' := room inside
    rw [List.nil_append, List.length_take]
    omega

theorem fan_contract_iff {self : Pid} {mode : Int} (fan : mode ≠ 1)
    (count : cleared.npids = g.npids)
    (entries : ∀ i, cleared.pids i = if i = firstEntry then 0 else g.pids i)
    (created : outcomes.map Outcome.pid = forks ++ [self]) (values : FanValues 1 forks outcomes)
    (helds : HeldBy cleared [] forks outcomes) :
    Contract mode self g forks outcomes ↔ (g.npids = 0 ∨ g.pids firstEntry = 0) ∧
      (g.npids < forkerMaxPids → g.npids + forks.length < forkerMaxPids) ∧
      (mode = 1 → forks = []) := by
  have length := congrArg List.length created
  rw [List.length_map, List.length_append, List.length_singleton] at length
  have know := all_know_iff count entries length helds
  constructor
  · intro contract
    obtain ⟨first, room⟩ := know.mp contract.globals
    exact ⟨first, room, fun chain => absurd chain fan⟩
  · rintro ⟨first, room, _⟩
    refine ⟨?_, ?_, know.mpr ⟨first, room⟩⟩
    · rw [processes, if_neg fan, created]
    · intro i o at_i
      rw [values i o at_i]
      omega

theorem chain_contract_iff {self : Pid} {passes : Nat} (count : cleared.npids = g.npids)
    (entries : ∀ i, cleared.pids i = if i = firstEntry then 0 else g.pids i)
    (created : outcomes.map Outcome.pid = self :: forks)
    (values : ChainValues 1 passes forks outcomes) (helds : HeldBy cleared [] forks outcomes) :
    Contract 1 self g forks outcomes ↔ (g.npids = 0 ∨ g.pids firstEntry = 0) ∧
      (g.npids < forkerMaxPids → g.npids + forks.length < forkerMaxPids) ∧
      ((1 : Int) = 1 → forks = []) := by
  have length := congrArg List.length created
  rw [List.length_map, List.length_cons] at length
  have know := all_know_iff count entries length helds
  constructor
  · intro contract
    obtain ⟨first, room⟩ := know.mp contract.globals
    refine ⟨first, room, fun _ => ?_⟩
    by_contra some
    -- the parent of the chain returns 0, not 1
    have inside : 0 < outcomes.length := by omega
    have at_first := List.getElem?_eq_getElem inside
    have forked := List.length_pos_iff.mpr some
    have value := contract.value 0 _ at_first
    rw [values 0 _ at_first, if_pos (.inl forked), List.length_take] at value
    omega
  · rintro ⟨first, room, none⟩
    rw [none rfl] at created values length
    refine ⟨?_, ?_, know.mpr ⟨first, room⟩⟩
    · rw [processes, if_pos rfl, created, none rfl]
    · intro i o at_i
      obtain ⟨inside, _⟩ := List.getElem?_eq_some_iff.mp at_i
      have only : i = 0 := by
        rw [List.length_nil] at length
        omega
      rw [values i o at_i, none rfl, only]
      split <;> rfl

end contract

/-- No index leaves the array. The contract is kept exactly if no earlier call has left a pid in the
    first entry, the last entry is not needed, and mode 1 does not fork at all. -/
theorem forker_contract_iff (file : String) (strerror : Int → String) (prefixText : Option String)
    (mode : Int) (fork : Nat → Except Int Pid) (ncopies : Int) (self : Pid) (g : Globals) :
    ∃ outcomes, forker file strerror prefixText mode fork ncopies self g = some outcomes ∧
      (Contract mode self g (successfulForks fork (ncopies - 1).toNat 1) outcomes ↔
        (g.npids = 0 ∨ g.pids firstEntry = 0) ∧
        (g.npids < forkerMaxPids → g.npids + (successfulForks fork (ncopies - 1).toNat 1).length < forkerMaxPids) ∧
        (mode = 1 → successfulForks fork (ncopies - 1).toNat 1 = [])) := by
  obtain ⟨cleared, start, count, entries⟩ := first_cleared g
  rw [forker, start, Option.bind_eq_bind, Option.bind_some]
  by_cases chain : mode = 1
  · subst chain
    obtain ⟨outcomes, run, created, values, helds⟩ := chain_loop (ncopies - 1).toNat
      (held_start cleared)
    exact ⟨outcomes, run, chain_contract_iff count entries created values helds⟩
  · obtain ⟨outcomes, run, created, values, helds⟩ := fan_loop chain (ncopies - 1).toNat
      (held_start cleared)
    exact ⟨outcomes, run, fan_contract_iff chain count entries created values helds⟩

/-- Two copies in mode 1: the parent gets 0 for its one child. -/
theorem chain_parent_gets_zero :
    ¬ ∀ (file : String) (strerror : Int → String) (prefixText : Option String) (mode : Int)
      (fork : Nat → Except Int Pid) (ncopies : Int) (self : Pid) (outcomes : List Outcome),
      1 ≤ ncopies → mode = 0 ∨ mode = 1 →
      forker file strerror prefixText mode fork ncopies self Globals.initial = some outcomes →
      Contract mode self Globals.initial (successfulForks fork (ncopies - 1).toNat 1) outcomes := by
  intro claim
  let fork : Nat → Except Int Pid := fun _ => .ok ⟨2, by decide⟩
  obtain ⟨cleared, start, count, entries⟩ := first_cleared Globals.initial
  obtain ⟨outcomes, run, created, values, helds⟩ :
      ∃ outcomes, forkerLoop "forker.c" (fun _ => "") none 1 fork 1 1 ⟨1, by decide⟩ cleared =
        some outcomes ∧ _ ∧ _ ∧ _ := chain_loop 1 (held_start cleared)
  have called : forker "forker.c" (fun _ => "") none 1 fork 2 ⟨1, by decide⟩ Globals.initial = some outcomes := by
    rw [forker, start]
    exact run
  have contract := claim _ _ _ _ fork 2 _ outcomes (by decide) (.inr rfl) called
  have none := ((chain_contract_iff count entries created values helds).mp contract).2.2 rfl
  cases none

end Forker
