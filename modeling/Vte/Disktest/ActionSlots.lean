import Vte.Disktest.Action

/-!
testcases/kernel/io/disktest/childmain.c: the action list in its `t_kids` slots. An entry is added
behind the others; one is removed by a search whose index may run one slot past the entries, and the
entries behind it move down. While the target is on the list, the search ends at its first entry.
-/
namespace VteDisktest

inductive Fault where
  | abort
  /-- a look at a slot that is not there -/
  | overrun
  deriving DecidableEq

/-- The environment has the entries of `action_list`; the slots behind them keep what was there. -/
structure Memory where
  env : TestEnv
  free : List Action

def Memory.slots (m : Memory) : List Action := m.env.actionList ++ m.free

/-- The slots after a change, and `action_list_entry`. -/
def Memory.cut (m : Memory) (entry : Nat) (slots : List Action) : Memory where
  env := { m.env with actionList := slots.take entry }
  free := slots.drop entry

section slots

def Memory.addAction (args : ChildArgs) (target : Action) (m : Memory) : Except Fault Memory :=
  let entry := m.env.actionList.length
  if entry = args.tKids then .error .abort
  else if entry < m.slots.length then .ok (m.cut (entry + 1) (m.slots.set entry target))
  else .error .overrun

/-- The search through the slots from `i` on; the index is compared before it goes up. -/
def findSlot (lba : Int) (entry : Nat) : List Action → Nat → Except Fault Nat
  | [], _ => .error .overrun
  | slot :: slots, i =>
    if lba = slot.lba then .ok i
    else if entry = i then .error .abort
    else findSlot lba entry slots (i + 1)

/-- `action_list[i] = action_list[i + 1]`, for as many slots; the last one stays as it is. -/
def moveDown : Nat → List Action → List Action
  | steps + 1, _ :: next :: slots => next :: moveDown steps (next :: slots)
  | _, slots => slots

def Memory.removeAction (target : Action) (m : Memory) : Except Fault Memory :=
  let entry := m.env.actionList.length
  if entry = 0 then .error .abort
  else (findSlot target.lba entry m.slots 0).map fun i =>
    m.cut (entry - 1) (m.slots.take i ++ moveDown (entry - 1 - i) (m.slots.drop i))

end slots

section callers
variable (args : ChildArgs)

def Memory.listed (target : Action) (m : Memory) : Except Fault Memory :=
  if args.flags.lbaSync then m.addAction args target else .ok m

def Memory.unlisted (target : Action) (m : Memory) : Except Fault Memory :=
  if args.flags.lbaSync then m.removeAction target else .ok m

def Memory.record (p : Proposal) (m : Memory) : Except Fault Memory :=
  match p.target.oper with
  | .writer => { m with env := startWrite args p }.listed args p.target
  | .reader => { m with env := startRead p }.listed args p.target
  | _ => .ok { m with env := p.env }

def Memory.completeIo (target : Action) (m : Memory) : Except Fault Memory :=
  let env := if target.oper = .writer then markWritten args target m.env else m.env
  { m with env }.unlisted args target

def Memory.decrementIoCount (target : Action) (m : Memory) : Except Fault Memory :=
  (m.unlisted args target).map fun m =>
    if target.oper = .writer then { m with env := { m.env with wcount := m.env.wcount - 1 } }
    else { m with env := { m.env with rcount := m.env.rcount - 1 } }

end callers

section search
variable {lba : Int} {entry : Nat}

theorem find_slot_first {before : List Action} {e : Action} (others : ∀ a ∈ before, a.lba ≠ lba)
    (same : e.lba = lba) (slots : List Action) :
    ∀ i, i + before.length < entry → findSlot lba entry (before ++ e :: slots) i = .ok (i + before.length) := by
  induction before with
  | nil =>
    intro i _
    rw [List.nil_append, findSlot, if_pos same.symm]
    rfl
  | cons a before ih =>
    intro i inside
    rw [List.length_cons] at inside ⊢
    have apart : lba ≠ a.lba := (others a (List.mem_cons_self ..)).symm
    have more : entry ≠ i := by omega
    have rest := ih (fun b member => others b (List.mem_cons_of_mem a member)) (i + 1) (by omega)
    rw [List.cons_append, findSlot, if_neg apart, if_neg more, rest]
    congr 1
    omega

theorem move_down_length (steps : Nat) (slots : List Action) :
    (moveDown steps slots).length = slots.length := by
  fun_induction moveDown steps slots with
  | case1 steps first next slots ih =>
    rw [List.length_cons, ih]
    rfl
  | case2 => rfl

theorem move_down_entries (e : Action) (after free : List Action) :
    (moveDown after.length (e :: (after ++ free))).take after.length = after := by
  induction after generalizing e with
  | nil => rfl
  | cons a after ih => rw [List.length_cons, List.cons_append, moveDown, List.take_succ_cons, ih]

end search

section refines
variable {args : ChildArgs} {target : Action} {m : Memory}

@[simp] theorem cut_slots (m : Memory) (entry : Nat) (slots : List Action) :
    (m.cut entry slots).slots = slots := List.take_append_drop entry slots

def Refines (m : Memory) (call : Except Fault Memory) (env : Option TestEnv) : Prop :=
  ∃ m', call = .ok m' ∧ env = some m'.env ∧ m'.slots.length = m.slots.length

theorem add_action_refines (target : Action) (room : m.env.actionList.length < args.tKids)
    (whole : m.slots.length = args.tKids) :
    Refines m (m.addAction args target) (addAction args target m.env) := by
  have inside : m.env.actionList.length < m.slots.length := by omega
  refine ⟨m.cut (m.env.actionList.length + 1) (m.slots.set m.env.actionList.length target), ?_, ?_, ?_⟩
  · unfold Memory.addAction
    rw [if_neg (Nat.ne_of_lt room), if_pos inside]
  · have used : (m.slots.set m.env.actionList.length target).take (m.env.actionList.length + 1) =
        m.env.actionList ++ [target] := by
      unfold Memory.slots at inside ⊢
      cases free : m.free with
      | nil =>
        rw [free, List.append_nil] at inside
        omega
      | cons slot slots => simp [List.take_append, List.take_of_length_le]
    rw [addAction, if_neg (Nat.ne_of_lt room), ← used]
    rfl
  · rw [cut_slots, List.length_set]

theorem find_slot_listed {lba : Int} (there : ∃ e ∈ m.env.actionList, e.lba = lba) :
    ∃ before first after, m.env.actionList = before ++ first :: after ∧ first.lba = lba ∧
      m.env.actionList.eraseP (·.lba == lba) = before ++ after ∧
      findSlot lba m.env.actionList.length m.slots 0 = .ok before.length := by
  obtain ⟨e, member, same⟩ := there
  obtain ⟨first, before, after, others, start, split, erased⟩ :=
    List.exists_of_eraseP (p := fun a => a.lba == lba) member (by simp [same])
  have start : first.lba = lba := by simpa using start
  have others : ∀ a ∈ before, a.lba ≠ lba := fun a inside => by simpa using others a inside
  refine ⟨before, first, after, split, start, erased, ?_⟩
  have inside : 0 + before.length < m.env.actionList.length := by
    rw [split, List.length_append, List.length_cons]
    omega
  have slots : m.slots = before ++ first :: (after ++ m.free) := by
    rw [Memory.slots, split, List.append_assoc, List.cons_append]
  rw [slots, find_slot_first others start (after ++ m.free) 0 inside, Nat.zero_add]

theorem remove_action_refines (there : ∃ e ∈ m.env.actionList, e.lba = target.lba) :
    Refines m (m.removeAction target) (removeAction target m.env) := by
  obtain ⟨before, first, after, split, -, erased, found⟩ := find_slot_listed there
  have slots : m.slots = before ++ first :: (after ++ m.free) := by
    rw [Memory.slots, split, List.append_assoc, List.cons_append]
  have entry : m.env.actionList.length = before.length + after.length + 1 := by
    rw [split, List.length_append, List.length_cons]
    omega
  have steps : m.env.actionList.length - 1 - before.length = after.length := by omega
  have moved : m.slots.take before.length ++ moveDown after.length (m.slots.drop before.length) =
      before ++ moveDown after.length (first :: (after ++ m.free)) := by
    rw [slots, List.take_left, List.drop_left]
  refine ⟨m.cut (m.env.actionList.length - 1)
    (before ++ moveDown after.length (first :: (after ++ m.free))), ?_, ?_, ?_⟩
  · unfold Memory.removeAction
    rw [if_neg (by omega), found, ← moved, ← steps]
    rfl
  · have used : (before ++ moveDown after.length (first :: (after ++ m.free))).take
        (m.env.actionList.length - 1) = before ++ after := by
      rw [entry, Nat.add_sub_cancel, List.take_length_add_append, move_down_entries]
    have listed : m.env.actionList.any (·.lba == target.lba) = true := by
      obtain ⟨e, member, same⟩ := there
      rw [List.any_eq_true]
      exact ⟨e, member, beq_iff_eq.mpr same⟩
    rw [removeAction, if_pos listed, erased, ← used]
    rfl
  · rw [cut_slots, slots, List.length_append, move_down_length, List.length_append]

theorem record_refines {p : Proposal} (list : p.env.actionList = m.env.actionList)
    (room : m.env.actionList.length < args.tKids) (whole : m.slots.length = args.tKids) :
    Refines m (m.record args p) (record args p) := by
  have listed : ∀ env : TestEnv, env.actionList = m.env.actionList →
      Refines m ({ m with env }.listed args p.target) (listed args p.target env) := by
    intro env same
    have slots : { m with env }.slots.length = m.slots.length := by
      rw [Memory.slots, Memory.slots, same]
    unfold Memory.listed listed
    split
    · obtain ⟨m', added, refined, length⟩ :=
        add_action_refines (m := { m with env }) p.target (by rwa [same]) (by rwa [slots])
      exact ⟨m', added, refined, length.trans slots⟩
    · exact ⟨{ m with env }, rfl, rfl, slots⟩
  unfold Memory.record record
  cases p.target.oper with
  | writer => exact listed (startWrite args p) list
  | reader => exact listed (startRead p) list
  | none => exact ⟨{ m with env := p.env }, rfl, rfl, by rw [Memory.slots, Memory.slots, list]⟩
  | retry => exact ⟨{ m with env := p.env }, rfl, rfl, by rw [Memory.slots, Memory.slots, list]⟩

theorem unlisted_refines (args : ChildArgs) (there : ∃ e ∈ m.env.actionList, e.lba = target.lba) :
    Refines m (m.unlisted args target) (unlisted args target m.env) := by
  unfold Memory.unlisted unlisted
  split
  · exact remove_action_refines there
  · exact ⟨m, rfl, rfl, rfl⟩

theorem complete_io_refines (args : ChildArgs) (there : ∃ e ∈ m.env.actionList, e.lba = target.lba) :
    Refines m (m.completeIo args target) (completeIo args target m.env) := by
  unfold Memory.completeIo completeIo
  extract_lets env
  have same : env.actionList = m.env.actionList := by
    dsimp only [env]
    split <;> rfl
  obtain ⟨m', removed, refined, length⟩ :=
    unlisted_refines args (m := { m with env }) (by rwa [same])
  refine ⟨m', removed, refined, ?_⟩
  rw [length, Memory.slots, Memory.slots, same]

theorem decrement_io_count_refines (args : ChildArgs) (there : ∃ e ∈ m.env.actionList, e.lba = target.lba) :
    Refines m (m.decrementIoCount args target) (decrementIoCount args target m.env) := by
  obtain ⟨m', removed, refined, length⟩ := unlisted_refines args there
  unfold Memory.decrementIoCount decrementIoCount
  rw [removed, refined]
  refine ⟨_, rfl, ?_, ?_⟩
  · rw [Option.map_some]
    split <;> rfl
  · rw [← length]
    split <;> rfl

end refines
end VteDisktest
