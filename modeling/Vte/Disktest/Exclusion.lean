import Mathlib.Data.List.Pairwise
import Vte.Base.Machine
import Vte.Disktest.Action
import Vte.Disktest.Parse

/-!
The threads of a pass take their actions one after the other, from an action list that knows what is
in flight. The look at the list sees an action that starts inside the new one, but not one that the
new one starts inside of. Where that does not happen, conflicting actions are never in flight
together.
-/
namespace VteDisktest
open CInt

structure State where
  env : TestEnv
  /-- the actions of the threads that are between `get_next_action` and the end of their I/O -/
  flying : List Action

inductive Act where
  | next (draws : Draws)
  | complete (target : Action)
  /-- `decrement_io_count` after an error -/
  | giveUp (target : Action)

def Op.performed : Op → Bool
  | .writer => true
  | .reader => true
  | _ => false

def takeOff (result : TestEnv × Action) (s : State) : State where
  env := result.1
  flying := if result.2.oper.performed then result.2 :: s.flying else s.flying

def land (target : Action) (s : State) (env : TestEnv) : State where
  env := env
  flying := s.flying.erase target

def step (args : ChildArgs) (mask : Nat) : Act → State → Option State
  | .next draws, s =>
    if s.flying.length < args.tKids then
      (getNextAction args mask draws s.env).map (takeOff · s)
    else none
  | .complete target, s =>
    if target ∈ s.flying then (completeIo args target s.env).map (land target s) else none
  | .giveUp target, s =>
    if target ∈ s.flying then (decrementIoCount args target s.env).map (land target s) else none

def Compatible (a b : Action) : Prop :=
  ∀ lba, a.covers lba → b.covers lba → a.oper = .reader ∧ b.oper = .reader

def Exclusive (flying : List Action) : Prop := flying.Pairwise Compatible

instance : Std.Symm Compatible where
  symm _ _ apart lba here there := (apart lba there here).symm

section test
variable {target : Action} {entries : List Action}

def FirstTells (target : Action) (entries : List Action) : Prop :=
  (∃ e ∈ entries, hits target e ∧ e.oper = .writer) → ∃ e ∈ entries.find? (hits target), e.oper = .writer

instance (target : Action) (entries : List Action) : Decidable (FirstTells target entries) :=
  inferInstanceAs (Decidable (_ → _))

theorem in_use_find (target : Action) (entries : List Action) :
    actionInUse target entries = match entries.find? (hits target) with
      | none => false
      | some e => match target.oper with
        | .writer => true
        | .reader => e.oper == .writer
        | _ => true := by
  induction entries with
  | nil => rfl
  | cons e entries ih =>
    rw [actionInUse, List.find?_cons]
    cases hits target e with
    | true => rfl
    | false => exact ih

theorem writer_free (writer : target.oper = .writer) (free : actionInUse target entries = false) :
    ∀ e ∈ entries, hits target e = false := by
  rw [in_use_find, writer] at free
  cases found : entries.find? (hits target) with
  | none =>
    intro e member
    exact Bool.eq_false_iff.mpr (List.find?_eq_none.mp found e member)
  | some e =>
    rw [found] at free
    cases free

theorem reader_free (reader : target.oper = .reader) (tells : FirstTells target entries)
    (free : actionInUse target entries = false) :
    ∀ e ∈ entries, hits target e → e.oper ≠ .writer := by
  intro e member hit writer
  obtain ⟨first, found, same⟩ := tells ⟨e, member, hit, writer⟩
  rw [in_use_find, found, reader] at free
  simp [same] at free

/-- The target lies in what an `OFF_T` can count. -/
def Action.Counted (target : Action) : Prop :=
  0 ≤ target.lba ∧ target.lba + target.trsiz ≤ 9223372036854775808

instance (target : Action) : Decidable target.Counted := inferInstanceAs (Decidable (_ ∧ _))

theorem start_inside_hit {e : Action} (counted : target.Counted) (low : target.lba ≤ e.lba)
    (high : e.lba < target.lba + target.trsiz) : hits target e := by
  obtain ⟨positive, bounded⟩ := counted
  unfold hits
  by_cases same : target.lba = e.lba
  · simp [same]
  · have before : target.lba < e.lba := by omega
    have start := u64_small (x := e.lba) (by omega) (by omega)
    have last := u64_small (x := target.lba + (target.trsiz - 1)) (by omega) (by omega)
    have reached : u64 e.lba ≤ lastLba target.lba target.trsiz := by
      unfold lastLba
      omega
    simp [before, reached]

end test

section condition
variable (args : ChildArgs)

def StartsApart (flying : List Action) (target : Action) : Prop :=
  ∀ f ∈ flying, f.lba < target.lba → target.lba < f.lba + f.trsiz → target.oper = .reader ∧ f.oper = .reader

instance (flying : List Action) (target : Action) : Decidable (StartsApart flying target) :=
  inferInstanceAs (Decidable (∀ _ ∈ _, _ → _ → _))

def Settle.oper (oper : Op) : Settle → Option Op
  | .keep => some oper
  | .write => some .writer
  | .read => some .reader
  | _ => none

def limited (p : Proposal) : Bool := halfDone args p.target.oper p.env || usedUp args p.env

/-- What the action list does not show is not there: no action in flight that the proposed one starts
inside of, and no write behind a read that the look at the list stops at. -/
def Shown (flying : List Action) (p : Proposal) : Prop :=
  limited args p = false →
    ∀ oper ∈ (args.flags.settle p.target.oper (blkWritten args p.env p.target)).oper p.target.oper,
      oper.performed → p.target.Counted ∧ StartsApart flying (p.target.setOper oper) ∧
        (p.target.oper = .reader → oper = .reader → FirstTells p.target p.env.actionList)

instance (flying : List Action) (p : Proposal) : Decidable (Shown args flying p) :=
  inferInstanceAs (Decidable (_ → ∀ _ ∈ _, _ → _))

def ListShows (mask : Nat) : Act → State → Prop
  | .next draws, s => ∀ p ∈ propose args mask draws s.env, Shown args s.flying p
  | _, _ => True

instance (mask : Nat) : (act : Act) → (s : State) → Decidable (ListShows args mask act s)
  | .next draws, s => inferInstanceAs (Decidable (∀ p ∈ propose args mask draws s.env, _))
  | .complete _, _ => isTrue trivial
  | .giveUp _, _ => isTrue trivial

end condition

section next
variable {args : ChildArgs} {mask : Nat} {draws : Draws} {env : TestEnv} {p : Proposal}

theorem move_to_keeps (env : TestEnv) (oper : Op) (lba : Int) :
    (env.moveTo oper lba).actionList = env.actionList ∧ (env.moveTo oper lba).testState = env.testState := by
  unfold TestEnv.moveTo
  split <;> exact ⟨rfl, rfl⟩

@[simp] theorem move_to_position (env : TestEnv) (oper : Op) (lba : Int) :
    (env.moveTo oper lba).position oper = lba := by
  unfold TestEnv.position TestEnv.moveTo
  split <;> simp [*]

theorem linear_lba_keeps (args : ChildArgs) (oper : Op) (trsiz : Nat) (env : TestEnv) :
    (linearLba args oper trsiz env).env.actionList = env.actionList ∧
      (linearLba args oper trsiz env).env.testState.operR = env.testState.operR ∧
      (linearLba args oper trsiz env).target.trsiz = trsiz ∧
      ((linearLba args oper trsiz env).target.oper = oper ∨ (linearLba args oper trsiz env).target.oper = .none) := by
  unfold linearLba
  split
  · obtain ⟨list, state⟩ := move_to_keeps env oper (firstLba args)
    exact ⟨list, congrArg TestState.operR state, rfl, Or.inl rfl⟩
  · split
    · exact ⟨rfl, rfl, rfl, Or.inl rfl⟩
    · split
      · obtain ⟨list, state⟩ := move_to_keeps env oper (firstLba args)
        unfold wrapAround
        extract_lets q
        split
        · exact ⟨list, congrArg TestState.operR state, rfl, Or.inr rfl⟩
        · exact ⟨list, congrArg TestState.operR state, rfl, Or.inl rfl⟩
      · split
        · unfold turnAround
          extract_lets state q
          obtain ⟨list, same⟩ := move_to_keeps { env with testState := state } oper
            (env.position oper + state.direct * trsiz)
          have operR := congrArg TestState.operR same
          split
          · exact ⟨list, operR, rfl, Or.inr rfl⟩
          · exact ⟨list, operR, rfl, Or.inl rfl⟩
        · exact ⟨rfl, rfl, rfl, Or.inl rfl⟩

theorem pick_lba_keeps {oper : Op} {trsiz : Nat} {lbas : List Nat}
    (picked : pickLba args mask oper trsiz lbas env = some p) :
    p.env.actionList = env.actionList ∧ p.env.testState.operR = env.testState.operR ∧
      p.target.trsiz = trsiz ∧ (p.target.oper = oper ∨ p.target.oper = .none) := by
  unfold pickLba at picked
  split at picked
  · obtain rfl := Option.some.inj picked
    exact ⟨rfl, rfl, rfl, Or.inl rfl⟩
  · split at picked
    · obtain rfl := Option.some.inj picked
      exact linear_lba_keeps args oper trsiz env
    · split at picked
      · obtain ⟨lba, _, rfl⟩ := Option.map_eq_some_iff.mp picked
        exact ⟨rfl, rfl, rfl, Or.inl rfl⟩
      · obtain rfl := Option.some.inj picked
        exact ⟨rfl, rfl, rfl, Or.inl rfl⟩

theorem draw_size_positive (positive : 1 ≤ args.ltrsiz) (sizes : List Nat) :
    ∀ trsiz, drawSize args env sizes = some trsiz → 1 ≤ trsiz := by
  induction sizes with
  | nil =>
    intro trsiz drawn
    cases drawn
  | cons rand sizes ih =>
    intro trsiz drawn
    rw [drawSize] at drawn
    split at drawn
    · obtain rfl := Option.some.inj drawn
      omega
    · exact ih trsiz drawn

theorem pick_size_positive (positive : 1 ≤ args.ltrsiz) {oper : Op} {sizes : List Nat} {trsiz : Nat}
    (picked : pickSize args oper sizes env = some trsiz) : 1 ≤ trsiz := by
  unfold pickSize at picked
  dsimp only at picked
  split at picked
  · obtain rfl := Option.some.inj picked
    exact positive
  · split at picked
    · rename_i again
      obtain rfl := Option.some.inj picked
      simp only [Bool.and_eq_true, bne_iff_ne] at again
      omega
    · exact draw_size_positive positive sizes trsiz picked

theorem propose_keeps (positive : 1 ≤ args.ltrsiz) (proposed : propose args mask draws env = some p) :
    p.env.actionList = env.actionList ∧ p.env.testState.operR = env.testState.operR ∧
      1 ≤ p.target.trsiz ∧ (p.target.oper = pickOper args env ∨ p.target.oper = .none) := by
  obtain ⟨trsiz, size, picked⟩ := Option.bind_eq_some_iff.mp proposed
  obtain ⟨list, state, same, oper⟩ := pick_lba_keeps picked
  refine ⟨list, state, ?_, oper⟩
  rw [same]
  exact pick_size_positive positive size

theorem settle_idle {oper : Op} (idle : oper = .none ∨ oper = .retry) (flags : Flags)
    (written : Bool) : flags.settle oper written = .keep := by
  unfold Flags.settle
  rcases idle with rfl | rfl <;> rfl

theorem checked_oper_cases (sync : args.flags.lbaSync = true) :
    (checkedOper args p.env p.target = .none ∨ checkedOper args p.env p.target = .retry) ∨
      limited args p = false ∧ actionInUse p.target p.env.actionList = false ∧
        checkedOper args p.env p.target = p.target.oper := by
  unfold checkedOper
  rw [sync, Bool.true_and]
  extract_lets oper
  by_cases done : (halfDone args oper p.env || usedUp args p.env) = true
  · left
    left
    rw [if_pos done]
  · rw [if_neg done]
    cases inUse : actionInUse p.target p.env.actionList with
    | true =>
      left
      right
      simp only [oper, inUse, if_true]
    | false =>
      right
      have same : oper = p.target.oper := by simp only [oper, inUse, Bool.false_eq_true, if_false]
      rw [same] at done
      exact ⟨Bool.eq_false_iff.mpr done, rfl, same⟩

theorem checked_performed (sync : args.flags.lbaSync = true)
    (performed : (p.checked args).target.oper.performed) :
    limited args p = false ∧ actionInUse p.target p.env.actionList = false ∧
      match args.flags.settle p.target.oper (blkWritten args p.env p.target) with
      | .keep => p.checked args = p
      | .restart => p.checked args = p.restart args
      | .wait => False
      | .write => p.checked args = p.switch .writer ∧ actionInUse (p.target.setOper .writer) p.env.actionList = false
      | .read => p.checked args = p.switch .reader := by
  rcases checked_oper_cases (p := p) sync with idle | ⟨within, free, same⟩
  · have kept : p.checked args = p.setOper (checkedOper args p.env p.target) := by
      unfold Proposal.checked settled
      have none := settle_idle idle args.flags
        (blkWritten args p.env (p.target.setOper (checkedOper args p.env p.target)))
      simp only [Proposal.setOper, Action.setOper] at none ⊢
      rw [none]
    rw [kept] at performed
    rcases idle with idle | idle
    · simp [Proposal.setOper, Action.setOper, idle, Op.performed] at performed
    · simp [Proposal.setOper, Action.setOper, idle, Op.performed] at performed
  · have self : p.setOper (checkedOper args p.env p.target) = p := by rw [same]; rfl
    refine ⟨within, free, ?_⟩
    unfold Proposal.checked settled at performed ⊢
    rw [self] at performed ⊢
    cases settle : args.flags.settle p.target.oper (blkWritten args p.env p.target) with
    | keep => rfl
    | restart => rfl
    | wait =>
      rw [settle] at performed
      cases performed
    | write =>
      rw [settle] at performed
      simp only [Proposal.toWriter, sync, Bool.true_and] at performed ⊢
      cases again : actionInUse (p.switch .writer).target (p.switch .writer).env.actionList with
      | true =>
        simp only [again, if_true] at performed
        cases performed
      | false => exact ⟨rfl, again⟩
    | read => rfl

theorem record_lists (sync : args.flags.lbaSync = true) {env' : TestEnv}
    (recorded : record args p = some env') :
    env'.testState.operR = p.env.testState.operR ∧
      if p.target.oper.performed then env'.actionList = p.env.actionList ++ [p.target]
      else env' = p.env := by
  unfold record at recorded
  cases oper : p.target.oper with
  | writer =>
    simp only [oper, listed, sync, if_true, addAction] at recorded
    split at recorded
    · cases recorded
    · obtain rfl := Option.some.inj recorded
      exact ⟨rfl, rfl⟩
  | reader =>
    simp only [oper, listed, sync, if_true, addAction] at recorded
    split at recorded
    · cases recorded
    · obtain rfl := Option.some.inj recorded
      exact ⟨rfl, rfl⟩
  | none =>
    rw [oper] at recorded
    obtain rfl := Option.some.inj recorded
    exact ⟨rfl, rfl⟩
  | retry =>
    rw [oper] at recorded
    obtain rfl := Option.some.inj recorded
    exact ⟨rfl, rfl⟩

theorem settle_restart {flags : Flags} {oper : Op} {written : Bool}
    (settle : flags.settle oper written = .restart) :
    flags.linear = true ∧ flags.ntrlvd = false ∧ flags.rtrsiz = true ∧ oper = .reader := by
  unfold Flags.settle at settle
  split at settle
  · cases settle
  · split at settle
    · cases settle
    · split at settle
      · cases settle
      · split at settle
        · cases settle
        · split at settle
          · cases settle
          · split at settle
            · split at settle
              · cases settle
              · split at settle
                · rename_i anew
                  simp only [Bool.and_eq_true, Bool.not_eq_true', decide_eq_true_eq] at anew
                  exact ⟨anew.1.1.1, anew.1.1.2, anew.1.2, anew.2⟩
                · cases settle
            · split at settle <;> cases settle

theorem settle_linear {flags : Flags} (oper : Op) (written : Bool) (linear : flags.linear = true) :
    flags.settle oper written = .keep ∨ flags.settle oper written = .restart ∨ flags.settle oper written = .wait := by
  unfold Flags.settle
  rw [linear, Bool.true_or]
  repeat' split
  all_goals simp_all

end next

section invariant
variable {args : ChildArgs} {mask : Nat}

def Action.key (a : Action) : Int × Op := (a.lba, a.oper)

structure Inv (args : ChildArgs) (s : State) : Prop where
  keys : (s.env.actionList.map Action.key).Perm (s.flying.map Action.key)
  apart : Exclusive s.flying
  sized : ∀ a ∈ s.flying, 1 ≤ a.trsiz
  performed : ∀ a ∈ s.flying, a.oper.performed
  pass : args.flags.linear = true → args.flags.ntrlvd = false → ∀ a ∈ s.flying, a.oper = s.env.testState.oper

theorem keyed {xs ys : List Action} (keys : (xs.map Action.key).Perm (ys.map Action.key))
    {a : Action} (member : a ∈ ys) : ∃ e ∈ xs, e.lba = a.lba ∧ e.oper = a.oper := by
  have there := keys.symm.subset (List.mem_map_of_mem member)
  obtain ⟨e, inside, same⟩ := List.mem_map.mp there
  obtain ⟨lba, oper⟩ := Prod.mk.inj same
  exact ⟨e, inside, lba, oper⟩

theorem no_conflict {flying entries : List Action} {target : Action}
    (keys : (entries.map Action.key).Perm (flying.map Action.key)) (counted : target.Counted)
    (clear : ∀ e ∈ entries, hits target e → target.oper = .reader ∧ e.oper = .reader)
    (starts : StartsApart flying target) : ∀ f ∈ flying, Compatible target f := by
  intro f member lba here there
  obtain ⟨low, high⟩ := here
  obtain ⟨low', high'⟩ := there
  by_cases inside : f.lba < target.lba
  · exact starts f member inside (by omega)
  · obtain ⟨e, listed, same, oper⟩ := keyed keys member
    have hit := start_inside_hit (e := e) counted (by omega) (by omega)
    rw [← oper]
    exact clear e listed hit

theorem next_compatible {s : State} {draws : Draws} {p : Proposal} (inv : Inv args s)
    (sync : args.flags.lbaSync = true) (positive : 1 ≤ args.ltrsiz)
    (proposed : propose args mask draws s.env = some p) (shown : Shown args s.flying p)
    (performed : (p.checked args).target.oper.performed) :
    ∀ f ∈ s.flying, Compatible (p.checked args).target f := by
  obtain ⟨list, state, _, oper⟩ := propose_keeps positive proposed
  obtain ⟨within, free, source⟩ := checked_performed sync performed
  have shown := shown within
  have keys := inv.keys
  rw [← list] at keys
  have reads : ∀ e ∈ p.env.actionList, e.oper ≠ .writer → e.oper = .reader := by
    intro e listed other
    obtain ⟨f, member, _, same⟩ := keyed keys.symm listed
    have some := inv.performed f member
    rw [same] at some
    cases which : e.oper with
    | reader => rfl
    | writer => exact absurd which other
    | none => rw [which] at some; cases some
    | retry => rw [which] at some; cases some
  have noHit : ∀ oper : Op, (∀ e ∈ p.env.actionList, hits p.target e = false) →
      ∀ e ∈ p.env.actionList, hits (p.target.setOper oper) e →
        (p.target.setOper oper).oper = .reader ∧ e.oper = .reader := by
    intro oper none e listed hit
    exact absurd hit (Bool.eq_false_iff.mp (none e listed))
  cases settle : args.flags.settle p.target.oper (blkWritten args p.env p.target) with
  | keep =>
    rw [settle] at source shown
    rw [source] at performed ⊢
    obtain ⟨counted, starts, tells⟩ := shown p.target.oper rfl performed
    cases which : p.target.oper with
    | writer => exact no_conflict keys counted (noHit p.target.oper (writer_free which free)) starts
    | reader =>
      apply no_conflict keys counted _ starts
      intro e listed hit
      exact ⟨which, reads e listed (reader_free which (tells which which) free e listed hit)⟩
    | none => rw [which] at performed; cases performed
    | retry => rw [which] at performed; cases performed
  | restart =>
    rw [settle] at source
    obtain ⟨linear, single, -, reader⟩ := settle_restart settle
    have current : p.target.oper = s.env.testState.oper := by
      have picked : pickOper args s.env = s.env.testState.oper := by
        simp [pickOper, linear, single]
      rcases oper with same | none
      · rw [same, picked]
      · rw [reader] at none
        cases none
    rw [source]
    intro f member lba _ _
    have same := inv.pass linear single f member
    exact ⟨reader, by rw [same, ← current, reader]⟩
  | wait =>
    rw [settle] at source
    exact source.elim
  | write =>
    rw [settle] at source shown
    rw [source.1]
    obtain ⟨counted, starts, _⟩ := shown .writer rfl rfl
    have none := writer_free rfl source.2
    exact no_conflict keys counted (noHit .writer none) starts
  | read =>
    rw [settle] at source shown
    rw [source]
    obtain ⟨counted, starts, tells⟩ := shown .reader rfl rfl
    have clear : ∀ e ∈ p.env.actionList, hits (p.target.setOper .reader) e →
        (p.target.setOper .reader).oper = .reader ∧ e.oper = .reader := by
      cases which : p.target.oper with
      | writer => exact noHit .reader (writer_free which free)
      | reader =>
        intro e listed hit
        exact ⟨rfl, reads e listed (reader_free which (tells which rfl) free e listed hit)⟩
      | none =>
        rw [settle_idle (Or.inl which)] at settle
        cases settle
      | retry =>
        rw [settle_idle (Or.inr which)] at settle
        cases settle
    exact no_conflict keys counted clear starts

theorem checked_keeps (args : ChildArgs) (p : Proposal) :
    (p.checked args).env.actionList = p.env.actionList ∧ (p.checked args).target.trsiz = p.target.trsiz ∧
      (p.checked args).env.wbitmap = p.env.wbitmap ∧
      (p.checked args).env.lastAction = p.env.lastAction := by
  unfold Proposal.checked settled
  split
  · exact ⟨rfl, rfl, rfl, rfl⟩
  · exact ⟨rfl, rfl, rfl, rfl⟩
  · exact ⟨rfl, rfl, rfl, rfl⟩
  · unfold Proposal.toWriter
    extract_lets q
    split <;> exact ⟨rfl, rfl, rfl, rfl⟩
  · exact ⟨rfl, rfl, rfl, rfl⟩

theorem checked_linear {p : Proposal} (sync : args.flags.lbaSync = true)
    (linear : args.flags.linear = true) :
    (p.checked args).env.testState.operR = p.env.testState.operR ∧
      ((p.checked args).target.oper.performed → (p.checked args).target.oper = p.target.oper) := by
  unfold Proposal.checked settled
  have oper : (p.setOper (checkedOper args p.env p.target)).target.oper.performed →
      (p.setOper (checkedOper args p.env p.target)).target.oper = p.target.oper := by
    intro performed
    simp only [Proposal.setOper, Action.setOper] at performed ⊢
    rcases checked_oper_cases (p := p) sync with (none | retry) | ⟨_, _, same⟩
    · rw [none] at performed
      cases performed
    · rw [retry] at performed
      cases performed
    · exact same
  rcases settle_linear _ _ linear with kept | restarted | waits
  · rw [kept]
    exact ⟨rfl, oper⟩
  · rw [restarted]
    exact ⟨rfl, oper⟩
  · rw [waits]
    refine ⟨rfl, ?_⟩
    intro performed
    cases performed

theorem next_inv {s : State} {draws : Draws} {result : TestEnv × Action} (inv : Inv args s)
    (sync : args.flags.lbaSync = true) (positive : 1 ≤ args.ltrsiz)
    (shown : ListShows args mask (.next draws) s)
    (got : getNextAction args mask draws s.env = some result) : Inv args (takeOff result s) := by
  obtain ⟨p, proposed, taken⟩ := Option.bind_eq_some_iff.mp got
  obtain ⟨env, recorded, rfl⟩ := Option.map_eq_some_iff.mp taken
  obtain ⟨list, state, sized, oper⟩ := propose_keeps positive proposed
  obtain ⟨sameList, sameSize, -, -⟩ := checked_keeps args p
  obtain ⟨kept, listed⟩ := record_lists sync recorded
  have pass : args.flags.linear = true → args.flags.ntrlvd = false → env.testState.oper = s.env.testState.oper ∧
        ((p.checked args).target.oper.performed → (p.checked args).target.oper = s.env.testState.oper) := by
    intro linear single
    obtain ⟨same, which⟩ := checked_linear (p := p) sync linear
    have picked : pickOper args s.env = s.env.testState.oper := by
      simp [pickOper, linear, single]
    constructor
    · rw [TestState.oper, TestState.oper, kept, same, state]
    · intro performed
      rcases oper with given | none
      · rw [which performed, given, picked]
      · rw [which performed, none] at performed
        cases performed
  unfold takeOff
  by_cases performed : (p.checked args).target.oper.performed = true
  · rw [if_pos performed] at listed ⊢
    have clear := next_compatible inv sync positive proposed (shown p proposed) performed
    constructor
    · rw [listed, sameList, list, List.map_append, List.map_cons]
      exact (List.perm_append_singleton _ _).trans (inv.keys.cons _)
    · exact List.pairwise_cons.mpr ⟨clear, inv.apart⟩
    · intro a inside
      rcases List.mem_cons.mp inside with rfl | inside
      · rw [sameSize]
        exact sized
      · exact inv.sized a inside
    · intro a inside
      rcases List.mem_cons.mp inside with rfl | inside
      · exact performed
      · exact inv.performed a inside
    · intro linear single a inside
      obtain ⟨same, which⟩ := pass linear single
      rcases List.mem_cons.mp inside with rfl | inside
      · rw [same, which performed]
      · rw [same]
        exact inv.pass linear single a inside
  · rw [if_neg performed] at listed ⊢
    constructor
    · rw [listed, sameList, list]
      exact inv.keys
    · exact inv.apart
    · exact inv.sized
    · exact inv.performed
    · intro linear single a inside
      rw [(pass linear single).1]
      exact inv.pass linear single a inside

theorem land_inv {s : State} {target : Action} {env : TestEnv} (inv : Inv args s)
    (member : target ∈ s.flying) (state : env.testState = s.env.testState)
    (removed : env.actionList = s.env.actionList.eraseP (·.lba == target.lba)) :
    Inv args (land target s env) := by
  obtain ⟨keys, apart, sized, performed, pass⟩ := inv
  have left : ∀ a ∈ s.flying.erase target, a ∈ s.flying := fun a inside =>
    List.mem_of_mem_erase inside
  constructor
  · obtain ⟨first, found, same, _⟩ := keyed keys member
    obtain ⟨e, before, after, _, start, split, erased⟩ :=
      List.exists_of_eraseP (p := fun a => a.lba == target.lba) found (by simp [same])
    rw [beq_iff_eq] at start
    have there : e ∈ s.env.actionList := by rw [split]; simp
    obtain ⟨f, flies, lba, oper⟩ := keyed keys.symm there
    have sameKey : e.key = target.key := by
      have which : f.oper = target.oper := by
        by_cases self : f = target
        · rw [self]
        · have compatible := apart.forall flies member self
          have some := sized f flies
          have more := sized target member
          have both := compatible target.lba ⟨by omega, by omega⟩ ⟨by omega, by omega⟩
          rw [both.1, both.2]
      simp only [Action.key, start, ← oper, which]
    have listKeys : (s.env.actionList.map Action.key).Perm
        (target.key :: (before ++ after).map Action.key) := by
      rw [split, List.map_append, List.map_cons, sameKey, List.map_append]
      exact List.perm_middle
    have flyingKeys : (s.flying.map Action.key).Perm
        (target.key :: (s.flying.erase target).map Action.key) :=
      (List.perm_cons_erase member).map Action.key
    have rest := (listKeys.symm.trans keys).trans flyingKeys
    rw [land, removed, erased]
    exact rest.cons_inv
  · exact apart.sublist (List.erase_sublist ..)
  · exact fun a inside => sized a (left a inside)
  · exact fun a inside => performed a (left a inside)
  · intro linear single a inside
    rw [land, state]
    exact pass linear single a (left a inside)

theorem remove_spec {target : Action} {env env' : TestEnv} (sync : args.flags.lbaSync = true)
    (removed : unlisted args target env = some env') :
    env' = { env with actionList := env.actionList.eraseP (·.lba == target.lba) } := by
  rw [unlisted, if_pos sync, removeAction] at removed
  split at removed
  · exact (Option.some.inj removed).symm
  · cases removed

theorem step_inv (sync : args.flags.lbaSync = true) (positive : 1 ≤ args.ltrsiz) (act : Act)
    (s t : State) (inv : Inv args s) (shown : ListShows args mask act s)
    (taken : step args mask act s = some t) : Inv args t := by
  cases act with
  | next draws =>
    rw [step] at taken
    split at taken
    · obtain ⟨result, got, rfl⟩ := Option.map_eq_some_iff.mp taken
      exact next_inv inv sync positive shown got
    · cases taken
  | complete target =>
    rw [step] at taken
    split at taken
    · rename_i member
      obtain ⟨env, done, rfl⟩ := Option.map_eq_some_iff.mp taken
      obtain rfl := remove_spec sync done
      apply land_inv inv member
      · split <;> rfl
      · split <;> rfl
    · cases taken
  | giveUp target =>
    rw [step] at taken
    split at taken
    · rename_i member
      obtain ⟨env, done, rfl⟩ := Option.map_eq_some_iff.mp taken
      obtain ⟨env, removed, rfl⟩ := Option.map_eq_some_iff.mp done
      obtain rfl := remove_spec sync removed
      apply land_inv inv member
      · split <;> rfl
      · split <;> rfl
    · cases taken

theorem start_inv {env : TestEnv} (empty : env.actionList = []) :
    Inv args { env, flying := [] } where
  keys := by rw [empty]
  apart := List.Pairwise.nil
  sized := by simp
  performed := by simp
  pass := by simp

/-- From the start of a pass on, conflicting actions are never in flight together as long as the
action list shows what is in the way of each action that is proposed. -/
theorem exclusive_while_shown (o : Outside) (given args : ChildArgs)
    (accepted : Accepted o given args) (sync : args.flags.lbaSync = true) (mask : Nat)
    (env : TestEnv) (empty : env.actionList = []) (acts : List Act) (s : State)
    (shown : Machine.Along (step args mask) (ListShows args mask) acts { env, flying := [] })
    (ran : Machine.run (step args mask) acts { env, flying := [] } = some s) :
    Exclusive s.flying := by
  obtain ⟨_, positive, _⟩ := accepted_sizes accepted
  exact (Machine.run_along (step_inv sync positive) (start_inv empty) shown ran).apart

end invariant

section ranged

def rangedGiven : ChildArgs where
  device := { name := [0x64], short := one_letter_short }
  vsiz := 8
  ltrsiz := 1
  htrsiz := 4
  tKids := 2
  flags := { vsiz := true, rtrsiz := true, random := true, w := true, r := true, lbaSync := true }

def plainFile : Outside where
  size := 8
  kindFits := true
  kill := false

def ranged : ChildArgs := makeAssumptions plainFile rangedGiven

theorem ranged_accepted : Accepted plainFile rangedGiven ranged := by decide

def nextAt (size lba : Nat) : Act := .next { sizes := [size], lbas := [lba] }

/-- A read of two blocks in the middle of a write of four. -/
theorem read_inside_write : ¬ ∀ (o : Outside) (given args : ChildArgs), Accepted o given args →
    args.flags.lbaSync = true → ∀ (mask : Nat) (env : TestEnv), env.actionList = [] →
    ∀ (acts : List Act) (s : State),
      Machine.run (step args mask) acts { env, flying := [] } = some s → Exclusive s.flying := by
  intro all
  have flies : (Machine.run (step ranged 7) [nextAt 3 0, nextAt 1 2]
      { env := startMixed ranged (initEnv ranged), flying := [] }).map State.flying =
        some [{ oper := .reader, trsiz := 2, lba := 2 }, { oper := .writer, trsiz := 4, lba := 0 }] := by
    decide
  obtain ⟨s, ran, flying⟩ := Option.map_eq_some_iff.mp flies
  have apart := all plainFile rangedGiven ranged ranged_accepted rfl 7 _ rfl _ s ran
  rw [flying] at apart
  have compatible := (List.pairwise_cons.mp apart).1 _ (List.mem_singleton_self _)
  have both := compatible 2 ⟨by decide, by decide⟩ ⟨by decide, by decide⟩
  cases both.2

/-- A write of four blocks and a read of the two behind it. -/
theorem read_behind_write : ∃ s, Machine.run (step ranged 7) [nextAt 3 0, nextAt 1 4]
      { env := startMixed ranged (initEnv ranged), flying := [] } = some s ∧
    s.flying.length = 2 ∧ Exclusive s.flying := by
  have flies : (Machine.run (step ranged 7) [nextAt 3 0, nextAt 1 4]
      { env := startMixed ranged (initEnv ranged), flying := [] }).map State.flying =
        some [{ oper := .reader, trsiz := 2, lba := 4 }, { oper := .writer, trsiz := 4, lba := 0 }] := by
    decide
  obtain ⟨s, ran, flying⟩ := Option.map_eq_some_iff.mp flies
  refine ⟨s, ran, ?_, ?_⟩
  · rw [flying]
    rfl
  · exact exclusive_while_shown plainFile rangedGiven ranged ranged_accepted rfl 7 _ rfl _ s
      (by decide) ran

end ranged
end VteDisktest
