import Vte.Disktest.Positions

/-!
The invariant of the positions along the runs of a test: each action that is handed out is in the
range.
-/
namespace VteDisktest
open CInt

section proposals
variable {args : ChildArgs} {env : TestEnv} {mask : Nat} {draws : Draws} {p : Proposal}

theorem pick_size_fixed {oper : Op} {sizes : List Nat} {size : Nat}
    (one : args.flags.rtrsiz = false) (picked : pickSize args oper sizes env = some size) :
    size = args.ltrsiz := by
  simp only [pickSize, one, Bool.not_false, if_true] at picked
  exact (Option.some.inj picked).symm

theorem pick_size_room (steady : Steady args env) (fit : Fitting args mask draws) {oper : Op}
    {size : Nat} (going : usedUp args env = false)
    (picked : pickSize args oper draws.sizes env = some size) :
    firstLba args + size - 1 ≤ args.stopLba := by
  rcases pick_size_cases going picked with ⟨-, -, -, some, rfl⟩ | ⟨drawn, -⟩
  · obtain ⟨low, high⟩ := steady.last some
    omega
  · exact (fit size drawn).1.1

theorem random_proposed (fits : Ranged args) (large : 1 ≤ args.ltrsiz) (steady : Steady args env)
    (fit : Fitting args mask draws) (moves : args.startBlk ≠ args.stopBlk)
    (straight : args.flags.linear = false) {size : Nat} {lba : Int} (going : usedUp args env = false)
    (picked : pickSize args (pickOper args env) draws.sizes env = some size)
    (chosen : randomLba args mask (pickOper args env) size draws.lbas env = some lba) :
    firstLba args ≤ lba ∧ lba + size - 1 ≤ args.stopLba := by
  have sizes := pick_size_cases going picked
  unfold randomLba at chosen
  dsimp only at chosen
  split at chosen
  · rename_i echo
    simp only [Bool.and_eq_true, decide_eq_true_eq] at echo
    obtain ⟨⟨⟨turns, writes⟩, reads⟩, reader⟩ := echo
    have takes : args.flags.takesTurns = true := by simp [Flags.takesTurns, turns, writes, reads]
    obtain rfl := Option.some.inj chosen
    have some := steady.began takes (pick_reader_turns steady takes reader).1
    have same : size = env.lastAction.trsiz := by
      rcases sizes with ⟨-, -, -, -, same⟩ | ⟨-, anew⟩
      · exact same
      · cases several : args.flags.rtrsiz with
        | true => exact absurd (anew takes reader several) some
        | false => rw [pick_size_fixed several picked, steady.fixed several some]
    rw [same]
    exact steady.last some
  · rename_i alone
    obtain ⟨drawn, found, rfl⟩ := Option.map_eq_some_iff.mp chosen
    obtain ⟨low, high⟩ := draw_lba_between found
    rcases sizes with ⟨takes, reader, -⟩ | ⟨small, -⟩
    · simp only [Flags.takesTurns, Bool.and_eq_true] at takes
      exact absurd (by simp [takes, reader]) alone
    · obtain ⟨room, near⟩ := fit size small
      exact (near_lba_inside fits (pick_size_positive large picked) room low high).mpr
        (near moves straight drawn found)

structure Kept (env env' : TestEnv) : Prop where
  last : env'.lastAction = env.lastAction
  wFst : env'.testState.wFst = env.testState.wFst
  operR : env'.testState.operR = env.testState.operR
  wcount : env'.wcount = env.wcount
  rcount : env'.rcount = env.rcount

theorem move_to_kept (env : TestEnv) (oper : Op) (lba : Int) : Kept env (env.moveTo oper lba) := by
  unfold TestEnv.moveTo
  split <;> exact ⟨rfl, rfl, rfl, rfl, rfl⟩

theorem propose_kept (chosen : Chosen args.flags)
    (proposed : propose args mask draws env = some p) : Kept env p.env := by
  obtain ⟨size, -, made⟩ := Option.bind_eq_some_iff.mp proposed
  unfold pickLba at made
  split at made
  · obtain rfl := Option.some.inj made
    exact ⟨rfl, rfl, rfl, rfl, rfl⟩
  · split at made
    · rename_i linear
      obtain rfl := Option.some.inj made
      obtain ⟨-, moved⟩ := linear_cases chosen linear (pickOper args env) size env
      rcases moved with ⟨-, same⟩ | ⟨-, -, same⟩ | ⟨-, -, -, same⟩
      · rw [same]
        exact move_to_kept env _ _
      · rw [same]
        exact ⟨rfl, rfl, rfl, rfl, rfl⟩
      · rw [same]
        obtain ⟨last, wFst, operR, wcount, rcount⟩ :=
          move_to_kept { env with testState := env.testState.turn } (pickOper args env)
            (env.position (pickOper args env) + env.testState.turn.direct * size)
        exact ⟨last, wFst, operR, wcount, rcount⟩
    · split at made
      · obtain ⟨lba, -, rfl⟩ := Option.map_eq_some_iff.mp made
        exact ⟨rfl, rfl, rfl, rfl, rfl⟩
      · obtain rfl := Option.some.inj made
        exact ⟨rfl, rfl, rfl, rfl, rfl⟩

structure Proposed (args : ChildArgs) (env : TestEnv) (p : Proposal) : Prop where
  kept : Kept env p.env
  steady : Steady args p.env
  oper : p.target.oper = pickOper args env ∨ p.target.oper = .none
  large : 1 ≤ p.target.trsiz
  inside : usedUp args env = false → Inside args p.target
  fixed : args.flags.rtrsiz = false → p.target.trsiz = args.ltrsiz
  place : args.startBlk ≠ args.stopBlk → args.flags.linear = true →
    Placed (pickOper args env) p ∧ (args.flags.backForth = true →
      Walks args env (pickOper args env) → (args.ltrsiz : Int) ∣ p.target.lba - firstLba args)

theorem propose_steady (fits : Ranged args) (chosen : Chosen args.flags) (large : 1 ≤ args.ltrsiz)
    (steady : Steady args env) (fit : Fitting args mask draws)
    (proposed : propose args mask draws env = some p) : Proposed args env p := by
  have kept := propose_kept chosen proposed
  obtain ⟨size, picked, made⟩ := Option.bind_eq_some_iff.mp proposed
  have positive := pick_size_positive large picked
  obtain ⟨-, -, trsiz, oper⟩ := pick_lba_keeps made
  have fixed : args.flags.rtrsiz = false → p.target.trsiz = args.ltrsiz := fun one => by
    rw [trsiz, pick_size_fixed one picked]
  unfold pickLba at made
  split at made
  · rename_i cached
    obtain rfl := Option.some.inj made
    exact ⟨kept, steady, oper, positive,
      fun going => ⟨Int.le_refl _, pick_size_room steady fit going picked⟩, fixed,
      fun moves => absurd cached moves⟩
  · rename_i moves
    split at made
    · rename_i linear
      obtain rfl := Option.some.inj made
      have place := (linear_cases chosen linear (pickOper args env) size env).1
      obtain ⟨stays, inside, steps⟩ := linear_goes size fits chosen moves linear large steady
        fun back => by
          have one := fits.fixed moves linear back
          have drawn : drawnSize args draws.sizes = some args.ltrsiz := by simp [drawnSize, one]
          exact ⟨pick_size_fixed one picked, (fit _ drawn).1.1⟩
      rw [← place.lba] at inside steps
      refine ⟨kept, stays, oper, by rw [trsiz]; exact positive, fun going => ?_, fixed,
        fun _ _ => ⟨place, steps⟩⟩
      rw [Inside, trsiz]
      exact inside positive (pick_size_room steady fit going picked)
    · rename_i straight
      rw [Bool.not_eq_true] at straight
      rw [if_pos (chosen.seek straight)] at made
      obtain ⟨lba, found, rfl⟩ := Option.map_eq_some_iff.mp made
      refine ⟨kept, steady, oper, positive, fun going => ?_, fixed, fun _ linear => ?_⟩
      · exact random_proposed fits large steady fit moves straight going picked found
      · rw [straight] at linear
        cases linear

end proposals

section checks
variable {args : ChildArgs} {env : TestEnv} {p : Proposal}

theorem checked_oper_idle (args : ChildArgs) (env : TestEnv) (target : Action) :
    (checkedOper args env target).performed = true →
      checkedOper args env target = target.oper ∧ usedUp args env = false := by
  unfold checkedOper
  extract_lets oper
  split
  · intro performed
    cases performed
  · rename_i going
    simp only [Bool.or_eq_true, not_or, Bool.not_eq_true] at going
    intro performed
    refine ⟨?_, going.2⟩
    cases retried : args.flags.lbaSync && actionInUse target env.actionList with
    | true =>
      simp only [oper, retried, if_true] at performed
      cases performed
    | false => simp only [oper, retried, Bool.false_eq_true, if_false]

theorem settle_switch {flags : Flags} {oper : Op} {written : Bool} (chosen : Chosen flags)
    (settle : flags.settle oper written = .write ∨ flags.settle oper written = .read) :
    flags.linear = false ∧ flags.ntrlvd = false ∧ oper.performed = true := by
  have straight : flags.linear = false := by
    cases linear : flags.linear with
    | false => rfl
    | true =>
      rcases settle_linear oper written linear with same | same | same
      · simp [same] at settle
      · simp [same] at settle
      · simp [same] at settle
  refine ⟨straight, ?_, ?_⟩
  · cases interleaved : flags.ntrlvd with
    | false => rfl
    | true =>
      unfold Flags.settle at settle
      simp only [straight, interleaved, chosen.seek straight, Bool.and_self, Bool.or_true, if_true,
        Bool.false_and, Bool.false_eq_true, if_false] at settle
      repeat' split at settle
      all_goals simp at settle
  · cases oper with
    | writer => rfl
    | reader => rfl
    | none =>
      rw [settle_idle (.inl rfl)] at settle
      simp at settle
    | retry =>
      rw [settle_idle (.inr rfl)] at settle
      simp at settle

theorem checked_cases (chosen : Chosen args.flags) (p : Proposal) :
    (∃ oper, p.checked args = p.setOper oper ∧
      (oper.performed = true → oper = p.target.oper ∧ usedUp args p.env = false)) ∨
    (args.flags.linear = true ∧ args.flags.ntrlvd = false ∧ args.flags.rtrsiz = true ∧
      p.target.oper = .reader ∧ usedUp args p.env = false ∧ p.checked args = p.restart args) ∨
    (args.flags.linear = false ∧ args.flags.ntrlvd = false ∧ usedUp args p.env = false ∧
      ∃ oper oper', p.checked args = (p.switch oper).setOper oper') := by
  have idle := checked_oper_idle args p.env p.target
  unfold Proposal.checked
  generalize checkedOper args p.env p.target = oper at *
  unfold settled
  cases settle : args.flags.settle (p.setOper oper).target.oper
      (blkWritten args (p.setOper oper).env (p.setOper oper).target) with
  | keep => exact .inl ⟨oper, rfl, idle⟩
  | restart =>
    obtain ⟨linear, single, several, reader⟩ := settle_restart settle
    change oper = .reader at reader
    subst reader
    obtain ⟨same, going⟩ := idle rfl
    refine .inr (.inl ⟨linear, single, several, same.symm, going, ?_⟩)
    rw [same]
    rfl
  | wait => exact .inl ⟨.retry, rfl, fun performed => by cases performed⟩
  | write =>
    obtain ⟨straight, single, performed⟩ := settle_switch chosen (.inl settle)
    refine .inr (.inr ⟨straight, single, (idle performed).2, .writer, ?_⟩)
    dsimp only
    unfold Proposal.toWriter
    extract_lets q
    split
    · exact ⟨.retry, rfl⟩
    · exact ⟨.writer, rfl⟩
  | read =>
    obtain ⟨straight, single, performed⟩ := settle_switch chosen (.inr settle)
    exact .inr (.inr ⟨straight, single, (idle performed).2, .reader, .reader, rfl⟩)

structure Ready (args : ChildArgs) (q : Proposal) : Prop where
  inside : Inside args q.target
  large : 1 ≤ q.target.trsiz
  fixed : args.flags.rtrsiz = false → q.target.trsiz = args.ltrsiz
  rests : args.flags.ntrlvd = true → (args.flags.takesTurns = true → q.env.testState.wFst = true) →
    q.target.oper = onlyOper args q.env
  alone : args.flags.linear = true → args.flags.takesTurns = false → q.target.oper = onlyOper args q.env
  place : args.startBlk ≠ args.stopBlk → args.flags.linear = true → Placed q.target.oper q ∧
    (args.flags.backForth = true → Walks args q.env q.target.oper → (args.ltrsiz : Int) ∣ q.target.lba - firstLba args)

theorem used_up_same (args : ChildArgs) {env' : TestEnv} (wcount : env'.wcount = env.wcount)
    (rcount : env'.rcount = env.rcount) : usedUp args env' = usedUp args env := by
  rw [usedUp, usedUp, wcount, rcount]

theorem only_oper_same (args : ChildArgs) {env' : TestEnv} (operR : env'.testState.operR = env.testState.operR) :
    onlyOper args env' = onlyOper args env := by
  rw [onlyOper, onlyOper, TestState.oper, TestState.oper, operR]

theorem walks_same {env' : TestEnv} (operR : env'.testState.operR = env.testState.operR) (oper : Op) :
    Walks args env' oper ↔ Walks args env oper := by
  rw [Walks, Walks, only_oper_same args operR]

theorem proposed_going (made : Proposed args env p) (going : usedUp args p.env = false) :
    Inside args p.target := by
  rw [used_up_same args made.kept.wcount made.kept.rcount] at going
  exact made.inside going

theorem proposed_oper (made : Proposed args env p) (performed : p.target.oper.performed = true) :
    p.target.oper = pickOper args env := by
  refine made.oper.resolve_right fun none => ?_
  rw [none] at performed
  cases performed

theorem kept_ready (steady : Steady args env) (made : Proposed args env p)
    (performed : p.target.oper.performed = true) (going : usedUp args p.env = false) :
    Ready args p := by
  have given := proposed_oper made performed
  have only := only_oper_same args made.kept.operR
  refine ⟨proposed_going made going, made.large, made.fixed, ?_, ?_, ?_⟩
  · intro interleaved rests
    rw [given, only]
    exact pick_oper_rests steady interleaved fun turns => by rw [← made.kept.wFst]; exact rests turns
  · intro linear alone
    rw [given, only]
    exact pick_oper_linear steady linear fun turns => by simp [alone] at turns
  · intro moves linear
    obtain ⟨⟨lba, direct⟩, steps⟩ := made.place moves linear
    rw [← given] at lba steps
    exact ⟨⟨lba, direct⟩, fun back walks => steps back ((walks_same made.kept.operR _).mp walks)⟩

theorem restarted_ready (fits : Ranged args) (steady : Steady args env)
    (made : Proposed args env p) (linear : args.flags.linear = true)
    (single : args.flags.ntrlvd = false) (several : args.flags.rtrsiz = true)
    (reader : p.target.oper = .reader) (going : usedUp args p.env = false) :
    Steady args (p.restart args).env ∧ Ready args (p.restart args) := by
  have flat : args.startBlk ≠ args.stopBlk → args.flags.backForth = false := by
    intro moves
    cases back : args.flags.backForth with
    | false => rfl
    | true => simp [fits.fixed moves linear back] at several
  have alone : args.flags.takesTurns = false := by simp [Flags.takesTurns, single]
  have given := proposed_oper made (by rw [reader]; rfl)
  obtain ⟨low, high⟩ := proposed_going made going
  refine ⟨?_, ⟨Int.le_refl _, ?_⟩, made.large, made.fixed, ?_, ?_, ?_⟩
  · change Steady args (p.env.moveTo .reader (firstLba args))
    refine moved_steady made.steady (.inr rfl) made.steady.upward ?_ (.inl rfl) ?_
    · intro moves _ _ _
      refine walking_home fits fun falls => ?_
      rw [made.steady.upward (flat moves)] at falls
      cases falls
    · intro _ turns
      simp [alone] at turns
  · change firstLba args + p.target.trsiz - 1 ≤ args.stopLba
    omega
  · intro interleaved
    simp [single] at interleaved
  · intro linear _
    change p.target.oper = onlyOper args p.env
    rw [given, only_oper_same args made.kept.operR]
    exact pick_oper_linear steady linear fun turns => by simp [alone] at turns
  · intro moves linear
    obtain ⟨⟨-, direct⟩, -⟩ := made.place moves linear
    refine ⟨⟨?_, direct⟩, fun back => by simp [flat moves] at back⟩
    change firstLba args = TestEnv.position _ p.target.oper
    rw [reader]
    rfl

theorem switched_ready (made : Proposed args env p) (straight : args.flags.linear = false)
    (single : args.flags.ntrlvd = false) (going : usedUp args p.env = false) (oper oper' : Op) :
    Steady args ((p.switch oper).setOper oper').env ∧ Ready args ((p.switch oper).setOper oper') := by
  have stays := made.steady
  have alone : args.flags.takesTurns = false := by simp [Flags.takesTurns, single]
  have inside := proposed_going made going
  refine ⟨⟨stays.last, stays.fixed, ?_, ?_, stays.upward, ?_, ?_⟩, inside, made.large, made.fixed, ?_, ?_, ?_⟩
  · intro turns
    simp [alone] at turns
  · intro interleaved
    simp [single] at interleaved
  · intro _ linear
    simp [straight] at linear
  · intro _ linear
    simp [straight] at linear
  · intro interleaved
    simp [single] at interleaved
  · intro linear
    simp [straight] at linear
  · intro _ linear
    simp [straight] at linear

theorem checked_ready (fits : Ranged args) (chosen : Chosen args.flags) (steady : Steady args env)
    (made : Proposed args env p) : Steady args (p.checked args).env ∧ ((p.checked args).target.oper.performed = true →
        Ready args (p.checked args) ∧ Inside args p.target) := by
  rcases checked_cases chosen p with ⟨oper, same, kept⟩ |
    ⟨linear, single, several, reader, going, same⟩ | ⟨straight, single, going, oper, oper', same⟩
  · rw [same]
    refine ⟨made.steady, ?_⟩
    intro performed
    obtain ⟨rfl, going⟩ := kept performed
    exact ⟨kept_ready steady made performed going, proposed_going made going⟩
  · rw [same]
    obtain ⟨stays, ready⟩ :=
      restarted_ready fits steady made linear single several reader going
    exact ⟨stays, fun _ => ⟨ready, proposed_going made going⟩⟩
  · rw [same]
    obtain ⟨stays, ready⟩ := switched_ready made straight single going oper oper'
    exact ⟨stays, fun _ => ⟨ready, proposed_going made going⟩⟩

end checks

section records
variable {args : ChildArgs} {env : TestEnv} {q : Proposal}

theorem walking_moved {state : TestState} {position : Int} {size : Nat}
    (above : firstLba args ≤ position) (below : position + size - 1 ≤ args.stopLba)
    (upward : args.flags.backForth = false → state.inc = true)
    (sized : args.flags.backForth = true → size = args.ltrsiz)
    (steps : args.flags.backForth = true → (args.ltrsiz : Int) ∣ position - firstLba args) :
    Walking args state.inc (position + state.direct * size) := by
  have whole : args.flags.backForth = true → (args.ltrsiz : Int) ∣ position + state.direct * size - firstLba args := by
    intro back
    have moved := Int.dvd_add (steps back) (Int.dvd_mul_left state.direct args.ltrsiz)
    rw [sized back]
    rwa [show position - firstLba args + state.direct * args.ltrsiz =
      position + state.direct * args.ltrsiz - firstLba args by omega] at moved
  refine ⟨?_, ?_, whole⟩
  · intro rises
    rw [TestState.direct, rises, if_pos rfl]
    omega
  · intro falls
    have same : size = args.ltrsiz := by
      cases back : args.flags.backForth with
      | true => exact sized back
      | false =>
        rw [upward back] at falls
        cases falls
    rw [TestState.direct, falls, if_neg (by decide)]
    omega

theorem ready_moved (fits : Ranged args) (steady : Steady args q.env) (ready : Ready args q)
    (moves : args.startBlk ≠ args.stopBlk) (linear : args.flags.linear = true)
    (walks : args.flags.backForth = true → Walks args q.env q.target.oper) :
    Walking args q.env.testState.inc
      (q.env.position q.target.oper + q.direct * q.target.trsiz) := by
  obtain ⟨⟨lba, direct⟩, steps⟩ := ready.place moves linear
  obtain ⟨low, high⟩ := ready.inside
  rw [direct, ← lba]
  exact walking_moved low high steady.upward
    (fun back => ready.fixed (fits.fixed moves linear back)) fun back => steps back (walks back)

theorem walking_inside (flat : args.flags.backForth = false) {position : Int} {size : Nat}
    (above : firstLba args ≤ position) (below : position + size - 1 ≤ args.stopLba) :
    Walking args true position where
  up := fun _ => ⟨above, by omega⟩
  down := fun falls => by cases falls
  steps := fun back => by rw [flat] at back; cases back

theorem write_steady (fits : Ranged args) (steady : Steady args q.env) (ready : Ready args q)
    (writes : q.target.oper = .writer) : Steady args (startWrite args q) := by
  have place := ready.place
  have moved := ready_moved fits steady ready
  rw [writes] at place moved
  refine ⟨fun _ => ready.inside, fun one _ => ready.fixed one, fun _ _ => ?_, ?_, steady.upward, ?_, ?_⟩
  · have some := ready.large
    change q.target.trsiz ≠ 0
    omega
  · intro interleaved rests
    exact ready.rests interleaved fun turns => by cases rests turns
  · intro moves linear oper walks later
    have goes : Walks args q.env oper := (walks_same rfl oper).mp walks
    rcases walks_performed goes with rfl | rfl
    · exact moved moves linear fun _ => goes
    · have follows : args.flags.takesTurns = true ∧ args.flags.backForth = false := by
        cases turns : args.flags.takesTurns with
        | false =>
          have only := ready.alone linear turns
          rw [Walks, turns, if_neg (by decide), ← only, writes] at goes
          cases goes
        | true =>
          rw [Walks, if_pos turns] at goes
          simpa using goes
      have flat := follows.2
      have rises := steady.upward flat
      change Walking args q.env.testState.inc (if args.flags.lund then q.env.wlba else q.env.rlba)
      split
      · rw [rises]
        obtain ⟨low, high⟩ := ready.inside
        rw [(place moves linear).1.lba] at low high
        exact walking_inside flat low high
      · exact steady.walks moves linear .reader goes later
  · intro moves linear back _ _ _ _
    have lund : args.flags.lund = true := by
      simp only [Flags.backForth, Bool.and_eq_true] at back
      exact back.1
    change (if args.flags.lund then q.env.wlba else q.env.rlba) = q.target.lba
    rw [if_pos lund, (place moves linear).1.lba]
    rfl

theorem read_steady (fits : Ranged args) (steady : Steady args q.env) (ready : Ready args q)
    (reads : q.target.oper = .reader) : Steady args (startRead q) := by
  have moved := ready_moved fits steady ready
  rw [reads] at moved
  refine ⟨fun _ => ready.inside, fun one _ => ready.fixed one, fun _ _ => ?_, ?_, steady.upward, ?_, ?_⟩
  · have some := ready.large
    change q.target.trsiz ≠ 0
    omega
  · intro interleaved rests
    exact ready.rests interleaved rests
  · intro moves linear oper walks later
    have goes : Walks args q.env oper := (walks_same rfl oper).mp walks
    rcases walks_performed goes with rfl | rfl
    · exact steady.walks moves linear .writer goes later
    · exact moved moves linear fun _ => goes
  · intro _ _ _ _ _ _ wrote
    change q.target.oper = .writer at wrote
    rw [reads] at wrote
    cases wrote

theorem listed_same {target : Action} {env' : TestEnv} (added : listed args target env = some env') :
    env'.rlba = env.rlba ∧ env'.wlba = env.wlba ∧ env'.lastAction = env.lastAction ∧
      env'.testState = env.testState ∧ env'.wbitmap = env.wbitmap := by
  unfold listed addAction at added
  split at added
  · split at added
    · cases added
    · obtain rfl := Option.some.inj added
      exact ⟨rfl, rfl, rfl, rfl, rfl⟩
  · obtain rfl := Option.some.inj added
    exact ⟨rfl, rfl, rfl, rfl, rfl⟩

theorem record_steady (fits : Ranged args) (steady : Steady args q.env)
    (ready : q.target.oper.performed = true → Ready args q) (recorded : record args q = some env) :
    Steady args env := by
  unfold record at recorded
  cases oper : q.target.oper with
  | writer =>
    rw [oper] at recorded
    obtain ⟨rlba, wlba, last, state, -⟩ := listed_same recorded
    exact steady_same (write_steady fits steady (ready (by rw [oper]; rfl)) oper) rlba wlba last state
  | reader =>
    rw [oper] at recorded
    obtain ⟨rlba, wlba, last, state, -⟩ := listed_same recorded
    exact steady_same (read_steady fits steady (ready (by rw [oper]; rfl)) oper) rlba wlba last state
  | none =>
    rw [oper] at recorded
    obtain rfl := Option.some.inj recorded
    exact steady
  | retry =>
    rw [oper] at recorded
    obtain rfl := Option.some.inj recorded
    exact steady

end records

section runs
variable {args : ChildArgs} {mask : Nat} {s t : State}

structure InRun (args : ChildArgs) (s : State) : Prop where
  steady : Steady args s.env
  flying : ∀ a ∈ s.flying, Inside args a

theorem next_inside {draws : Draws} {env : TestEnv} {result : TestEnv × Action} (fits : Ranged args)
    (chosen : Chosen args.flags) (large : 1 ≤ args.ltrsiz) (steady : Steady args env)
    (fit : Fitting args mask draws) (got : getNextAction args mask draws env = some result) :
    Steady args result.1 ∧ (result.2.oper.performed = true → Inside args result.2 ∧
      ∀ p ∈ propose args mask draws env, Inside args p.target) := by
  obtain ⟨p, proposed, taken⟩ := Option.bind_eq_some_iff.mp got
  obtain ⟨after, recorded, rfl⟩ := Option.map_eq_some_iff.mp taken
  have made := propose_steady fits chosen large steady fit proposed
  obtain ⟨stays, ready⟩ := checked_ready fits chosen steady made
  refine ⟨record_steady fits stays (fun performed => (ready performed).1) recorded, ?_⟩
  intro performed
  obtain ⟨handed, inside⟩ := ready performed
  refine ⟨handed.inside, ?_⟩
  intro other same
  obtain rfl : p = other := Option.some.inj (proposed.symm.trans same)
  exact inside

theorem unlisted_same {target : Action} {env env' : TestEnv}
    (removed : unlisted args target env = some env') :
    env'.rlba = env.rlba ∧ env'.wlba = env.wlba ∧ env'.lastAction = env.lastAction ∧
      env'.testState = env.testState := by
  unfold unlisted removeAction at removed
  split at removed
  · split at removed
    · obtain rfl := Option.some.inj removed
      exact ⟨rfl, rfl, rfl, rfl⟩
    · cases removed
  · obtain rfl := Option.some.inj removed
    exact ⟨rfl, rfl, rfl, rfl⟩

theorem land_in_run {target : Action} {env : TestEnv} (inv : InRun args s)
    (steady : Steady args env) : InRun args (land target s env) where
  steady := steady
  flying := fun a member => inv.flying a (List.mem_of_mem_erase member)

theorem thread_in_run (fits : Ranged args) (chosen : Chosen args.flags) (large : 1 ≤ args.ltrsiz)
    (act : Act) (inv : InRun args s) (fit : DrawsFit args mask (.thread act) s)
    (taken : step args mask act s = some t) : InRun args t := by
  cases act with
  | next draws =>
    rw [step] at taken
    split at taken
    · obtain ⟨result, got, rfl⟩ := Option.map_eq_some_iff.mp taken
      obtain ⟨steady, inside⟩ := next_inside fits chosen large inv.steady fit got
      refine ⟨steady, ?_⟩
      unfold takeOff
      split
      · rename_i performed
        exact List.forall_mem_cons.mpr ⟨(inside performed).1, inv.flying⟩
      · exact inv.flying
    · cases taken
  | complete target =>
    rw [step] at taken
    split at taken
    · obtain ⟨env, done, rfl⟩ := Option.map_eq_some_iff.mp taken
      obtain ⟨rlba, wlba, last, state⟩ := unlisted_same done
      have same : Steady args
          (if target.oper = .writer then markWritten args target s.env else s.env) := by
        split
        · exact steady_same inv.steady rfl rfl rfl rfl
        · exact inv.steady
      exact land_in_run inv (steady_same same rlba wlba last state)
    · cases taken
  | giveUp target =>
    rw [step] at taken
    split at taken
    · obtain ⟨env, done, rfl⟩ := Option.map_eq_some_iff.mp taken
      obtain ⟨removed, listed, rfl⟩ := Option.map_eq_some_iff.mp done
      obtain ⟨rlba, wlba, last, state⟩ := unlisted_same listed
      have same := steady_same inv.steady rlba wlba last state
      apply land_in_run inv
      split
      · exact steady_same same rfl rfl rfl rfl
      · exact steady_same same rfl rfl rfl rfl
    · cases taken

theorem test_in_run (fits : Ranged args) (chosen : Chosen args.flags) (large : 1 ≤ args.ltrsiz)
    (act : TestAct) (s t : State) (inv : InRun args s) (fit : DrawsFit args mask act s)
    (taken : testStep args mask act s = some t) : InRun args t := by
  cases act with
  | thread act => exact thread_in_run fits chosen large act inv fit taken
  | pass pass =>
    rw [testStep] at taken
    split at taken
    · rename_i has
      obtain rfl := Option.some.inj taken
      exact ⟨start_steady has inv.steady, fun a member => by cases member⟩
    · cases taken

/-- As long as the sizes and the LBAs drawn fit, the actions of every run are in the range, with their
bits in the bitmap. -/
theorem stays_in_range (o : Outside) (given args : ChildArgs) (accepted : Accepted o given args)
    (fits : Ranged args) (mask : Nat) (acts : List TestAct)
    (drawn : Machine.Along (testStep args mask) (DrawsFit args mask) acts (testInit args)) :
    Machine.Along (testStep args mask) (Stays args mask) acts (testInit args) := by
  obtain ⟨-, large, -⟩ := accepted_sizes accepted
  have chosen := accepted_chosen accepted
  refine Machine.along_holds (test_in_run fits chosen large) ?_
    ⟨init_steady args, fun a member => by cases member⟩ drawn
  intro act s inv fit
  match act, fit with
  | .thread (.next draws), fit =>
    intro result got performed
    obtain ⟨inside, looked⟩ := (next_inside fits chosen large inv.steady fit got).2 performed
    exact ⟨inside_within accepted fits inside,
      fun p proposed => (inside_within accepted fits (looked p proposed)).2.2⟩
  | .thread (.complete target), _ =>
    intro member
    exact (inside_within accepted fits (inv.flying target member)).2.2
  | .thread (.giveUp _), _ => trivial
  | .pass _, _ => trivial

def backForthGiven : ChildArgs where
  device := { name := [0x64], short := one_letter_short }
  vsiz := 16
  ltrsiz := 2
  htrsiz := 2
  offset := 1
  startLba := 2
  stopLba := 7
  tKids := 1
  flags := { lbaRng := true, offset := true, linear := true, lund := true, w := true, lbaSync := true }

def noDraws : TestAct := .thread (.next { sizes := [], lbas := [] })

def writtenAt (lba : Int) : TestAct :=
  .thread (.complete { oper := .writer, trsiz := 2, lba })

/-- The second transfer ends at the last block, and the third one is one back. -/
theorem back_forth_stays : Machine.Along (testStep (makeAssumptions plainFile backForthGiven) 7)
    (Stays (makeAssumptions plainFile backForthGiven) 7)
    [.pass .writes, noDraws, writtenAt 3, noDraws, writtenAt 5, noDraws]
    (testInit (makeAssumptions plainFile backForthGiven)) :=
  stays_in_range plainFile backForthGiven _ (by decide)
    ⟨by decide, by decide, by decide, by decide, by decide⟩ 7 _ (by decide)

def pastEndGiven : ChildArgs where
  device := { name := [0x64], short := one_letter_short }
  vsiz := 100
  ltrsiz := 8
  htrsiz := 8
  offset := 8
  startLba := 10
  stopLba := 20
  tKids := 1
  flags := { lbaRng := true, offset := true, linear := true, w := true }

def unalignedGiven : ChildArgs where
  device := { name := [0x64], short := one_letter_short }
  vsiz := 100
  ltrsiz := 4
  htrsiz := 4
  startLba := 5
  stopLba := 20
  tKids := 1
  flags := { lbaRng := true, random := true, r := true }

/-- A write of the blocks 18 to 25, and a read of the blocks 4 to 7. -/
theorem actions_leave_range :
    (¬ ∀ (o : Outside) (given args : ChildArgs), Accepted o given args →
      args.flags.linear = true → ∀ (mask : Nat) (acts : List TestAct),
        Machine.Along (testStep args mask) (Stays args mask) acts (testInit args)) ∧
    ¬ ∀ (o : Outside) (given args : ChildArgs), Accepted o given args →
      args.flags.linear = false → args.offset = 0 → ∀ (mask : Nat) (acts : List TestAct),
        Machine.Along (testStep args mask) (Stays args mask) acts (testInit args) := by
  constructor
  · intro all
    obtain ⟨-, later⟩ := all plainFile pastEndGiven (makeAssumptions plainFile pastEndGiven)
      (by decide) rfl 7 [.pass .writes, noDraws]
    obtain ⟨stays, -⟩ := later _ rfl
    have high := (stays _ rfl rfl).1.2.1
    exact absurd high (by decide)
  · intro all
    obtain ⟨-, later⟩ := all plainFile unalignedGiven (makeAssumptions plainFile unalignedGiven)
      (by decide) rfl rfl 15 [.pass .mixed, .thread (.next { sizes := [], lbas := [0] })]
    obtain ⟨stays, -⟩ := later _ rfl
    have low := (stays _ rfl rfl).1.1
    exact absurd low (by decide)

end runs
end VteDisktest
