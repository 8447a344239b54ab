import Vte.Disktest.InRange

/-!
What holds of the positions and of the last action between two actions, and how a linear proposal
moves a position: up to the end of the range and from the start again, or there and back.
-/
namespace VteDisktest
open CInt

section invariant
variable (args : ChildArgs)

/-- A position from which the walk goes on: not past the end, and on the way down at most one transfer
below the first LBA. The way back takes the steps of the way up. -/
structure Walking (inc : Bool) (position : Int) : Prop where
  up : inc = true → firstLba args ≤ position ∧ position ≤ args.stopLba + 1
  down : inc = false → firstLba args ≤ position + args.ltrsiz ∧ position + args.ltrsiz ≤ args.stopLba + 1
  steps : args.flags.backForth = true → (args.ltrsiz : Int) ∣ position - firstLba args

def Flags.takesTurns (flags : Flags) : Bool := flags.ntrlvd && flags.w && flags.r

def onlyOper (env : TestEnv) : Op :=
  if args.flags.ntrlvd then if args.flags.w then .writer else .reader else env.testState.oper

/-- The operation goes its own way. Where the direction changes, a read that takes turns with the
writes goes to what was written before it. -/
def Walks (env : TestEnv) (oper : Op) : Prop :=
  if args.flags.takesTurns then
    oper = .writer ∨ oper = .reader ∧ args.flags.backForth = false
  else oper = onlyOper args env

structure Steady (env : TestEnv) : Prop where
  last : env.lastAction.trsiz ≠ 0 → Inside args env.lastAction
  fixed : args.flags.rtrsiz = false → env.lastAction.trsiz ≠ 0 → env.lastAction.trsiz = args.ltrsiz
  began : args.flags.takesTurns = true → env.testState.wFst = false → env.lastAction.trsiz ≠ 0
  resting : args.flags.ntrlvd = true → (args.flags.takesTurns = true → env.testState.wFst = true) →
    env.lastAction.oper = onlyOper args env
  upward : args.flags.backForth = false → env.testState.inc = true
  walks : args.startBlk ≠ args.stopBlk → args.flags.linear = true → ∀ oper, Walks args env oper →
    firstTime oper env.testState = false → Walking args env.testState.inc (env.position oper)
  echo : args.startBlk ≠ args.stopBlk → args.flags.linear = true →
    args.flags.backForth = true → args.flags.takesTurns = true → env.testState.wFst = false →
    env.testState.rFst = false → env.lastAction.oper = .writer → env.rlba = env.lastAction.lba

end invariant

section starts
variable {args : ChildArgs} {env : TestEnv}

theorem only_oper_performed (args : ChildArgs) (env : TestEnv) :
    onlyOper args env = .writer ∨ onlyOper args env = .reader := by
  unfold onlyOper TestState.oper
  repeat' split
  all_goals simp

theorem walks_performed {oper : Op} (walks : Walks args env oper) :
    oper = .writer ∨ oper = .reader := by
  unfold Walks at walks
  split at walks
  · exact walks.imp_right And.left
  · rw [walks]
    exact only_oper_performed args env

theorem steady_same {env' : TestEnv} (steady : Steady args env) (rlba : env'.rlba = env.rlba)
    (wlba : env'.wlba = env.wlba) (last : env'.lastAction = env.lastAction)
    (state : env'.testState = env.testState) : Steady args env' := by
  obtain ⟨last', fixed, began, resting, upward, walks, echo⟩ := steady
  cases env
  cases env'
  subst rlba wlba last state
  exact ⟨last', fixed, began, resting, upward, walks, echo⟩

theorem init_steady (args : ChildArgs) : Steady args (initEnv args) where
  last := fun some => absurd rfl some
  fixed := fun _ some => absurd rfl some
  began := fun _ later => by cases later
  resting := fun turns _ => by simp [initEnv, onlyOper, turns]
  upward := fun _ => rfl
  walks := by
    intro _ _ oper walks later
    rcases walks_performed walks with rfl | rfl
    · cases later
    · cases later
  echo := fun _ _ _ _ later => by cases later

theorem start_steady {pass : TestPass} (has : args.flags.has pass = true) (steady : Steady args env) :
    Steady args (pass.start args env) := by
  cases pass with
  | mixed =>
    refine ⟨steady.last, steady.fixed, fun _ later => (by cases later), ?_, fun _ => rfl, ?_,
      fun _ _ _ _ later => (by cases later)⟩
    · intro turns _
      simp only [TestPass.start, startMixed, noneStarted, Action.setOper, onlyOper, turns, if_true]
    · intro _ _ oper walks later
      rcases walks_performed walks with rfl | rfl
      · cases later
      · cases later
  | writes =>
    simp only [Flags.has, Bool.and_eq_true, Bool.not_eq_true'] at has
    obtain ⟨⟨-, single⟩, -⟩ := has
    have alone : args.flags.takesTurns = false := by simp [Flags.takesTurns, single]
    refine ⟨steady.last, steady.fixed, ?_, ?_, fun _ => rfl, ?_, ?_⟩
    · intro turns
      simp [alone] at turns
    · intro turns
      simp [single] at turns
    · intro _ _ oper walks later
      simp only [Walks, alone, onlyOper, single, Bool.false_eq_true, if_false] at walks
      subst walks
      cases later
    · intro _ _ _ turns
      simp [alone] at turns
  | reads =>
    simp only [Flags.has, Bool.and_eq_true, Bool.not_eq_true'] at has
    obtain ⟨⟨-, single⟩, -⟩ := has
    have alone : args.flags.takesTurns = false := by simp [Flags.takesTurns, single]
    have same : Steady args (if args.flags.w then env else clearBitmap env) := by
      split
      · exact steady
      · exact steady_same steady rfl rfl rfl rfl
    refine ⟨same.last, same.fixed, ?_, ?_, fun _ => rfl, ?_, ?_⟩
    · intro turns
      simp [alone] at turns
    · intro turns
      simp [single] at turns
    · intro _ _ oper walks later
      simp only [Walks, alone, onlyOper, single, Bool.false_eq_true, if_false] at walks
      subst walks
      cases later
    · intro _ _ _ turns
      simp [alone] at turns

end starts

section picks
variable {args : ChildArgs} {env : TestEnv} {mask : Nat} {draws : Draws}

theorem pick_oper_turns (turns : args.flags.takesTurns = true) (later : env.testState.wFst = false) :
    pickOper args env = if env.lastAction.oper = .writer then .reader else .writer := by
  simp only [Flags.takesTurns, Bool.and_eq_true] at turns
  simp [pickOper, turns, later]

theorem pick_oper_rests (steady : Steady args env) (interleaved : args.flags.ntrlvd = true)
    (rests : args.flags.takesTurns = true → env.testState.wFst = true) :
    pickOper args env = onlyOper args env := by
  have resting := steady.resting interleaved rests
  have some := only_oper_performed args env
  have busy : env.lastAction.oper ≠ .none := by
    rw [resting]
    rcases some with same | same
    · simp [same]
    · simp [same]
  simp only [pickOper, interleaved, Bool.not_true, Bool.and_false, Bool.false_eq_true, if_false,
    Bool.true_and, busy, ← resting]
  cases first : env.testState.wFst with
  | true => simp
  | false =>
    have alone : args.flags.takesTurns = false := by
      cases turns : args.flags.takesTurns with
      | false => rfl
      | true => simp [rests turns] at first
    simp only [Flags.takesTurns, interleaved, Bool.true_and] at alone
    have swapped : (args.flags.r && args.flags.w) = false := by rw [Bool.and_comm, alone]
    simp [swapped]

theorem pick_oper_linear (steady : Steady args env) (linear : args.flags.linear = true)
    (rests : args.flags.takesTurns = true → env.testState.wFst = true) :
    pickOper args env = onlyOper args env := by
  cases interleaved : args.flags.ntrlvd with
  | true => exact pick_oper_rests steady interleaved rests
  | false => simp [pickOper, onlyOper, linear, interleaved]

theorem pick_reader_turns (steady : Steady args env) (turns : args.flags.takesTurns = true)
    (reads : pickOper args env = .reader) :
    env.testState.wFst = false ∧ env.lastAction.oper = .writer := by
  have both := turns
  simp only [Flags.takesTurns, Bool.and_eq_true] at both
  cases later : env.testState.wFst with
  | true =>
    have rests := pick_oper_rests steady both.1.1 fun _ => later
    rw [reads] at rests
    simp [onlyOper, both] at rests
  | false =>
    rw [pick_oper_turns turns later] at reads
    split at reads
    · rename_i wrote
      exact ⟨rfl, wrote⟩
    · cases reads

theorem pick_oper_walks (steady : Steady args env) (linear : args.flags.linear = true) :
    Walks args env (pickOper args env) ∨ args.flags.takesTurns = true ∧
      args.flags.backForth = true ∧ pickOper args env = .reader := by
  cases turns : args.flags.takesTurns with
  | false =>
    left
    rw [Walks, turns, if_neg (by decide)]
    exact pick_oper_linear steady linear fun taken => by simp [turns] at taken
  | true =>
    rw [Walks, turns, if_pos rfl]
    have some : pickOper args env = .writer ∨ pickOper args env = .reader := by
      cases later : env.testState.wFst with
      | true =>
        rw [pick_oper_linear steady linear fun _ => later]
        exact only_oper_performed args env
      | false =>
        rw [pick_oper_turns turns later]
        split <;> simp
    rcases some with writes | reads
    · exact .inl (.inl writes)
    · cases back : args.flags.backForth with
      | false => exact .inl (.inr ⟨reads, rfl⟩)
      | true => exact .inr ⟨rfl, rfl, reads⟩

theorem draw_size_find (going : usedUp args env = false) (sizes : List Nat) :
    drawSize args env sizes = (sizes.map fun rand => (rand &&& 0xfff) + args.ltrsiz).find? (· ≤ args.htrsiz) := by
  induction sizes with
  | nil => rfl
  | cons rand sizes ih =>
    rw [drawSize, List.map_cons, List.find?_cons, going, Bool.false_or, ih]
    split
    · rename_i small
      simp only [small]
    · rename_i large
      simp only [eq_false_of_ne_true large]

theorem pick_size_cases {oper : Op} {sizes : List Nat} {size : Nat}
    (going : usedUp args env = false) (picked : pickSize args oper sizes env = some size) :
    args.flags.takesTurns = true ∧ oper = .reader ∧ args.flags.rtrsiz = true ∧
      env.lastAction.trsiz ≠ 0 ∧ size = env.lastAction.trsiz ∨
    drawnSize args sizes = some size ∧ (args.flags.takesTurns = true → oper = .reader →
      args.flags.rtrsiz = true → env.lastAction.trsiz = 0) := by
  unfold pickSize at picked
  unfold drawnSize
  dsimp only at picked
  cases several : args.flags.rtrsiz with
  | false =>
    rw [several] at picked
    exact .inr ⟨picked, fun _ _ never => by cases never⟩
  | true =>
    simp only [several, Bool.not_true, Bool.false_eq_true, if_false] at picked
    split at picked
    · rename_i again
      simp only [Bool.and_eq_true, bne_iff_ne, decide_eq_true_eq] at again
      obtain ⟨⟨⟨⟨turns, writes⟩, reads⟩, some⟩, reader⟩ := again
      exact .inl ⟨by simp [Flags.takesTurns, turns, writes, reads], reader, rfl, some, (Option.some.inj picked).symm⟩
    · rename_i anew
      rw [draw_size_find going] at picked
      refine .inr ⟨picked, ?_⟩
      intro turns reader _
      simp only [Flags.takesTurns, Bool.and_eq_true] at turns
      by_contra some
      exact anew (by simp [turns, reader, some])

end picks

section linear
variable {args : ChildArgs} {env : TestEnv} {oper : Op} {size : Nat}

structure Placed (oper : Op) (p : Proposal) : Prop where
  lba : p.target.lba = p.env.position oper
  direct : p.direct = p.env.testState.direct

theorem linear_cases (chosen : Chosen args.flags) (linear : args.flags.linear = true) (oper : Op)
    (size : Nat) (env : TestEnv) : Placed oper (linearLba args oper size env) ∧
    ((firstTime oper env.testState = true ∨ args.flags.backForth = false) ∧
        (linearLba args oper size env).env = env.moveTo oper (firstLba args) ∨
      firstTime oper env.testState = false ∧ goesOn args oper size env = true ∧
        (linearLba args oper size env).env = env ∨
      firstTime oper env.testState = false ∧ goesOn args oper size env = false ∧
        args.flags.backForth = true ∧ (linearLba args oper size env).env =
          { env with testState := env.testState.turn }.moveTo oper
            (env.position oper + env.testState.turn.direct * size)) := by
  have state : ∀ e : TestEnv, ∀ x, (e.moveTo oper x).testState = e.testState :=
    fun e x => (move_to_keeps e oper x).2
  unfold linearLba
  split
  · rename_i first
    exact ⟨⟨rfl, rfl⟩, .inl ⟨.inl first, rfl⟩⟩
  · rename_i later
    rw [Bool.not_eq_true] at later
    split
    · rename_i on
      exact ⟨⟨rfl, rfl⟩, .inr (.inl ⟨later, on, rfl⟩)⟩
    · rename_i ends
      rw [Bool.not_eq_true] at ends
      split
      · rename_i around
        have wraps : args.flags.backForth = false := by simp [Flags.backForth, around]
        unfold wrapAround
        extract_lets p
        split
        · exact ⟨⟨rfl, rfl⟩, .inl ⟨.inr wraps, rfl⟩⟩
        · exact ⟨⟨rfl, rfl⟩, .inl ⟨.inr wraps, rfl⟩⟩
      · rename_i straight
        have back : args.flags.lund = true := (chosen.turn linear).resolve_left straight
        have turns : args.flags.backForth = true := by simp [Flags.backForth, back, straight]
        rw [if_pos back]
        unfold turnAround
        extract_lets turned p
        split
        · exact ⟨⟨rfl, rfl⟩, .inr (.inr ⟨later, ends, turns, rfl⟩)⟩
        · exact ⟨⟨rfl, rfl⟩, .inr (.inr ⟨later, ends, turns, rfl⟩)⟩

theorem move_to_elsewhere {other : Op} (env : TestEnv) (performed : oper = .writer ∨ oper = .reader)
    (goes : other = .writer ∨ other = .reader) (apart : other ≠ oper) (lba : Int) :
    (env.moveTo oper lba).position other = env.position other := by
  unfold TestEnv.moveTo TestEnv.position
  rcases performed with rfl | rfl
  · rcases goes with rfl | rfl
    · exact absurd rfl apart
    · rfl
  · rcases goes with rfl | rfl
    · rfl
    · exact absurd rfl apart

theorem walking_home (fits : Ranged args) {inc : Bool}
    (room : inc = false → firstLba args + args.ltrsiz - 1 ≤ args.stopLba) :
    Walking args inc (firstLba args) where
  up := fun _ => ⟨Int.le_refl _, by have first := fits.first; omega⟩
  down := fun falls => ⟨by omega, by have behind := room falls; omega⟩
  steps := fun _ => by rw [Int.sub_self]; exact Int.dvd_zero _

theorem walking_turn {state : TestState} {position : Int} (large : 1 ≤ args.ltrsiz)
    (low : 0 ≤ firstLba args) (stop : args.stopLba < 9223372036854775808)
    (room : firstLba args + args.ltrsiz - 1 ≤ args.stopLba) (back : args.flags.backForth = true)
    (walking : Walking args state.inc position)
    (ends : (if state.inc then decide (lastLba position args.ltrsiz ≤ u64 args.stopLba)
      else decide (firstLba args ≤ position)) = false) :
    Walking args state.turn.inc (position + state.turn.direct * args.ltrsiz) ∧
      firstLba args ≤ position + state.turn.direct * args.ltrsiz ∧
      position + state.turn.direct * args.ltrsiz + args.ltrsiz - 1 ≤ args.stopLba := by
  obtain ⟨up, down, steps⟩ := walking
  have walked := steps back
  have whole := u64_small (x := args.stopLba) (by omega) (by omega)
  cases rises : state.inc with
  | true =>
    obtain ⟨above, below⟩ := up rises
    have last := last_lba_eq position (by omega) large (by omega)
    simp only [rises, if_true, decide_eq_false_iff_not] at ends
    have direct : state.turn.direct = -1 := by simp [TestState.turn, TestState.direct, rises]
    have falls : state.turn.inc = false := by simp [TestState.turn, rises]
    -- the position is not the first one, as a transfer fits there
    have behind : args.ltrsiz ≤ position - firstLba args := Int.le_of_dvd (by omega) walked
    rw [direct, falls]
    refine ⟨⟨fun rises => (by cases rises), fun _ => ⟨by omega, by omega⟩, fun _ => ?_⟩, by omega,
      by omega⟩
    have back := Int.dvd_sub walked (Int.dvd_refl args.ltrsiz)
    rwa [show position - firstLba args - args.ltrsiz = position + -1 * args.ltrsiz - firstLba args by omega] at back
  | false =>
    obtain ⟨above, below⟩ := down rises
    simp only [rises, Bool.false_eq_true, if_false, decide_eq_false_iff_not] at ends
    have direct : state.turn.direct = 1 := by simp [TestState.turn, TestState.direct, rises]
    have climbs : state.turn.inc = true := by simp [TestState.turn, rises]
    -- the position is exactly one transfer below the first one
    have home : position + args.ltrsiz = firstLba args := by
      have walks_up := Int.dvd_neg.mpr walked
      have bound := Int.le_of_dvd (by omega) walks_up
      omega
    rw [direct, climbs, Int.one_mul, home]
    refine ⟨⟨fun _ => ⟨Int.le_refl _, by omega⟩, fun falls => (by cases falls), fun _ => ?_⟩, Int.le_refl _, room⟩
    rw [Int.sub_self]
    exact Int.dvd_zero _

theorem walks_unique {a b : Op} (back : args.flags.backForth = true) (first : Walks args env a)
    (second : Walks args env b) : a = b := by
  unfold Walks at first second
  split at first
  · rename_i turns
    rw [if_pos turns] at second
    simp only [back, Bool.true_eq_false, and_false, or_false] at first second
    rw [first, second]
  · rename_i alone
    rw [if_neg alone] at second
    rw [first, second]

theorem moved_steady {inc : Bool} {lba : Int} (steady : Steady args env)
    (performed : oper = .writer ∨ oper = .reader)
    (upward : args.flags.backForth = false → inc = true)
    (own : args.startBlk ≠ args.stopBlk → args.flags.linear = true → Walks args env oper →
      firstTime oper env.testState = false → Walking args inc lba)
    (others : inc = env.testState.inc ∨ args.flags.backForth = true ∧ Walks args env oper)
    (echo : args.flags.backForth = true → args.flags.takesTurns = true → oper = .reader → env.testState.rFst = true) :
    Steady args ({ env with testState := { env.testState with inc } }.moveTo oper lba) := by
  obtain ⟨rlba', wlba', moved⟩ : ∃ rlba wlba, { env with testState := { env.testState with inc } }.moveTo oper lba =
        { env with rlba, wlba, testState := { env.testState with inc } } := by
    unfold TestEnv.moveTo
    split <;> exact ⟨_, _, rfl⟩
  refine ⟨?_, ?_, ?_, ?_, ?_, ?_, ?_⟩
  · rw [moved]
    exact steady.last
  · rw [moved]
    exact steady.fixed
  · rw [moved]
    exact steady.began
  · rw [moved]
    exact steady.resting
  · rw [moved]
    exact upward
  · intro moves linear other walks later
    have goes : Walks args env other := by
      rw [moved] at walks
      exact walks
    have anew : firstTime other env.testState = false := by
      rw [moved] at later
      exact later
    have direction : ({ env with testState := { env.testState with inc } }.moveTo oper
        lba).testState.inc = inc := by rw [moved]
    rw [direction]
    by_cases self : other = oper
    · subst self
      rw [move_to_position]
      exact own moves linear goes anew
    · rw [move_to_elsewhere _ performed (walks_performed goes) self]
      rcases others with same | ⟨back, mine⟩
      · have walking := steady.walks moves linear other goes anew
        rw [← same] at walking
        exact walking
      · exact absurd (walks_unique back goes mine) self
  · intro moves linear back turns later again wrote
    have stays : env.testState.rFst = false := by
      rw [moved] at again
      exact again
    have read : oper ≠ .reader := by
      intro reads
      rw [echo back turns reads] at stays
      cases stays
    have writes : oper = .writer := performed.resolve_right read
    subst writes
    have follows := steady.echo moves linear back turns (by rw [moved] at later; exact later) stays
      (by rw [moved] at wrote; exact wrote)
    exact follows

theorem echo_inside (fits : Ranged args) (moves : args.startBlk ≠ args.stopBlk)
    (linear : args.flags.linear = true) (steady : Steady args env)
    (turns : args.flags.takesTurns = true) (back : args.flags.backForth = true)
    (reads : pickOper args env = .reader) (later : firstTime .reader env.testState = false) :
    firstLba args ≤ env.rlba ∧ env.rlba + args.ltrsiz - 1 ≤ args.stopLba := by
  obtain ⟨wrote, last⟩ := pick_reader_turns steady turns reads
  have again : env.testState.rFst = false := by simpa [firstTime] using later
  have some := steady.began turns wrote
  have size := steady.fixed (fits.fixed moves linear back) some
  obtain ⟨low, high⟩ := steady.last some
  rw [steady.echo moves linear back turns wrote again last, ← size]
  exact ⟨low, high⟩

theorem inside_goes_on (low : 0 ≤ firstLba args) (stop : args.stopLba < 9223372036854775808)
    (large : 1 ≤ size) (above : firstLba args ≤ env.position oper)
    (below : env.position oper + size - 1 ≤ args.stopLba) : goesOn args oper size env = true := by
  have whole := u64_small (x := args.stopLba) (by omega) (by omega)
  have last := last_lba_eq (env.position oper) (by omega) large (by omega)
  unfold goesOn
  split
  · rw [decide_eq_true_eq]
    omega
  · exact decide_eq_true above

theorem goes_on_inside (low : 0 ≤ firstLba args) (stop : args.stopLba < 9223372036854775808)
    (large : 1 ≤ size) (room : firstLba args + size - 1 ≤ args.stopLba)
    (sized : env.testState.inc = false → size = args.ltrsiz)
    (walking : Walking args env.testState.inc (env.position oper))
    (on : goesOn args oper size env = true) : firstLba args ≤ env.position oper ∧
      env.position oper + size - 1 ≤ args.stopLba := by
  have whole := u64_small (x := args.stopLba) (by omega) (by omega)
  unfold goesOn at on
  cases direction : env.testState.inc with
  | true =>
    obtain ⟨above, below⟩ := walking.up direction
    have last := last_lba_eq (env.position oper) (by omega) large (by omega)
    rw [direction, if_pos rfl, decide_eq_true_eq] at on
    omega
  | false =>
    obtain ⟨above, below⟩ := walking.down direction
    rw [direction, if_neg (by decide), decide_eq_true_eq] at on
    have same := sized direction
    omega

/-- Where a linear pass goes: to a place inside, if there is room, from which the walk goes on. -/
structure Goes (args : ChildArgs) (env : TestEnv) (oper : Op) (size : Nat) (env' : TestEnv) :
    Prop where
  steady : Steady args env'
  inside : 1 ≤ size → firstLba args + size - 1 ≤ args.stopLba →
    firstLba args ≤ env'.position oper ∧ env'.position oper + size - 1 ≤ args.stopLba
  steps : args.flags.backForth = true → Walks args env oper → (args.ltrsiz : Int) ∣ env'.position oper - firstLba args

theorem home_goes (fits : Ranged args) (steady : Steady args env)
    (performed : oper = .writer ∨ oper = .reader)
    (home : firstTime oper env.testState = true ∨ args.flags.backForth = false) :
    Goes args env oper size (env.moveTo oper (firstLba args)) := by
  refine ⟨moved_steady steady performed steady.upward ?_ (.inl rfl) ?_, ?_, ?_⟩
  · intro _ _ _ later
    have flat := home.resolve_left (by simp [later])
    refine walking_home fits fun falls => ?_
    rw [steady.upward flat] at falls
    cases falls
  · intro back turns reads
    rcases home with first | flat
    · rw [reads] at first
      simpa [firstTime] using first
    · rw [flat] at back
      cases back
  · intro _ room
    rw [move_to_position]
    exact ⟨Int.le_refl _, room⟩
  · intro _ _
    rw [move_to_position, Int.sub_self]
    exact Int.dvd_zero _

theorem on_goes (fits : Ranged args) (moves : args.startBlk ≠ args.stopBlk)
    (linear : args.flags.linear = true) (steady : Steady args env)
    (sized : args.flags.backForth = true → size = args.ltrsiz)
    (later : firstTime (pickOper args env) env.testState = false)
    (on : goesOn args (pickOper args env) size env = true) :
    Goes args env (pickOper args env) size env := by
  have low : 0 ≤ firstLba args := Int.add_nonneg fits.start fits.offset
  refine ⟨steady, ?_, ?_⟩
  · intro some room
    rcases pick_oper_walks steady linear with walks | ⟨turns, back, reads⟩
    · refine goes_on_inside low fits.counted.2 some room ?_
        (steady.walks moves linear _ walks later) on
      intro falls
      cases back : args.flags.backForth with
      | true => exact sized back
      | false =>
        rw [steady.upward back] at falls
        cases falls
    · rw [reads] at later
      rw [reads, sized back]
      exact echo_inside fits moves linear steady turns back reads later
  · intro back walks
    exact (steady.walks moves linear _ walks later).steps back

theorem turn_goes (fits : Ranged args) (moves : args.startBlk ≠ args.stopBlk)
    (linear : args.flags.linear = true) (large : 1 ≤ args.ltrsiz) (steady : Steady args env)
    (room : firstLba args + args.ltrsiz - 1 ≤ args.stopLba) (back : args.flags.backForth = true)
    (walks : Walks args env oper) (later : firstTime oper env.testState = false)
    (ends : goesOn args oper args.ltrsiz env = false) :
    Goes args env oper args.ltrsiz ({ env with testState := env.testState.turn }.moveTo oper
      (env.position oper + env.testState.turn.direct * args.ltrsiz)) := by
  rw [goesOn] at ends
  obtain ⟨walking, inside⟩ := walking_turn large (Int.add_nonneg fits.start fits.offset)
    fits.counted.2 room back (steady.walks moves linear _ walks later) ends
  refine ⟨moved_steady steady (walks_performed walks) (fun flat => ?_)
    (fun _ _ _ _ => walking) (.inr ⟨back, walks⟩) ?_, ?_, ?_⟩
  · rw [flat] at back
    cases back
  · intro _ turns reads
    rw [Walks, if_pos turns, reads] at walks
    simp [back] at walks
  · intro _ _
    rw [move_to_position]
    exact inside
  · intro _ _
    rw [move_to_position]
    exact walking.steps back

theorem linear_goes (size : Nat) (fits : Ranged args) (chosen : Chosen args.flags)
    (moves : args.startBlk ≠ args.stopBlk) (linear : args.flags.linear = true)
    (large : 1 ≤ args.ltrsiz) (steady : Steady args env)
    (sized : args.flags.backForth = true → size = args.ltrsiz ∧ firstLba args + args.ltrsiz - 1 ≤ args.stopLba) :
    Goes args env (pickOper args env) size (linearLba args (pickOper args env) size env).env := by
  have way := pick_oper_walks steady linear
  obtain ⟨-, moved⟩ := linear_cases chosen linear (pickOper args env) size env
  rcases moved with ⟨home, same⟩ | ⟨later, on, same⟩ | ⟨later, ends, back, same⟩
  · rw [same]
    refine home_goes fits steady ?_ home
    rcases way with walks | ⟨-, -, reads⟩
    · exact walks_performed walks
    · exact .inr reads
  · rw [same]
    exact on_goes fits moves linear steady (fun back => (sized back).1) later on
  · obtain ⟨rfl, room⟩ := sized back
    rcases way with walks | ⟨turns, _, reads⟩
    · rw [same]
      exact turn_goes fits moves linear large steady room back walks later ends
    · -- a read that follows a write never comes to an end
      rw [reads] at later ends
      obtain ⟨above, below⟩ := echo_inside fits moves linear steady turns back reads later
      have on : goesOn args .reader args.ltrsiz env = true :=
        inside_goes_on (Int.add_nonneg fits.start fits.offset) fits.counted.2 large above below
      rw [on] at ends
      cases ends

end linear
end VteDisktest
