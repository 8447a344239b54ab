import Vte.Disktest.Exclusion

/-!
The passes of linear_read_write_test where the transfers have one size and nothing but the volume
bounds them: each pass takes the positions from the first on, one after the other and each once,
whatever thread takes which.
-/
namespace VteDisktest
open CInt

/-- `-pL` or `-pLU`, `-r -w`, one transfer size, no offset, no range and no seek count. -/
structure LinearGiven (given : ChildArgs) : Prop where
  linear : given.flags.linear = true
  single : given.flags.ntrlvd = false
  ordered : given.flags.random = false
  upward : given.flags.lund = false
  writes : given.flags.w = true
  reads : given.flags.r = true
  fixed : given.flags.rtrsiz = false
  oneSize : given.htrsiz = given.ltrsiz
  offset : given.offset = 0
  noLbaRange : given.flags.lbaRng = false
  noBlkRange : given.flags.blkRng = false
  noSeeks : given.flags.sks = false
  startLba : given.startLba = 0
  startBlk : given.startBlk = 0
  stopLba : given.stopLba = -1
  stopBlk : given.stopBlk = -1

/-- What the passes go by; `n` is the number of transfers that fit. -/
structure Linear (args : ChildArgs) (n : Nat) : Prop where
  linear : args.flags.linear = true
  single : args.flags.ntrlvd = false
  ordered : args.flags.random = false
  lunu : args.flags.lunu = true
  upward : args.flags.lund = false
  writes : args.flags.w = true
  reads : args.flags.r = true
  fixed : args.flags.rtrsiz = false
  size : 1 ≤ args.ltrsiz
  first : firstLba args = 0
  start : args.startLba + args.offset = 0
  moves : args.startBlk ≠ args.stopBlk
  stop : args.stopLba = args.vsiz - 1
  fits : n * args.ltrsiz ≤ args.vsiz
  counted : args.vsiz < 9223372036854775808
  sks : args.flags.sks = true
  seeks : args.seeks = n * 2
  many : 1 ≤ n
  kids : 1 ≤ args.tKids

section assumed
variable {o : Outside} {given : ChildArgs}

def wholeVolume (given : ChildArgs) (size : Nat) (vsiz : Int) : ChildArgs :=
  { given with
    ltrsiz := size
    htrsiz := size
    vsiz
    stopLba := vsiz - 1
    stopBlk := (vsiz - 1).tdiv size }

theorem assume_whole_volume (mode : LinearGiven given) :
    ∃ size vsiz, 1 ≤ size ∧ 0 < vsiz ∧ assumeStopBlk (assumeStopLba
      (assumeVolume o (assumeLbas (assumeBlocks (assumeSize given))))) = wholeVolume given size vsiz := by
  refine ⟨max given.ltrsiz 1, assumedVsiz o
    { given with ltrsiz := max given.ltrsiz 1, htrsiz := max given.ltrsiz 1 }, by omega,
    assume_volume_positive _ o, ?_⟩
  rw [assume_size_eq given mode.oneSize]
  have blocks : ∀ size, assumeBlocks { given with ltrsiz := size, htrsiz := size } =
      { given with ltrsiz := size, htrsiz := size } := by
    simp [assumeBlocks, mode.noLbaRange]
  have lbas : ∀ size, assumeLbas { given with ltrsiz := size, htrsiz := size } =
      { given with ltrsiz := size, htrsiz := size } := by
    simp [assumeLbas, mode.noBlkRange]
  rw [blocks, lbas]
  have stopLba : (assumeVolume o { given with
      ltrsiz := max given.ltrsiz 1, htrsiz := max given.ltrsiz 1 }).stopLba = -1 := mode.stopLba
  have stopBlk : (assumeVolume o { given with
      ltrsiz := max given.ltrsiz 1, htrsiz := max given.ltrsiz 1 }).stopBlk = -1 := mode.stopBlk
  rw [assumeStopLba, if_pos stopLba, assumeStopBlk, if_pos stopBlk]
  rfl

theorem linear_assumed (mode : LinearGiven given) (untimed : given.flags.tmd = false) :
    ∃ size vsiz kids cptype rperc wperc seeks, 1 ≤ size ∧ 0 < vsiz ∧ 1 ≤ kids ∧
      makeAssumptions o given = { wholeVolume given size vsiz with
        tKids := kids, seeks, rperc, wperc,
        flags := { given.flags with cptype, sks := true, lunu := true } } ∧
      (given.startBlk ≠ (vsiz - 1).tdiv size → seeks = perSize vsiz size * 2) := by
  obtain ⟨size, vsiz, large, positive, whole⟩ := assume_whole_volume (o := o) mode
  obtain ⟨kids, some, withKids⟩ := assume_kids_positive (wholeVolume given size vsiz)
  obtain ⟨cptype, withPattern⟩ : ∃ cptype, assumeFlags { wholeVolume given size vsiz with tKids := kids } =
        { wholeVolume given size vsiz with
          tKids := kids, flags := { given.flags with cptype } } :=
    assume_flags_pattern _ (by simp [wholeVolume, mode.writes]) (by simp [wholeVolume, mode.linear])
  have withSeeks := assume_seeks_eq
    { wholeVolume given size vsiz with tKids := kids, flags := { given.flags with cptype } }
    mode.noSeeks untimed
  have upward := assume_direction_up
    { wholeVolume given size vsiz with
      tKids := kids, flags := { given.flags with cptype, sks := true },
      seeks := assumedSeeks
        { wholeVolume given size vsiz with tKids := kids, flags := { given.flags with cptype } } }
    mode.linear mode.upward
  obtain ⟨rperc, wperc, percs⟩ := normalize_percs_only
    { wholeVolume given size vsiz with
      tKids := kids, flags := { given.flags with cptype, sks := true, lunu := true },
      seeks := assumedSeeks
        { wholeVolume given size vsiz with tKids := kids, flags := { given.flags with cptype } } }
  refine ⟨size, vsiz, kids, cptype, rperc, wperc, assumedSeeks
    { wholeVolume given size vsiz with tKids := kids, flags := { given.flags with cptype } },
    large, positive, some, ?_, ?_⟩
  · rw [makeAssumptions, whole, withKids]
    dsimp only
    rw [withPattern, withSeeks, upward, percs]
    simp [assumeDuty, mode.ordered]
  · intro moves
    simp [assumedSeeks, wholeVolume, moves, positive, mode.linear, mode.reads, mode.writes,
      mode.noLbaRange, mode.noBlkRange]

theorem linear_accepted {args : ChildArgs} (accepted : Accepted o given args)
    (mode : LinearGiven given) (two : 2 * (args.htrsiz : Int) ≤ args.vsiz)
    (counted : args.vsiz < 9223372036854775808) :
    Linear args (args.vsiz / args.htrsiz).toNat := by
  have untimed := not_refused accepted (args.flags.linear && !args.flags.ntrlvd && args.flags.tmd)
    (by simp [refusals])
  have same := make_assumptions_kind given o
  rw [accepted.1] at same
  simp only [Flags.kind, List.cons.injEq] at same
  rw [same.1, same.2.1, same.2.2.1, mode.linear, mode.single] at untimed
  simp only [Bool.not_false, Bool.true_and] at untimed
  obtain ⟨size, vsiz, kids, cptype, rperc, wperc, seeks, large, positive, some, assumed, all⟩ :=
    linear_assumed (o := o) mode untimed
  rw [accepted.1] at assumed
  subst assumed
  have two : 2 * (size : Int) ≤ vsiz := two
  have counted : vsiz < 9223372036854775808 := counted
  have whole : 0 ≤ vsiz / (size : Int) := Int.ediv_nonneg (by omega) (by omega)
  have count : (((vsiz / (size : Int)).toNat : Nat) : Int) = vsiz / (size : Int) :=
    Int.toNat_of_nonneg whole
  have atLeast : 2 ≤ vsiz / (size : Int) := (Int.le_ediv_iff_mul_le (by omega)).mpr two
  have last : 1 ≤ (vsiz - 1).tdiv size := by
    rw [Int.tdiv_eq_ediv_of_nonneg (by omega)]
    exact (Int.le_ediv_iff_mul_le (by omega)).mpr (by omega)
  have moves : given.startBlk ≠ (vsiz - 1).tdiv size := by
    rw [mode.startBlk]
    omega
  have perSeek : perSize vsiz size = vsiz / (size : Int) := by
    rw [perSize, Int.natCast_ediv, u64_small (by omega) (by omega)]
  constructor
  · exact mode.linear
  · exact mode.single
  · exact mode.ordered
  · rfl
  · exact mode.upward
  · exact mode.writes
  · exact mode.reads
  · exact mode.fixed
  · exact large
  · show given.startLba + given.offset = 0
    rw [mode.startLba, mode.offset]
    rfl
  · show given.startLba + given.offset = 0
    rw [mode.startLba, mode.offset]
    rfl
  · exact moves
  · rfl
  · show ((vsiz / (size : Int)).toNat : Int) * size ≤ vsiz
    rw [count]
    exact Int.ediv_mul_le vsiz (by omega)
  · exact counted
  · rfl
  · show seeks = ((vsiz / (size : Int)).toNat : Int) * 2
    rw [all moves, perSeek, count]
  · show 1 ≤ (vsiz / (size : Int)).toNat
    omega
  · exact some

end assumed

/-- A pass with the threads that still run, the actions handed out and those completed. -/
structure PassState where
  env : TestEnv
  flying : List Action
  live : Nat
  log : List Action
  done : List Action

inductive PassAct where
  | next (draws : Draws)
  | complete (target : Action)

def hand (result : TestEnv × Action) (s : PassState) : PassState :=
  match result.2.oper with
  | .none => { s with env := result.1, live := s.live - 1 }
  | .retry => { s with env := result.1 }
  | _ => { s with env := result.1, flying := result.2 :: s.flying, log := s.log ++ [result.2] }

def passStep (args : ChildArgs) (mask : Nat) : PassAct → PassState → Option PassState
  | .next draws, s =>
    if s.flying.length < s.live then (getNextAction args mask draws s.env).map (hand · s) else none
  | .complete target, s =>
    if target ∈ s.flying then
      (completeIo args target s.env).map fun env =>
        { s with env, flying := s.flying.erase target, done := target :: s.done }
    else none

def passStart (args : ChildArgs) (env : TestEnv) : PassState where
  env := env
  flying := []
  live := args.tKids
  log := []
  done := []

def transfer (args : ChildArgs) (oper : Op) (i : Nat) : Action where
  oper := oper
  trsiz := args.ltrsiz
  lba := i * args.ltrsiz

def plan (args : ChildArgs) (oper : Op) (k : Nat) : List Action :=
  (List.range k).map (transfer args oper)

/-- The position of transfer `k`; the first time it is the first LBA. -/
def AtTransfer (args : ChildArgs) (oper : Op) (k : Nat) (env : TestEnv) : Prop :=
  if firstTime oper env.testState then k = 0 else env.position oper = k * args.ltrsiz

def proposal (args : ChildArgs) (oper : Op) (k : Nat) (env : TestEnv) : Proposal where
  env := env.moveTo oper (k * args.ltrsiz)
  target := transfer args oper k
  direct := 1

def TestEnv.count (env : TestEnv) (oper : Op) : Int :=
  if oper = .writer then env.wcount else env.rcount

theorem next_transfer (size i : Nat) : ((i + 1 : Nat) : Int) * size = i * size + size := by
  rw [Int.natCast_add, Int.add_mul]
  omega

theorem move_to_here (env : TestEnv) (oper : Op) : env.moveTo oper (env.position oper) = env := by
  unfold TestEnv.position TestEnv.moveTo
  split <;> rfl

section proposal
variable {args : ChildArgs} {n : Nat} (lin : Linear args n) {env : TestEnv} {oper : Op}
include lin

theorem transfer_fits {i : Nat} (inside : i < n) :
    (i : Int) * args.ltrsiz + args.ltrsiz ≤ args.vsiz := by
  have fits := lin.fits
  have next : ((i + 1 : Nat) : Int) * args.ltrsiz ≤ n * args.ltrsiz :=
    Int.mul_le_mul_of_nonneg_right (by omega) (by omega)
  rw [next_transfer] at next
  omega

theorem propose_linear (current : env.testState.oper = oper) (mask : Nat) (draws : Draws) :
    propose args mask draws env = some (linearLba args oper args.ltrsiz env) := by
  have picked : pickOper args env = oper := by
    simp [pickOper, lin.linear, lin.single, current]
  have sized : pickSize args oper draws.sizes env = some args.ltrsiz := by
    simp [pickSize, lin.fixed]
  rw [propose, picked, sized, Option.bind_some, pickLba, if_neg lin.moves, if_pos lin.linear]

theorem linear_next {k : Nat} (up : env.testState.inc = true) (left : k < n)
    (place : AtTransfer args oper k env) :
    linearLba args oper args.ltrsiz env = proposal args oper k env := by
  have fits := transfer_fits lin left
  have positive : 0 ≤ (k : Int) * args.ltrsiz := Int.mul_nonneg (by omega) (by omega)
  have size := lin.size
  have counted := lin.counted
  have state := (move_to_keeps env oper (firstLba args)).2
  unfold AtTransfer at place
  by_cases first : firstTime oper env.testState = true
  · rw [if_pos first] at place
    have zero : (k : Int) * args.ltrsiz = 0 := by
      rw [place]
      exact Int.zero_mul _
    rw [linearLba, if_pos first, placedAt, move_to_position, state, TestState.direct, if_pos up,
      lin.first, proposal, transfer, zero]
  · rw [if_neg first] at place
    have on : goesOn args oper args.ltrsiz env = true := by
      have last := u64_small (x := (k : Int) * args.ltrsiz + (args.ltrsiz - 1)) (by omega) (by omega)
      have stop := u64_small (x := args.stopLba) (by rw [lin.stop]; omega) (by rw [lin.stop]; omega)
      rw [lin.stop] at stop
      rw [goesOn, if_pos up, place, lastLba, lin.stop, decide_eq_true_eq]
      omega
    rw [linearLba, if_neg first, if_pos on, placedAt, TestState.direct, if_pos up, proposal,
      transfer, ← place, move_to_here]

omit lin in
theorem transfer_before (args : ChildArgs) {i k : Nat} (before : i < k) :
    (i : Int) * args.ltrsiz + args.ltrsiz ≤ k * args.ltrsiz := by
  have next : ((i + 1 : Nat) : Int) * args.ltrsiz ≤ k * args.ltrsiz :=
    Int.mul_le_mul_of_nonneg_right (by omega) (by omega)
  rwa [next_transfer] at next

theorem later_free {entries : List Action} {k : Nat}
    (earlier : ∀ e ∈ entries, ∃ i < k, e = transfer args oper i) :
    actionInUse (transfer args oper k) entries = false := by
  have size := lin.size
  rw [in_use_find]
  have none : entries.find? (hits (transfer args oper k)) = none := by
    apply List.find?_eq_none.mpr
    intro e member
    obtain ⟨i, before, rfl⟩ := earlier e member
    have apart := transfer_before args before
    have other : ((k : Int) * args.ltrsiz == i * args.ltrsiz) = false := by
      rw [beq_eq_false_iff_ne]
      omega
    have behind : ¬ (k : Int) * args.ltrsiz < i * args.ltrsiz := by omega
    simp [hits, transfer, other, behind]
  rw [none]

theorem half_seeks : args.seeks.tdiv 2 = n := by
  rw [lin.seeks, Int.mul_tdiv_cancel _ (by omega)]

theorem half_done_iff (oper : Op) (env : TestEnv) :
    halfDone args oper env = decide ((n : Int) ≤ env.count oper) := by
  simp only [halfDone, lin.single, lin.ordered, lin.writes, lin.reads, half_seeks lin, Bool.not_false,
    Bool.and_self, Bool.true_and]
  rfl

theorem used_up_iff (env : TestEnv) :
    usedUp args env = decide ((n : Int) * 2 ≤ env.wcount + env.rcount) := by
  simp [usedUp, lin.sks, lin.seeks]

def AllWritten (args : ChildArgs) (n : Nat) (env : TestEnv) : Prop :=
  ∀ lba : Int, 0 ≤ lba → lba < n * args.ltrsiz → env.wbitmap lba = true

theorem transfer_written {k : Nat} (left : k < n) (all : AllWritten args n env) :
    blkWritten args env (transfer args oper k) = true := by
  have fits := transfer_before args left
  have within := lin.fits
  have counted := lin.counted
  have positive : 0 ≤ (k : Int) * args.ltrsiz := Int.mul_nonneg (by omega) (by omega)
  have start := lin.start
  rw [blkWritten, Bool.or_eq_true, List.all_eq_true]
  right
  intro i inside
  rw [List.mem_range] at inside
  have place : bitIndex args (transfer args oper k) i = k * args.ltrsiz + i := by
    simp only [bitIndex, transfer]
    omega
  have inside : (i : Int) < args.ltrsiz := by
    have := inside
    simp only [transfer] at this
    omega
  rw [place, u64_small (by omega) (by omega)]
  exact all _ (by omega) (by omega)

theorem settle_next {written : Bool} (which : oper = .writer ∨ oper = .reader ∧ written = true) :
    args.flags.settle oper written = .keep := by
  rcases which with rfl | ⟨rfl, rfl⟩
  · unfold Flags.settle
    rw [lin.writes, lin.linear]
    cases args.flags.writeOnce <;> cases written <;> rfl
  · unfold Flags.settle
    rw [lin.writes]
    rfl

/-- The environment after transfer `k` is handed out. -/
structure Handed (args : ChildArgs) (oper : Op) (k : Nat) (env env' : TestEnv) : Prop where
  current : env'.testState.oper = env.testState.oper
  up : env'.testState.inc = env.testState.inc
  counts : env'.count oper = env.count oper + 1
  others : env'.wcount + env'.rcount = env.wcount + env.rcount + 1
  place : AtTransfer args oper (k + 1) env'
  bitmap : env'.wbitmap = env.wbitmap
  list : env'.actionList =
    if args.flags.lbaSync then env.actionList ++ [transfer args oper k] else env.actionList

omit lin in
theorem listed_room {target : Action} {env : TestEnv}
    (room : args.flags.lbaSync = true → env.actionList.length ≠ args.tKids) :
    listed args target env = some { env with
      actionList := if args.flags.lbaSync then env.actionList ++ [target] else env.actionList } := by
  unfold listed
  cases sync : args.flags.lbaSync with
  | true => simp [addAction, room sync]
  | false => rfl

omit lin in
theorem record_next (k : Nat) (which : oper = .writer ∨ oper = .reader)
    (room : args.flags.lbaSync = true → env.actionList.length ≠ args.tKids) :
    ∃ env', record args (proposal args oper k env) = some env' ∧ Handed args oper k env env' := by
  have next := next_transfer args.ltrsiz k
  rcases which with rfl | rfl
  · refine ⟨_, listed_room room, ?_⟩
    constructor
    · rfl
    · rfl
    · rfl
    · show env.wcount + 1 + env.rcount = _
      omega
    · show (k : Int) * args.ltrsiz + 1 * (args.ltrsiz : Int) = _
      omega
    · rfl
    · rfl
  · refine ⟨_, listed_room room, ?_⟩
    constructor
    · rfl
    · rfl
    · rfl
    · show env.wcount + (env.rcount + 1) = _
      omega
    · show (k : Int) * args.ltrsiz + 1 * (args.ltrsiz : Int) = _
      omega
    · rfl
    · rfl

theorem next_handed {k : Nat} (which : oper = .writer ∨ oper = .reader ∧ AllWritten args n env)
    (current : env.testState.oper = oper) (up : env.testState.inc = true) (left : k < n)
    (place : AtTransfer args oper k env) (counts : env.count oper = k)
    (others : env.wcount + env.rcount = k)
    (earlier : ∀ e ∈ env.actionList, ∃ i < k, e = transfer args oper i)
    (room : args.flags.lbaSync = true → env.actionList.length ≠ args.tKids) (mask : Nat)
    (draws : Draws) :
    ∃ env', getNextAction args mask draws env = some (env', transfer args oper k) ∧ Handed args oper k env env' := by
  have proposed := propose_linear lin current mask draws
  rw [linear_next lin up left place] at proposed
  obtain ⟨list, state⟩ := move_to_keeps env oper (k * args.ltrsiz)
  have free := later_free lin earlier
  have counts' : (env.moveTo oper (k * args.ltrsiz)).count oper = k ∧
      (env.moveTo oper (k * args.ltrsiz)).wcount + (env.moveTo oper (k * args.ltrsiz)).rcount = k := by
    unfold TestEnv.moveTo
    split <;> exact ⟨counts, others⟩
  have bitmap : (env.moveTo oper (k * args.ltrsiz)).wbitmap = env.wbitmap := by
    unfold TestEnv.moveTo
    split <;> rfl
  have kept : checkedOper args (proposal args oper k env).env (proposal args oper k env).target = oper := by
    have more : ¬ (n : Int) ≤ k := by omega
    have some : ¬ (n : Int) * 2 ≤ k := by omega
    have busy : actionInUse (proposal args oper k env).target
        (proposal args oper k env).env.actionList = false := by
      rw [proposal, list, free]
    have half : ¬ (n : Int) ≤ (proposal args oper k env).env.count (proposal args oper k env).target.oper := by
      change ¬ (n : Int) ≤ (env.moveTo oper (k * args.ltrsiz)).count oper
      rw [counts'.1]
      exact more
    have all : ¬ (n : Int) * 2 ≤ (proposal args oper k env).env.wcount + (proposal args oper k env).env.rcount := by
      rw [proposal, counts'.2]
      exact some
    rw [checkedOper, busy, Bool.and_false, half_done_iff lin, used_up_iff lin,
      if_neg Bool.false_ne_true, decide_eq_false all, decide_eq_false half]
    rfl
  have written : oper = .writer ∨ oper = .reader ∧
      blkWritten args (env.moveTo oper (k * args.ltrsiz)) (transfer args oper k) = true := by
    rcases which with writer | ⟨reader, all⟩
    · exact Or.inl writer
    · refine Or.inr ⟨reader, transfer_written lin left ?_⟩
      rw [AllWritten, bitmap]
      exact all
  have same : (proposal args oper k env).checked args = proposal args oper k env := by
    have settle : args.flags.settle (proposal args oper k env).target.oper
        (blkWritten args (proposal args oper k env).env (proposal args oper k env).target) = .keep :=
      settle_next lin written
    have self : (proposal args oper k env).setOper oper = proposal args oper k env := rfl
    rw [Proposal.checked, kept, self, settled, settle]
  have oper' : oper = .writer ∨ oper = .reader := by
    rcases which with writer | ⟨reader, _⟩
    · exact Or.inl writer
    · exact Or.inr reader
  obtain ⟨env', recorded, handed⟩ := record_next k oper' room
  refine ⟨env', ?_, handed⟩
  rw [getNextAction, proposed, Option.bind_some, same, recorded]
  rfl

theorem linear_lba_moves (oper : Op) (trsiz : Nat) (env : TestEnv) :
    ∃ lba, (linearLba args oper trsiz env).env = env.moveTo oper lba := by
  unfold linearLba
  rw [lin.lunu, lin.upward]
  split
  · exact ⟨_, rfl⟩
  · split
    · exact ⟨env.position oper, (move_to_here env oper).symm⟩
    · rw [if_pos rfl, wrapAround]
      split <;> exact ⟨_, rfl⟩

theorem next_ends (current : env.testState.oper = oper) (counts : env.count oper = n) (mask : Nat)
    (draws : Draws) :
    ∃ lba target, getNextAction args mask draws env = some (env.moveTo oper lba, target) ∧
      (target.oper = .none ∨ target.oper = .retry ∧ env.actionList ≠ []) := by
  have proposed := propose_linear lin current mask draws
  obtain ⟨lba, moved⟩ := linear_lba_moves lin oper args.ltrsiz env
  obtain ⟨list, _, _, which⟩ := linear_lba_keeps args oper args.ltrsiz env
  obtain ⟨p, same⟩ : ∃ p, p = linearLba args oper args.ltrsiz env := ⟨_, rfl⟩
  rw [← same] at proposed moved list which
  have counts' : p.env.count oper = n := by
    rw [moved]
    unfold TestEnv.moveTo
    split <;> exact counts
  have idle : checkedOper args p.env p.target = .none ∨
      checkedOper args p.env p.target = .retry ∧ env.actionList ≠ [] := by
    unfold checkedOper
    cases busy : args.flags.lbaSync && actionInUse p.target p.env.actionList with
    | true =>
      rw [if_pos rfl]
      dsimp only
      split
      · exact Or.inl rfl
      · refine Or.inr ⟨rfl, ?_⟩
        intro empty
        rw [list, empty] at busy
        simp [actionInUse] at busy
    | false =>
      left
      rw [if_neg Bool.false_ne_true]
      dsimp only
      rcases which with same | none
      · rw [same, half_done_iff lin, counts', decide_eq_true (Int.le_refl _)]
        rfl
      · rw [none]
        split <;> rfl
  have none : ∀ written, args.flags.settle (checkedOper args p.env p.target) written = .keep := by
    intro written
    apply settle_idle
    rcases idle with none | ⟨retry, _⟩
    · exact Or.inl none
    · exact Or.inr retry
  have checked : p.checked args = p.setOper (checkedOper args p.env p.target) := by
    rw [Proposal.checked, settled]
    simp only [Proposal.setOper, Action.setOper, none]
  have recorded : record args (p.checked args) = some (env.moveTo oper lba) := by
    rw [checked, ← moved, record]
    simp only [Proposal.setOper, Action.setOper]
    rcases idle with none | ⟨retry, _⟩
    · rw [none]
    · rw [retry]
  refine ⟨lba, (p.checked args).target, ?_, ?_⟩
  · rw [getNextAction, proposed, Option.bind_some, recorded]
    rfl
  · rw [checked]
    exact idle

end proposal

section invariant
variable {args : ChildArgs} {n : Nat} {oper : Op} (mask : Nat)

structure PassInv (args : ChildArgs) (n : Nat) (oper : Op) (s : PassState) : Prop where
  current : s.env.testState.oper = oper
  up : s.env.testState.inc = true
  counts : s.env.count oper = s.log.length
  others : s.env.wcount + s.env.rcount = s.log.length
  within : s.log.length ≤ n
  place : s.log.length < n → AtTransfer args oper s.log.length s.env
  planned : s.log = plan args oper s.log.length
  listed : args.flags.lbaSync = true → s.env.actionList.Perm s.flying
  unlisted : args.flags.lbaSync = false → s.env.actionList = []
  split : (s.done ++ s.flying).Perm s.log
  room : s.flying.length ≤ s.live
  kids : s.live ≤ args.tKids
  ended : s.live < args.tKids → s.log.length = n
  marks : ∀ a ∈ s.done, a.oper = .writer → ∀ lba, a.covers lba → s.env.wbitmap lba = true
  readable : oper = .writer ∨ oper = .reader ∧ AllWritten args n s.env

theorem planned_member {k : Nat} {a : Action} :
    a ∈ plan args oper k ↔ ∃ i < k, a = transfer args oper i := by
  simp only [plan, List.mem_map, List.mem_range]
  constructor
  · intro ⟨i, inside, same⟩
    exact ⟨i, inside, same.symm⟩
  · intro ⟨i, inside, same⟩
    exact ⟨i, inside, same.symm⟩

theorem flying_planned {s : PassState} (inv : PassInv args n oper s) {a : Action}
    (member : a ∈ s.flying) : ∃ i < s.log.length, a = transfer args oper i := by
  have logged := inv.split.subset (List.mem_append_right _ member)
  rw [inv.planned] at logged
  exact planned_member.mp logged

theorem listed_planned {s : PassState} (inv : PassInv args n oper s) {a : Action}
    (member : a ∈ s.env.actionList) : ∃ i < s.log.length, a = transfer args oper i := by
  cases sync : args.flags.lbaSync with
  | true => exact flying_planned inv ((inv.listed sync).subset member)
  | false =>
    rw [inv.unlisted sync] at member
    cases member

theorem plan_next (k : Nat) : plan args oper (k + 1) = plan args oper k ++ [transfer args oper k] := by
  rw [plan, List.range_succ, List.map_append]
  rfl

theorem handed_inv {s : PassState} {env' : TestEnv} (inv : PassInv args n oper s)
    (free : s.flying.length < s.live) (left : s.log.length < n)
    (handed : Handed args oper s.log.length s.env env') :
    PassInv args n oper { s with
      env := env', flying := transfer args oper s.log.length :: s.flying,
      log := s.log ++ [transfer args oper s.log.length] } := by
  have length : (s.log ++ [transfer args oper s.log.length]).length = s.log.length + 1 := by simp
  constructor
  · rw [handed.current]
    exact inv.current
  · rw [handed.up]
    exact inv.up
  · rw [handed.counts, inv.counts, length]
    rfl
  · rw [handed.others, inv.others, length]
    rfl
  · rw [length]
    exact left
  · intro _
    rw [length]
    exact handed.place
  · rw [length, plan_next, ← inv.planned]
  · intro sync
    rw [handed.list, if_pos sync]
    exact (List.perm_append_singleton _ _).trans ((inv.listed sync).cons _)
  · intro none
    rw [handed.list, none]
    exact inv.unlisted none
  · have moved : (s.done ++ transfer args oper s.log.length :: s.flying).Perm
        (transfer args oper s.log.length :: (s.done ++ s.flying)) := List.perm_middle
    exact moved.trans ((inv.split.cons _).trans (List.perm_append_singleton _ _).symm)
  · exact free
  · exact inv.kids
  · intro some
    have spent := inv.ended some
    omega
  · rw [handed.bitmap]
    exact inv.marks
  · rw [AllWritten, handed.bitmap]
    exact inv.readable

theorem moved_inv {s : PassState} {lba : Int} {live : Nat} (inv : PassInv args n oper s)
    (spent : s.log.length = n) (room : s.flying.length ≤ live) (fewer : live ≤ s.live) :
    PassInv args n oper { s with env := s.env.moveTo oper lba, live } := by
  have same : ∀ env : TestEnv, (env.moveTo oper lba).count oper = env.count oper ∧
      (env.moveTo oper lba).wcount + (env.moveTo oper lba).rcount = env.wcount + env.rcount ∧
      (env.moveTo oper lba).wbitmap = env.wbitmap := by
    intro env
    unfold TestEnv.moveTo
    split <;> exact ⟨rfl, rfl, rfl⟩
  obtain ⟨counts, others, bitmap⟩ := same s.env
  obtain ⟨list, state⟩ := move_to_keeps s.env oper lba
  constructor
  · rw [state]
    exact inv.current
  · rw [state]
    exact inv.up
  · rw [counts]
    exact inv.counts
  · rw [others]
    exact inv.others
  · exact inv.within
  · intro left
    exact absurd spent (Nat.ne_of_lt left)
  · exact inv.planned
  · rw [list]
    exact inv.listed
  · rw [list]
    exact inv.unlisted
  · exact inv.split
  · exact room
  · exact Nat.le_trans fewer inv.kids
  · intro _
    exact spent
  · rw [bitmap]
    exact inv.marks
  · rw [AllWritten, bitmap]
    exact inv.readable

theorem next_pass_inv (lin : Linear args n) {s : PassState} (inv : PassInv args n oper s)
    (free : s.flying.length < s.live) (draws : Draws) :
    ∃ result, getNextAction args mask draws s.env = some result ∧ PassInv args n oper (hand result s) ∧
      (result.2.oper = .retry → s.flying ≠ [] ∧ s.log.length = n) := by
  have which : oper = .writer ∨ oper = .reader := by
    rcases inv.readable with writer | ⟨reader, _⟩
    · exact Or.inl writer
    · exact Or.inr reader
  by_cases left : s.log.length < n
  · have room : args.flags.lbaSync = true → s.env.actionList.length ≠ args.tKids := by
      intro sync
      have length := (inv.listed sync).length_eq
      have kids := inv.kids
      omega
    obtain ⟨env', got, handed⟩ := next_handed lin inv.readable inv.current inv.up left
      (inv.place left) inv.counts inv.others (fun e member => listed_planned inv member) room mask
      draws
    refine ⟨_, got, ?_, ?_⟩
    · have after := handed_inv inv free left handed
      rcases which with rfl | rfl
      · exact after
      · exact after
    · intro retry
      rcases which with rfl | rfl <;> cases retry
  · have spent : s.log.length = n := Nat.le_antisymm inv.within (by omega)
    have counts := inv.counts
    rw [spent] at counts
    obtain ⟨lba, target, got, idle⟩ := next_ends lin inv.current counts mask draws
    refine ⟨_, got, ?_, ?_⟩
    · unfold hand
      rcases idle with none | ⟨retry, _⟩
      · rw [none]
        exact moved_inv inv spent (by omega) (by omega)
      · rw [retry]
        exact moved_inv inv spent inv.room (Nat.le_refl _)
    · intro retry
      rcases idle with none | ⟨_, some⟩
      · rw [none] at retry
        cases retry
      · refine ⟨?_, spent⟩
        intro empty
        cases sync : args.flags.lbaSync with
        | true =>
          have list := inv.listed sync
          rw [empty] at list
          exact some list.eq_nil
        | false => exact some (inv.unlisted sync)

theorem mark_written_covers (lin : Linear args n) {target : Action} {env : TestEnv} {lba : Int}
    (known : env.wbitmap lba = true ∨ target.covers lba) :
    (markWritten args target env).wbitmap lba = true := by
  have start := lin.start
  unfold markWritten
  dsimp only
  rw [Bool.or_eq_true]
  rcases known with known | ⟨low, high⟩
  · exact Or.inl known
  · right
    rw [Bool.and_eq_true, decide_eq_true_eq, decide_eq_true_eq]
    unfold bitIndex
    constructor <;> omega

theorem remove_transfer (lin : Linear args n) {s : PassState} (inv : PassInv args n oper s)
    {target : Action} (member : target ∈ s.flying) (env : TestEnv)
    (same : env.actionList = s.env.actionList) :
    ∃ list, unlisted args target env = some { env with actionList := list } ∧
      (args.flags.lbaSync = true → list.Perm (s.flying.erase target)) ∧
      (args.flags.lbaSync = false → list = []) := by
  cases sync : args.flags.lbaSync with
  | false =>
    refine ⟨env.actionList, by simp [unlisted, sync], by simp, ?_⟩
    intro _
    rw [same]
    exact inv.unlisted sync
  | true =>
    have there := (inv.listed sync).symm.subset member
    have found : env.actionList.any (·.lba == target.lba) = true := by
      rw [same]
      exact List.any_eq_true.mpr ⟨target, there, beq_self_eq_true _⟩
    refine ⟨env.actionList.eraseP (·.lba == target.lba), by simp [unlisted, removeAction, sync, found], ?_, by simp⟩
    intro _
    rw [same]
    obtain ⟨e, before, after, _, start, split, erased⟩ :=
      List.exists_of_eraseP (p := fun a => a.lba == target.lba) there (by simp)
    rw [beq_iff_eq] at start
    have inside : e ∈ s.env.actionList := by
      rw [split]
      simp
    obtain ⟨i, _, rfl⟩ := listed_planned inv inside
    obtain ⟨j, _, rfl⟩ := flying_planned inv member
    have place : transfer args oper i = transfer args oper j := by
      have size := lin.size
      have equal : (i : Int) * args.ltrsiz = j * args.ltrsiz := start
      have index : (i : Int) = j := Int.eq_of_mul_eq_mul_right (by omega) equal
      rw [Int.natCast_inj.mp index]
    have list := inv.listed sync
    rw [split, place] at list
    rw [erased]
    have middle := (List.perm_middle.symm.trans list).trans (List.perm_cons_erase member)
    exact middle.cons_inv

theorem complete_inv (lin : Linear args n) {s : PassState} (inv : PassInv args n oper s)
    {target : Action} (member : target ∈ s.flying) :
    ∃ t, passStep args mask (.complete target) s = some t ∧ PassInv args n oper t ∧
      t.log = s.log ∧ t.live = s.live ∧ t.flying = s.flying.erase target := by
  obtain ⟨env, marked⟩ : ∃ env, env = if target.oper = .writer then markWritten args target s.env else s.env := ⟨_, rfl⟩
  have keeps : env.actionList = s.env.actionList ∧ env.testState = s.env.testState ∧
      env.count oper = s.env.count oper ∧ env.wcount + env.rcount = s.env.wcount + s.env.rcount ∧
      env.position oper = s.env.position oper := by
    rw [marked]
    split <;> exact ⟨rfl, rfl, rfl, rfl, rfl⟩
  have bits : ∀ lba, s.env.wbitmap lba = true ∨ target.oper = .writer ∧ target.covers lba → env.wbitmap lba = true := by
    intro lba known
    rw [marked]
    split
    · rename_i writer
      apply mark_written_covers lin
      rcases known with known | ⟨_, covered⟩
      · exact Or.inl known
      · exact Or.inr covered
    · rename_i other
      rcases known with known | ⟨writer, _⟩
      · exact known
      · exact absurd writer other
  obtain ⟨sameList, state, counts, others, position⟩ := keeps
  obtain ⟨list, removed, listed, none⟩ := remove_transfer lin inv member env sameList
  have taken : passStep args mask (.complete target) s = some { s with
      env := { env with actionList := list }, flying := s.flying.erase target,
      done := target :: s.done } := by
    rw [passStep, if_pos member, completeIo, ← marked, removed]
    rfl
  refine ⟨_, taken, ?_, rfl, rfl, rfl⟩
  constructor
  · exact (congrArg TestState.oper state).trans inv.current
  · exact (congrArg TestState.inc state).trans inv.up
  · exact counts.trans inv.counts
  · exact others.trans inv.others
  · exact inv.within
  · intro left
    have place := inv.place left
    unfold AtTransfer at place ⊢
    rw [← state, ← position] at place
    exact place
  · exact inv.planned
  · exact listed
  · exact none
  · have moved : (target :: s.done ++ s.flying.erase target).Perm
        (s.done ++ target :: s.flying.erase target) := List.perm_middle.symm
    have back : (s.done ++ target :: s.flying.erase target).Perm (s.done ++ s.flying) :=
      (List.perm_cons_erase member).symm.append_left _
    exact moved.trans (back.trans inv.split)
  · exact Nat.le_trans (List.length_erase_le) inv.room
  · exact inv.kids
  · exact inv.ended
  · intro a inside writer lba covered
    rcases List.mem_cons.mp inside with rfl | inside
    · exact bits lba (Or.inr ⟨writer, covered⟩)
    · exact bits lba (Or.inl (inv.marks a inside writer lba covered))
  · rcases inv.readable with writer | ⟨reader, all⟩
    · exact Or.inl writer
    · refine Or.inr ⟨reader, ?_⟩
      intro lba low high
      exact bits lba (Or.inl (all lba low high))

theorem pass_step_inv (lin : Linear args n) (act : PassAct) (s t : PassState)
    (inv : PassInv args n oper s) (taken : passStep args mask act s = some t) :
    PassInv args n oper t := by
  cases act with
  | next draws =>
    rw [passStep] at taken
    split at taken
    · rename_i free
      obtain ⟨result, got, after, _⟩ := next_pass_inv mask lin inv free draws
      rw [got, Option.map_some] at taken
      rwa [← Option.some.inj taken]
    · cases taken
  | complete target =>
    by_cases member : target ∈ s.flying
    · obtain ⟨t', taken', after, _⟩ := complete_inv mask lin inv member
      rw [taken'] at taken
      rwa [← Option.some.inj taken]
    · rw [passStep, if_neg member] at taken
      cases taken

def PassState.rank (n : Nat) (s : PassState) : Nat :=
  2 * (n - s.log.length) + s.flying.length + s.live

theorem pass_progress (lin : Linear args n) {s : PassState} (inv : PassInv args n oper s)
    (running : s.live ≠ 0) :
    ∃ act t, passStep args mask act s = some t ∧ t.rank n < s.rank n := by
  cases flies : s.flying with
  | cons target flying =>
    have member : target ∈ s.flying := by simp [flies]
    obtain ⟨t, taken, _, log, live, rest⟩ := complete_inv mask lin inv member
    refine ⟨_, t, taken, ?_⟩
    have fewer := List.length_erase_of_mem member
    have some : 0 < s.flying.length := by simp [flies]
    rw [PassState.rank, PassState.rank, log, live, rest, fewer]
    omega
  | nil =>
    have free : s.flying.length < s.live := by
      rw [flies]
      exact Nat.pos_of_ne_zero running
    obtain ⟨result, got, after, again⟩ := next_pass_inv mask lin inv free ⟨[], []⟩
    refine ⟨.next ⟨[], []⟩, hand result s, by rw [passStep, if_pos free, got]; rfl, ?_⟩
    have within := after.within
    unfold hand at within ⊢
    unfold PassState.rank
    cases which : result.2.oper with
    | none =>
      simp only
      omega
    | retry => exact absurd flies (again which).1
    | writer =>
      simp only [which, List.length_append, List.length_cons, List.length_nil] at within ⊢
      omega
    | reader =>
      simp only [which, List.length_append, List.length_cons, List.length_nil] at within ⊢
      omega

theorem pass_can_end (lin : Linear args n) (bound : Nat) :
    ∀ s : PassState, PassInv args n oper s → s.rank n ≤ bound →
      ∃ acts t, Machine.run (passStep args mask) acts s = some t ∧ t.live = 0 := by
  induction bound with
  | zero =>
    intro s inv small
    refine ⟨[], s, rfl, ?_⟩
    unfold PassState.rank at small
    omega
  | succ bound ih =>
    intro s inv small
    by_cases spent : s.live = 0
    · exact ⟨[], s, rfl, spent⟩
    · obtain ⟨act, t, taken, lower⟩ := pass_progress mask lin inv spent
      have after := pass_step_inv mask lin act s t inv taken
      obtain ⟨acts, u, ran, ended⟩ := ih t after (by omega)
      refine ⟨act :: acts, u, ?_, ended⟩
      rw [Machine.run, taken, Option.bind_some, ran]

/-- The transfers handed out are the first ones of the plan, the pass can always be ended, and at its
end each transfer of the plan was performed once. -/
def PassExact (args : ChildArgs) (n : Nat) (oper : Op) (s : PassState) : Prop :=
  s.log <+: plan args oper n ∧ (∃ acts t, Machine.run (passStep args mask) acts s = some t ∧ t.live = 0) ∧
    (s.live = 0 → s.log = plan args oper n ∧ s.done.Perm (plan args oper n))

theorem pass_exact (lin : Linear args n) {s : PassState} (inv : PassInv args n oper s) :
    PassExact mask args n oper s := by
  refine ⟨?_, pass_can_end mask lin _ s inv (Nat.le_refl _), ?_⟩
  · obtain ⟨rest, split⟩ := Nat.exists_eq_add_of_le inv.within
    rw [inv.planned, split, plan, plan, List.range_add, List.map_append]
    exact List.prefix_append _ _
  · intro spent
    have room := inv.room
    have kids := lin.kids
    have length := inv.ended (by omega)
    have landed : s.flying = [] := List.eq_nil_of_length_eq_zero (by omega)
    have log : s.log = plan args oper n := by rw [inv.planned, length]
    refine ⟨log, ?_⟩
    have all := inv.split
    rwa [landed, List.append_nil, log] at all

theorem writes_start (env : TestEnv) :
    PassInv args n .writer (passStart args (startWrites args (clearBitmap env))) where
  current := rfl
  up := rfl
  counts := rfl
  others := rfl
  within := Nat.zero_le n
  place _ := by
    have first : firstTime .writer (startWrites args (clearBitmap env)).testState = true := rfl
    exact (if_pos first).mpr rfl
  planned := rfl
  listed _ := List.Perm.refl _
  unlisted _ := rfl
  split := List.Perm.refl _
  room := Nat.zero_le _
  kids := Nat.le_refl _
  ended fewer := absurd fewer (Nat.lt_irrefl _)
  marks a inside := by cases inside
  readable := Or.inl rfl

theorem reads_start (lin : Linear args n) {s : PassState} (inv : PassInv args n .writer s)
    (spent : s.live = 0) : PassInv args n .reader (passStart args (startReads args s.env)) where
  current := rfl
  up := rfl
  counts := rfl
  others := rfl
  within := Nat.zero_le n
  place _ := by
    have first : firstTime .reader (startReads args s.env).testState = true := rfl
    exact (if_pos first).mpr rfl
  planned := rfl
  listed _ := List.Perm.refl _
  unlisted _ := rfl
  split := List.Perm.refl _
  room := Nat.zero_le _
  kids := Nat.le_refl _
  ended fewer := absurd fewer (Nat.lt_irrefl _)
  marks a inside := by cases inside
  readable := by
    refine Or.inr ⟨rfl, ?_⟩
    intro lba low high
    have size := lin.size
    obtain ⟨_, _, exact⟩ := pass_exact 0 lin inv
    obtain ⟨_, done⟩ := exact spent
    have whole := Int.mul_ediv_add_emod lba args.ltrsiz
    have rest := Int.emod_nonneg lba (b := args.ltrsiz) (by omega)
    have small := Int.emod_lt_of_pos lba (b := args.ltrsiz) (by omega)
    have index : ((lba / (args.ltrsiz : Int)).toNat : Int) = lba / (args.ltrsiz : Int) :=
      Int.toNat_of_nonneg (Int.ediv_nonneg low (by omega))
    have inside : (lba / (args.ltrsiz : Int)).toNat < n := by
      have below := Int.ediv_lt_of_lt_mul (by omega) high
      omega
    have member : transfer args .writer (lba / (args.ltrsiz : Int)).toNat ∈ s.done :=
      done.symm.subset (planned_member.mpr ⟨_, inside, rfl⟩)
    apply inv.marks _ member rfl lba
    have place : ((lba / (args.ltrsiz : Int)).toNat : Int) * args.ltrsiz =
        args.ltrsiz * (lba / (args.ltrsiz : Int)) := by
      rw [index, Int.mul_comm]
    unfold Action.covers transfer
    dsimp only
    omega

end invariant

/-- The write pass performs the transfers of the plan, each once, and the read pass after it those at
the same LBAs. -/
theorem linear_passes_exact {o : Outside} {given args : ChildArgs} (accepted : Accepted o given args)
    (mode : LinearGiven given) (two : 2 * (args.htrsiz : Int) ≤ args.vsiz)
    (counted : args.vsiz < 9223372036854775808) (mask : Nat) (env : TestEnv) (acts : List PassAct)
    (s : PassState) (ran : Machine.run (passStep args mask) acts
      (passStart args (startWrites args (clearBitmap env))) = some s) :
    PassExact mask args (args.vsiz / args.htrsiz).toNat .writer s ∧
      (s.live = 0 → ∀ (acts' : List PassAct) (s' : PassState),
        Machine.run (passStep args mask) acts' (passStart args (startReads args s.env)) = some s' →
          PassExact mask args (args.vsiz / args.htrsiz).toNat .reader s') := by
  have lin := linear_accepted accepted mode two counted
  have inv := Machine.run_invariant (pass_step_inv mask lin) (writes_start env) ran
  refine ⟨pass_exact mask lin inv, ?_⟩
  intro spent acts' s' ran'
  have again := reads_start lin inv spent
  exact pass_exact mask lin (Machine.run_invariant (pass_step_inv mask lin) again ran')

section volume_of_five

def fiveGiven : ChildArgs where
  device := { name := [0x64], short := one_letter_short }
  vsiz := 5
  ltrsiz := 2
  htrsiz := 2
  tKids := 2
  flags := { vsiz := true, linear := true, w := true, r := true, lbaSync := true, cmpr := true }

def five : ChildArgs := makeAssumptions plainFile fiveGiven

def anyNext : PassAct := .next { sizes := [], lbas := [] }

def fiveWrites : List PassAct :=
  [anyNext, anyNext, .complete (transfer five .writer 1), anyNext,
    .complete (transfer five .writer 0), anyNext, anyNext]

theorem five_blocks_written : ∃ s, Machine.run (passStep five 7) fiveWrites
      (passStart five (startWrites five (clearBitmap (initEnv five)))) = some s ∧
    s.live = 0 ∧ s.log = [transfer five .writer 0, transfer five .writer 1] ∧
    PassExact 7 five 2 .writer s := by
  have ends : (Machine.run (passStep five 7) fiveWrites
      (passStart five (startWrites five (clearBitmap (initEnv five))))).map
        (fun s => (s.live, s.log)) =
      some (0, [transfer five .writer 0, transfer five .writer 1]) := by decide
  obtain ⟨s, ran, both⟩ := Option.map_eq_some_iff.mp ends
  obtain ⟨live, log⟩ := Prod.mk.inj both
  have mode : LinearGiven fiveGiven := by constructor <;> rfl
  have accepted : Accepted plainFile fiveGiven five := by decide
  have exact := linear_passes_exact accepted mode (by decide) (by decide) 7 (initEnv five)
    fiveWrites s ran
  exact ⟨s, ran, live, log, exact.1⟩

end volume_of_five
end VteDisktest
