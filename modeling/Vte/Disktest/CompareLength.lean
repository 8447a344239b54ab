import Mathlib.Algebra.Order.Ring.Nat
import Vte.Disktest.Buffer
import Vte.Disktest.InRangeRuns

/-!
The compare length of a test. It lies in the arguments that all threads share, and a read that finds it
0 or longer than its transfer stores its own. The threads look at it, store it and compare by it without
a lock. It stays as the user gave it, or, given as 0, only shrinks with the reads.
-/
namespace VteDisktest
open Bytes

/-- A read that is done, with its two buffers: what it should have got, and what it got. -/
structure Compare where
  target : Action
  expected : List Byte
  got : List Byte
  deriving DecidableEq

def Compare.bytes (call : Compare) : Nat := call.target.trsiz * blkSize

/-- A test with the compare length, the reads that are about to store it or to compare, and those
compared with whether a miscompare was reported. -/
structure CompareState where
  test : State
  cmpLng : Nat
  toStore : List Compare
  toCompare : List Compare
  compared : List (Compare × Bool)

inductive CompareAct where
  | test (act : TestAct)
  | check (call : Compare)
  | store (call : Compare)
  | compare (call : Compare)

section steps
variable (args : ChildArgs)

def compareStep (mask : Nat) : CompareAct → CompareState → Option CompareState
  | .test act, s => (testStep args mask act s.test).map fun test => { s with test }
  | .check call, s =>
    if args.flags.cmpr ∧ call.target ∈ s.test.flying ∧ call.target.oper = .reader then
      if s.cmpLng = 0 ∨ call.bytes < s.cmpLng then some { s with toStore := call :: s.toStore }
      else some { s with toCompare := call :: s.toCompare }
    else none
  | .store call, s =>
    if call ∈ s.toStore then
      some { s with
        cmpLng := call.bytes % 2 ^ 32
        toStore := s.toStore.erase call
        toCompare := call :: s.toCompare }
    else none
  | .compare call, s =>
    if call ∈ s.toCompare then
      some { s with
        toCompare := s.toCompare.erase call
        compared := s.compared ++ [(call, call.expected.take s.cmpLng != call.got.take s.cmpLng)] }
    else none

def compareInit : CompareState where
  test := testInit args
  cmpLng := args.cmpLng
  toStore := []
  toCompare := []
  compared := []

def askedLength (call : Compare) : Nat := if args.cmpLng = 0 then call.bytes else args.cmpLng

def AllReported (s : CompareState) : Prop :=
  ∀ call reported, (call, reported) ∈ s.compared →
    call.expected.take (askedLength args call) ≠ call.got.take (askedLength args call) → reported = true

/-- The condition of a step where everything is to be compared: a read is not longer than those that
looked at the length before it, and the read that stores its own is below 4 GiB and not shorter than
those that are about to compare. -/
def NotLonger : CompareAct → CompareState → Prop
  | .check call, s => args.cmpLng = 0 → (∀ earlier ∈ s.toCompare, call.bytes ≤ earlier.bytes) ∧
      ∀ earlier ∈ s.compared, call.bytes ≤ earlier.1.bytes
  | .store call, s => args.cmpLng = 0 → call.bytes < 2 ^ 32 ∧ ∀ pending ∈ s.toCompare, pending.bytes ≤ call.bytes
  | _, _ => True

instance : (act : CompareAct) → (s : CompareState) → Decidable (NotLonger args act s)
  | .check call, s => inferInstanceAs (Decidable (args.cmpLng = 0 →
      (∀ earlier ∈ s.toCompare, call.bytes ≤ earlier.bytes) ∧
      ∀ earlier ∈ s.compared, call.bytes ≤ earlier.1.bytes))
  | .store call, s => inferInstanceAs (Decidable (args.cmpLng = 0 →
      call.bytes < 2 ^ 32 ∧ ∀ pending ∈ s.toCompare, pending.bytes ≤ call.bytes))
  | .test _, _ => isTrue trivial
  | .compare _, _ => isTrue trivial

end steps

theorem take_differs {xs ys : List Byte} {n m : Nat} (within : n ≤ m)
    (differ : xs.take n ≠ ys.take n) : xs.take m ≠ ys.take m := by
  intro same
  apply differ
  have shorter := congrArg (List.take n) same
  rwa [List.take_take, List.take_take, Nat.min_eq_left within] at shorter

section whole
variable {args : ChildArgs} {mask : Nat} {s t : CompareState}

/-- Where everything is to be compared: the length covers the reads that are about to compare, and one
of those that passed its check is not longer. -/
structure WholeInv (args : ChildArgs) (s : CompareState) : Prop where
  covered : ∀ c ∈ s.toCompare, c.bytes ≤ s.cmpLng
  stored : s.cmpLng ≠ 0 → (∃ c ∈ s.toCompare, c.bytes ≤ s.cmpLng) ∨ ∃ earlier ∈ s.compared, earlier.1.bytes ≤ s.cmpLng
  reported : AllReported args s

theorem check_whole (whole : args.cmpLng = 0) {call : Compare} (inv : WholeInv args s)
    (fits : NotLonger args (.check call) s) (taken : compareStep args mask (.check call) s = some t) :
    WholeInv args t := by
  obtain ⟨pending, done⟩ := fits whole
  rw [compareStep] at taken
  split at taken
  · split at taken
    · obtain rfl := Option.some.inj taken
      exact ⟨inv.covered, inv.stored, inv.reported⟩
    · rename_i known
      obtain rfl := Option.some.inj taken
      rw [not_or] at known
      have within : call.bytes ≤ s.cmpLng := by
        rcases inv.stored known.1 with ⟨c, member, below⟩ | ⟨earlier, member, below⟩
        · exact Nat.le_trans (pending c member) below
        · exact Nat.le_trans (done earlier member) below
      exact ⟨List.forall_mem_cons.mpr ⟨within, inv.covered⟩,
        fun _ => .inl ⟨call, List.mem_cons_self .., within⟩, inv.reported⟩
  · cases taken

theorem store_whole (whole : args.cmpLng = 0) {call : Compare} (inv : WholeInv args s)
    (fits : NotLonger args (.store call) s) (taken : compareStep args mask (.store call) s = some t) :
    WholeInv args t := by
  obtain ⟨small, longest⟩ := fits whole
  rw [compareStep] at taken
  split at taken
  · obtain rfl := Option.some.inj taken
    have kept : call.bytes % 2 ^ 32 = call.bytes := Nat.mod_eq_of_lt small
    refine ⟨?_, fun _ => .inl ⟨call, List.mem_cons_self .., Nat.le_of_eq kept.symm⟩, inv.reported⟩
    rw [kept]
    exact List.forall_mem_cons.mpr ⟨Nat.le_refl _, longest⟩
  · cases taken

theorem compare_whole (whole : args.cmpLng = 0) {call : Compare} (inv : WholeInv args s)
    (taken : compareStep args mask (.compare call) s = some t) : WholeInv args t := by
  rw [compareStep] at taken
  split at taken
  · rename_i pending
    obtain rfl := Option.some.inj taken
    have within := inv.covered call pending
    refine ⟨fun c other => inv.covered c (List.mem_of_mem_erase other),
      fun _ => .inr ⟨_, List.mem_append_right _ (List.mem_singleton_self _), within⟩, ?_⟩
    intro c reported logged differ
    rcases List.mem_append.mp logged with before | last
    · exact inv.reported c reported before differ
    · obtain ⟨rfl, rfl⟩ := Prod.mk.inj (List.mem_singleton.mp last)
      rw [askedLength, if_pos whole] at differ
      rw [bne_iff_ne]
      exact take_differs within differ
  · cases taken

end whole

section sizes
variable {args : ChildArgs} {mask : Nat} {env : TestEnv} {s t : State}

theorem draw_size_least (sizes : List Nat) :
    ∀ {size : Nat}, drawSize args env sizes = some size → args.ltrsiz ≤ size := by
  induction sizes with
  | nil =>
    intro size drawn
    cases drawn
  | cons rand sizes ih =>
    intro size drawn
    rw [drawSize] at drawn
    split at drawn
    · obtain rfl := Option.some.inj drawn
      exact Nat.le_add_left _ _
    · exact ih drawn

def LastSized (args : ChildArgs) (env : TestEnv) : Prop :=
  env.lastAction.trsiz = 0 ∨ args.ltrsiz ≤ env.lastAction.trsiz

theorem pick_size_least {oper : Op} {sizes : List Nat} {size : Nat} (last : LastSized args env)
    (picked : pickSize args oper sizes env = some size) : args.ltrsiz ≤ size := by
  unfold pickSize at picked
  dsimp only at picked
  split at picked
  · exact Nat.le_of_eq (Option.some.inj picked)
  · split at picked
    · rename_i again
      obtain rfl := Option.some.inj picked
      simp only [Bool.and_eq_true, bne_iff_ne] at again
      exact last.resolve_left again.1.2
    · exact draw_size_least sizes picked

theorem record_last {p : Proposal} (recorded : record args p = some env) :
    env.lastAction = p.target ∨ env.lastAction = p.env.lastAction := by
  unfold record at recorded
  split at recorded
  · exact .inl (listed_same recorded).2.2.1
  · exact .inl (listed_same recorded).2.2.1
  · obtain rfl := Option.some.inj recorded
    exact .inr rfl

structure Sized (args : ChildArgs) (s : State) : Prop where
  flying : ∀ a ∈ s.flying, args.ltrsiz ≤ a.trsiz
  last : LastSized args s.env

theorem next_sized (chosen : Chosen args.flags) {draws : Draws} {result : TestEnv × Action}
    (sized : Sized args s) (got : getNextAction args mask draws s.env = some result) :
    Sized args (takeOff result s) := by
  obtain ⟨p, proposed, taken⟩ := Option.bind_eq_some_iff.mp got
  obtain ⟨env', recorded, rfl⟩ := Option.map_eq_some_iff.mp taken
  have kept := propose_kept chosen proposed
  obtain ⟨size, picked, made⟩ := Option.bind_eq_some_iff.mp proposed
  have least : args.ltrsiz ≤ (p.checked args).target.trsiz := by
    rw [(checked_keeps args p).2.1, (pick_lba_keeps made).2.2.1]
    exact pick_size_least sized.last picked
  constructor
  · unfold takeOff
    split
    · exact List.forall_mem_cons.mpr ⟨least, sized.flying⟩
    · exact sized.flying
  · change LastSized args env'
    unfold LastSized
    rcases record_last recorded with same | same
    · rw [same]
      exact .inr least
    · rw [same, (checked_keeps args p).2.2.2, kept.last]
      exact sized.last

theorem land_sized {target : Action} {env : TestEnv} (sized : Sized args s)
    (last : env.lastAction = s.env.lastAction) : Sized args (land target s env) where
  flying a member := sized.flying a (List.mem_of_mem_erase member)
  last := by
    rw [land, LastSized, last]
    exact sized.last

theorem start_size (pass : TestPass) (env : TestEnv) :
    (pass.start args env).lastAction.trsiz = env.lastAction.trsiz := by
  cases pass with
  | mixed => rfl
  | writes => rfl
  | reads =>
    rw [TestPass.start]
    split <;> rfl

theorem test_sized (chosen : Chosen args.flags) (act : TestAct) (sized : Sized args s)
    (taken : testStep args mask act s = some t) : Sized args t := by
  cases act with
  | pass pass =>
    rw [testStep] at taken
    split at taken
    · obtain rfl := Option.some.inj taken
      refine ⟨by simp, ?_⟩
      rw [LastSized, start_size]
      exact sized.last
    · cases taken
  | thread act =>
    rw [testStep] at taken
    cases act with
    | next draws =>
      rw [step] at taken
      split at taken
      · obtain ⟨result, got, rfl⟩ := Option.map_eq_some_iff.mp taken
        exact next_sized chosen sized got
      · cases taken
    | complete target =>
      rw [step] at taken
      split at taken
      · obtain ⟨env, done, rfl⟩ := Option.map_eq_some_iff.mp taken
        apply land_sized sized
        rw [(unlisted_same done).2.2.1]
        split <;> rfl
      · cases taken
    | giveUp target =>
      rw [step] at taken
      split at taken
      · obtain ⟨env, done, rfl⟩ := Option.map_eq_some_iff.mp taken
        obtain ⟨removed, listed, rfl⟩ := Option.map_eq_some_iff.mp done
        apply land_sized sized
        rw [← (unlisted_same listed).2.2.1]
        split <;> rfl
      · cases taken

end sizes

section fixed
variable {args : ChildArgs} {mask : Nat} {s t : CompareState}

structure FixedInv (args : ChildArgs) (s : CompareState) : Prop where
  sized : Sized args s.test
  kept : s.cmpLng = args.cmpLng
  idle : s.toStore = []
  reported : AllReported args s

theorem fixed_step (given : args.cmpLng ≠ 0) (chosen : Chosen args.flags)
    (short : args.flags.cmpr = true → args.cmpLng ≤ args.ltrsiz * blkSize) (act : CompareAct)
    (inv : FixedInv args s) (taken : compareStep args mask act s = some t) : FixedInv args t := by
  cases act with
  | test act =>
    obtain ⟨test, stepped, rfl⟩ := Option.map_eq_some_iff.mp taken
    exact ⟨test_sized chosen act inv.sized stepped, inv.kept, inv.idle, inv.reported⟩
  | check call =>
    rw [compareStep] at taken
    split at taken
    · rename_i ready
      have long : args.ltrsiz * blkSize ≤ call.bytes :=
        Nat.mul_le_mul_right _ (inv.sized.flying _ ready.2.1)
      have fits := short ready.1
      rw [if_neg (by rw [inv.kept]; omega)] at taken
      obtain rfl := Option.some.inj taken
      exact ⟨inv.sized, inv.kept, inv.idle, inv.reported⟩
    · cases taken
  | store call =>
    rw [compareStep, inv.idle] at taken
    cases taken
  | compare call =>
    rw [compareStep] at taken
    split at taken
    · obtain rfl := Option.some.inj taken
      refine ⟨inv.sized, inv.kept, inv.idle, ?_⟩
      intro c reported logged differ
      rcases List.mem_append.mp logged with before | last
      · exact inv.reported c reported before differ
      · obtain ⟨rfl, rfl⟩ := Prod.mk.inj (List.mem_singleton.mp last)
        rw [askedLength, if_neg given] at differ
        rw [bne_iff_ne, inv.kept]
        exact differ
    · cases taken

end fixed

section runs
variable {args : ChildArgs} {mask : Nat}

theorem whole_step (whole : args.cmpLng = 0) (act : CompareAct) (s t : CompareState)
    (inv : WholeInv args s) (fits : NotLonger args act s)
    (taken : compareStep args mask act s = some t) : WholeInv args t := by
  cases act with
  | test act =>
    obtain ⟨test, _, rfl⟩ := Option.map_eq_some_iff.mp taken
    exact ⟨inv.covered, inv.stored, inv.reported⟩
  | check call => exact check_whole whole inv fits taken
  | store call => exact store_whole whole inv fits taken
  | compare call => exact compare_whole whole inv taken

theorem nothing_compared (args : ChildArgs) : AllReported args (compareInit args) :=
  fun _ _ logged => (List.not_mem_nil logged).elim

/-- Every difference in the bytes that the user asked for is reported; where that is all of them, as long
as no read is longer than those before it. -/
theorem differences_reported (o : Outside) (given args : ChildArgs)
    (accepted : Accepted o given args) (mask : Nat) (acts : List CompareAct) (s : CompareState)
    (fits : Machine.Along (compareStep args mask) (NotLonger args) acts (compareInit args))
    (ran : Machine.run (compareStep args mask) acts (compareInit args) = some s) :
    AllReported args s := by
  by_cases whole : args.cmpLng = 0
  · have start : WholeInv args (compareInit args) :=
      ⟨by simp [compareInit], fun known => absurd whole known, nothing_compared args⟩
    exact (Machine.run_along (whole_step whole) start fits ran).reported
  · have short : args.flags.cmpr = true → args.cmpLng ≤ args.ltrsiz * blkSize := by
      intro compares
      have refused := not_refused accepted (args.flags.cmpr && args.ltrsiz * blkSize < args.cmpLng)
        (by simp [refusals])
      rw [compares, Bool.true_and, decide_eq_false_iff_not] at refused
      omega
    have start : FixedInv args (compareInit args) :=
      ⟨⟨by simp [compareInit, testInit], .inl rfl⟩, rfl, rfl, nothing_compared args⟩
    have kept : ∀ act s t, FixedInv args s → compareStep args mask act s = some t → FixedInv args t :=
      fun act s t inv taken => fixed_step whole (accepted_chosen accepted) short act inv taken
    exact (Machine.run_invariant kept start ran).reported

end runs

section reads

def readsGiven : ChildArgs where
  device := { name := [0x64], short := one_letter_short }
  vsiz := 8
  ltrsiz := 1
  htrsiz := 4
  tKids := 2
  flags := { vsiz := true, rtrsiz := true, random := true, r := true, cmpr := true }

def reads : ChildArgs := makeAssumptions plainFile readsGiven

theorem reads_accepted : Accepted plainFile readsGiven reads := by decide

def readNext (rand lba : Nat) : CompareAct := .test (.thread (.next { sizes := [rand], lbas := [lba] }))

def firstBlock : Compare where
  target := { oper := .reader, trsiz := 1, lba := 0 }
  expected := List.replicate 512 0
  got := List.replicate 512 0

def nextBlocks : Compare where
  target := { oper := .reader, trsiz := 2, lba := 2 }
  expected := List.replicate 1024 0
  got := List.replicate 512 0 ++ List.replicate 512 1

theorem second_block_reported : ∃ s, Machine.run (compareStep reads 7)
      [.test (.pass .mixed), readNext 1 2, .check nextBlocks, .store nextBlocks, .compare nextBlocks,
        readNext 0 0, .check firstBlock, .store firstBlock, .compare firstBlock] (compareInit reads) =
        some s ∧ s.compared = [(nextBlocks, true), (firstBlock, false)] ∧ AllReported reads s := by
  have logged : (Machine.run (compareStep reads 7)
      [.test (.pass .mixed), readNext 1 2, .check nextBlocks, .store nextBlocks, .compare nextBlocks,
        readNext 0 0, .check firstBlock, .store firstBlock, .compare firstBlock]
      (compareInit reads)).map CompareState.compared = some [(nextBlocks, true), (firstBlock, false)] := by
    decide +kernel
  obtain ⟨s, ran, compared⟩ := Option.map_eq_some_iff.mp logged
  refine ⟨s, ran, compared, ?_⟩
  exact differences_reported plainFile readsGiven reads reads_accepted 7 _ s (by decide +kernel) ran

/-- The length of the one block is kept for the two that are read after it. -/
theorem second_block_missed : ¬ ∀ (o : Outside) (given args : ChildArgs), Accepted o given args →
    ∀ (mask : Nat) (acts : List CompareAct) (s : CompareState),
      Machine.run (compareStep args mask) acts (compareInit args) = some s → AllReported args s := by
  intro all
  have logged : (Machine.run (compareStep reads 7)
      [.test (.pass .mixed), readNext 0 0, .check firstBlock, .store firstBlock, .compare firstBlock,
        readNext 1 2, .check nextBlocks, .compare nextBlocks]
      (compareInit reads)).map CompareState.compared = some [(firstBlock, false), (nextBlocks, false)] := by
    decide +kernel
  obtain ⟨s, ran, compared⟩ := Option.map_eq_some_iff.mp logged
  have reported := all plainFile readsGiven reads reads_accepted 7 _ s ran nextBlocks false
    (by rw [compared]; exact List.mem_cons_of_mem _ (List.mem_singleton_self _))
  cases reported (by decide +kernel)

end reads
end VteDisktest
