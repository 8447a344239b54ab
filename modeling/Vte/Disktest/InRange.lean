import Vte.Disktest.Exclusion

/-!
The blocks that the actions of a test touch. `check_conclusions` looks at the range, at the offset and
at the transfer size, but not at all three together, and the ways to choose an LBA each rely on more
than it checks. Where what they rely on holds, no action leaves the range, and no bit of one is
outside the bitmap.
-/
namespace VteDisktest
open CInt

def bmpSiz (args : ChildArgs) : Nat :=
  (if u64 args.vsiz / 8 = 0 then 1 else u64 args.vsiz / 8) + if args.vsiz.tdiv 8 ≠ 0 then 1 else 0

section passes

/-- A pass of `threadedMain`; a linear one that is not interleaved is a write pass, a read pass, or
both. -/
inductive TestPass where
  | mixed
  | writes
  | reads
  deriving DecidableEq

def Flags.has (flags : Flags) : TestPass → Bool
  | .mixed => !(flags.linear && !flags.ntrlvd)
  | .writes => flags.linear && !flags.ntrlvd && flags.w
  | .reads => flags.linear && !flags.ntrlvd && flags.r

def TestPass.start (args : ChildArgs) : TestPass → TestEnv → TestEnv
  | .mixed, env => startMixed args env
  | .writes, env => startWrites args (clearBitmap env)
  | .reads, env => startReads args (if args.flags.w then env else clearBitmap env)

inductive TestAct where
  | pass (pass : TestPass)
  | thread (act : Act)

def testStep (args : ChildArgs) (mask : Nat) : TestAct → State → Option State
  | .pass pass, s =>
    if args.flags.has pass then some { env := pass.start args s.env, flying := [] } else none
  | .thread act, s => step args mask act s

def testInit (args : ChildArgs) : State where
  env := initEnv args
  flying := []

end passes

section property
variable (args : ChildArgs)

def InBitmap (target : Action) : Prop :=
  ∀ i : Nat, i < target.trsiz → 0 ≤ bitIndex args target i ∧ bitIndex args target i < 8 * bmpSiz args

def Within (target : Action) : Prop :=
  args.startLba ≤ target.lba ∧ target.lba + target.trsiz - 1 ≤ args.stopLba ∧ InBitmap args target

/-- An action that is handed out is in the range, and the bits that are looked at for it, or set when
it is done, are in the bitmap. -/
def Stays (mask : Nat) : TestAct → State → Prop
  | .thread (.next draws), s => ∀ result ∈ getNextAction args mask draws s.env,
      result.2.oper.performed → Within args result.2 ∧ ∀ p ∈ propose args mask draws s.env, InBitmap args p.target
  | .thread (.complete target), s => target ∈ s.flying → InBitmap args target
  | _, _ => True

end property

section condition
variable (args : ChildArgs)

def Flags.backForth (flags : Flags) : Bool := flags.lund && !flags.lunu

/-- What holds before the first action; the sizes must not change where the direction does. -/
structure Ranged : Prop where
  start : 0 ≤ args.startLba
  offset : 0 ≤ args.offset
  first : firstLba args ≤ args.stopLba
  fixed : args.startBlk ≠ args.stopBlk → args.flags.linear = true → args.flags.backForth = true →
    args.flags.rtrsiz = false
  counted : args.vsiz < 9223372036854775808 ∧ args.stopLba < 9223372036854775808

def drawnSize (sizes : List Nat) : Option Nat :=
  if args.flags.rtrsiz then
    (sizes.map fun rand => (rand &&& 0xfff) + args.ltrsiz).find? (· ≤ args.htrsiz)
  else some args.ltrsiz

def SizeFits (size : Nat) : Prop :=
  firstLba args + size - 1 ≤ args.stopLba ∧ args.stopLba + args.offset + size < 9223372036854775808

instance (size : Nat) : Decidable (SizeFits args size) := inferInstanceAs (Decidable (_ ∧ _))

/-- The boundary above is taken: it is nearer, or the LBA is below the one that the offset moved, which
counts as far away. -/
def RoundsUp (lba guess : Int) (size : Nat) : Prop :=
  (lba < guess ∨ guess + size - lba < lba - guess) ∧ guess + size ≤ args.stopLba

instance (lba guess : Int) (size : Nat) : Decidable (RoundsUp args lba guess size) :=
  inferInstanceAs (Decidable ((_ ∨ _) ∧ _))

def boundary (lba : Int) (size : Nat) : Int := lba / size * size + args.offset

/-- The boundary taken is behind the first LBA, and so is the one below it where a transfer from there
does not fit. -/
def BoundaryFits (lba guess : Int) (size : Nat) : Prop :=
  if args.stopLba < guess then size = 1 ∨ firstLba args + size ≤ args.stopLba
  else if RoundsUp args lba guess size then
    firstLba args ≤ guess ∨ guess + 2 * size - 1 ≤ args.stopLba
  else firstLba args ≤ guess ∧ (guess + size - 1 ≤ args.stopLba ∨ firstLba args + size ≤ guess)

instance (lba guess : Int) (size : Nat) : Decidable (BoundaryFits args lba guess size) :=
  inferInstanceAs (Decidable (if _ < guess then size = 1 ∨ _ ≤ _
    else if RoundsUp args lba guess size then firstLba args ≤ guess ∨ _ ≤ _
    else firstLba args ≤ guess ∧ (_ ≤ _ ∨ firstLba args + size ≤ guess)))

def Fitting (mask : Nat) (draws : Draws) : Prop :=
  ∀ size ∈ drawnSize args draws.sizes, SizeFits args size ∧ (args.startBlk ≠ args.stopBlk → args.flags.linear = false →
      ∀ lba ∈ drawLba args mask draws.lbas, BoundaryFits args lba (boundary args lba size) size)

instance (mask : Nat) (draws : Draws) : Decidable (Fitting args mask draws) :=
  inferInstanceAs (Decidable (∀ size ∈ drawnSize args draws.sizes, SizeFits args size ∧
    (args.startBlk ≠ args.stopBlk → args.flags.linear = false →
      ∀ lba ∈ drawLba args mask draws.lbas, BoundaryFits args lba (boundary args lba size) size)))

def DrawsFit (mask : Nat) : TestAct → State → Prop
  | .thread (.next draws), _ => Fitting args mask draws
  | _, _ => True

instance (mask : Nat) : (act : TestAct) → (s : State) → Decidable (DrawsFit args mask act s)
  | .thread (.next draws), _ => inferInstanceAs (Decidable (Fitting args mask draws))
  | .thread (.complete _), _ => isTrue trivial
  | .thread (.giveUp _), _ => isTrue trivial
  | .pass _, _ => isTrue trivial

end condition

section near
variable {args : ChildArgs} {lba guess : Int} {size : Nat}

theorem align_eq (low : 0 ≤ lba) (high : lba < 18446744073709551616) :
    (align lba size : Int) = lba / size * size := by
  have whole := u64_small low high
  rw [align, Int.natCast_mul, Int.natCast_ediv, whole]

theorem last_lba_eq (lba : Int) {size : Nat} (low : 0 ≤ lba) (large : 1 ≤ size)
    (high : lba + size ≤ 18446744073709551616) : (lastLba lba size : Int) = lba + size - 1 := by
  have whole := u64_small (x := lba + (size - 1)) (by omega) (by omega)
  rw [lastLba]
  omega

theorem round_lba_eq (large : 1 ≤ size) (low : 0 ≤ lba) (high : lba ≤ args.stopLba)
    (positive : 0 ≤ guess) (inside : guess ≤ args.stopLba) (above : lba < guess + size)
    (counted : args.stopLba + size < 9223372036854775808) :
    roundLba args lba guess size =
      if RoundsUp args lba guess size then guess + size else guess := by
  have stop := u64_small (x := args.stopLba) (by omega) (by omega)
  have next := u64_small (x := guess + size) (by omega) (by omega)
  have ahead := u64_small (x := guess + size - lba) (by omega) (by omega)
  have stays : ¬ ((lba < guess ∨ guess + size - lba < lba - guess) ∧
      guess + size ≤ args.stopLba) → ¬ RoundsUp args lba guess size := id
  unfold roundLba
  by_cases same : lba = guess
  · rw [if_pos same, if_neg (stays (by omega)), same]
  · rw [if_neg same]
    by_cases below : lba < guess
    · have behind := u64_negative (x := lba - guess) (by omega) (by omega)
      rw [if_neg (by omega)]
      by_cases past : args.stopLba < guess + size
      · rw [if_pos (by omega), if_neg (stays (by omega))]
      · rw [if_neg (by omega), if_pos ⟨.inl below, by omega⟩]
    · have behind := u64_small (x := lba - guess) (by omega) (by omega)
      by_cases nearer : lba - guess ≤ guess + size - lba
      · rw [if_pos (by omega), if_neg (stays (by omega))]
      · rw [if_neg (by omega)]
        by_cases past : args.stopLba < guess + size
        · rw [if_pos (by omega), if_neg (stays (by omega))]
        · rw [if_neg (by omega), if_pos ⟨.inr (by omega), by omega⟩]

theorem near_lba_inside (fits : Ranged args) (large : 1 ≤ size) (room : SizeFits args size)
    (low : args.startLba ≤ lba) (high : lba ≤ args.stopLba) :
    firstLba args ≤ nearLba args lba size ∧ nearLba args lba size + size - 1 ≤ args.stopLba ↔
      BoundaryFits args lba (boundary args lba size) size := by
  obtain ⟨start, offset, first, -, -⟩ := fits
  obtain ⟨behind, counted⟩ := room
  have rest := Int.emod_nonneg lba (show (size : Int) ≠ 0 by omega)
  have below := Int.emod_lt_of_pos lba (show (0 : Int) < size by omega)
  have split := Int.mul_ediv_add_emod lba size
  rw [Int.mul_comm] at split
  have floor : 0 ≤ lba / size * size :=
    Int.mul_nonneg (Int.ediv_nonneg (by omega) (by omega)) (by omega)
  have guessed : s64 (align lba size + args.offset) = boundary args lba size := by
    rw [align_eq (by omega) (by omega), boundary]
    exact s64_small (by omega) (by omega)
  have above : lba + args.offset < boundary args lba size + size := by
    rw [boundary]
    omega
  have positive : 0 ≤ boundary args lba size := by
    rw [boundary]
    omega
  have home : firstLba args = args.startLba + args.offset := rfl
  have stop := u64_small (x := args.stopLba) (by omega) (by omega)
  unfold nearLba BoundaryFits
  rw [guessed]
  generalize boundary args lba size = guess at *
  dsimp only
  by_cases past : args.stopLba < guess
  · have last := last_lba_eq args.stopLba (by omega) large (by omega)
    rw [if_pos past, if_pos past]
    split <;> omega
  · rw [if_neg past, if_neg past, round_lba_eq large (by omega) high positive (by omega) (by omega) (by omega)]
    by_cases up : RoundsUp args lba guess size
    · have fit := up.2
      have last := last_lba_eq (guess + size) (by omega) large (by omega)
      rw [if_pos up, if_pos up]
      split <;> omega
    · have last := last_lba_eq guess (by omega) large (by omega)
      rw [if_neg up, if_neg up]
      split <;> omega

theorem draw_lba_between {mask : Nat} {lbas : List Nat} (drawn : drawLba args mask lbas = some lba) :
    args.startLba ≤ lba ∧ lba ≤ args.stopLba := by
  induction lbas with
  | nil => cases drawn
  | cons rand lbas ih =>
    rw [drawLba] at drawn
    split at drawn
    · obtain rfl := Option.some.inj drawn
      omega
    · exact ih drawn

end near

section bitmap
variable {args : ChildArgs} {o : Outside} {given : ChildArgs}

def Inside (args : ChildArgs) (target : Action) : Prop :=
  firstLba args ≤ target.lba ∧ target.lba + target.trsiz - 1 ≤ args.stopLba

theorem bitmap_holds (low : 0 ≤ args.vsiz) (high : args.vsiz < 9223372036854775808) :
    args.vsiz ≤ 8 * bmpSiz args := by
  have whole := u64_small low (by omega)
  have bytes := Int.tdiv_eq_ediv_of_nonneg low (b := 8)
  unfold bmpSiz
  rw [bytes]
  split
  · split <;> omega
  · split <;> omega

theorem inside_within (accepted : Accepted o given args) (fits : Ranged args) {target : Action}
    (inside : Inside args target) : Within args target := by
  obtain ⟨start, offset, -, -, counted, -⟩ := fits
  obtain ⟨low, high⟩ := inside
  obtain ⟨positive, -⟩ := accepted_sizes accepted
  have volume := not_refused accepted (args.vsiz < args.stopLba - args.startLba + 1)
    (by simp [refusals])
  rw [decide_eq_false_iff_not] at volume
  have bits := bitmap_holds positive counted
  unfold firstLba at low
  refine ⟨by omega, high, ?_⟩
  intro i early
  unfold bitIndex
  omega

end bitmap

section assumed

/-- There is a way to choose an LBA, and a linear one knows what to do at the end of the range. -/
structure Chosen (flags : Flags) : Prop where
  seek : flags.linear = false → flags.random = true
  turn : flags.linear = true → flags.lunu = true ∨ flags.lund = true

theorem direction_chosen {args : ChildArgs}
    (seek : args.flags.linear = false → args.flags.random = true) :
    Chosen (assumeDirection args).flags := by
  unfold assumeDirection
  dsimp only
  split
  · exact ⟨seek, fun _ => .inl rfl⟩
  · rename_i settled
    refine ⟨seek, ?_⟩
    intro linear
    cases up : args.flags.lunu with
    | true => exact .inl rfl
    | false => exact .inr (by simpa [linear, up] using settled)

theorem accepted_chosen {o : Outside} {given args : ChildArgs} (accepted : Accepted o given args) :
    Chosen args.flags := by
  obtain ⟨rfl, -⟩ := accepted
  have seeks : ∀ args : ChildArgs, (args.flags.linear = false → args.flags.random = true) →
      (assumeSeeks args).flags.linear = false → (assumeSeeks args).flags.random = true := by
    intro args seek
    unfold assumeSeeks
    dsimp only
    split
    · split <;> exact seek
    · split <;> exact seek
  have flags : ∀ args : ChildArgs,
      (assumeFlags args).flags.linear = false → (assumeFlags args).flags.random = true := by
    intro args linear
    unfold assumeFlags Flags.withSeekType at *
    dsimp only at *
    split
    · rename_i either
      rw [if_pos either] at linear
      simpa [linear] using either
    · rfl
  obtain ⟨rperc, wperc, percs⟩ := normalize_percs_only (assumeDirection (assumeSeeks (assumeFlags
    (assumeKids (assumeStopBlk (assumeStopLba
      (assumeVolume o (assumeLbas (assumeBlocks (assumeSize given))))))))))
  have chosen := direction_chosen (seeks _ (flags (assumeKids (assumeStopBlk (assumeStopLba
    (assumeVolume o (assumeLbas (assumeBlocks (assumeSize given)))))))))
  rw [makeAssumptions, percs, assumeDuty]
  dsimp only
  split
  · exact ⟨chosen.seek, chosen.turn⟩
  · exact chosen

end assumed
end VteDisktest
