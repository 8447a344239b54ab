import Vte.Base.CInt
import Vte.Disktest.Args

/-!
testcases/kernel/io/disktest/parse.c: what is assumed for options that are not given, and which
arguments are accepted. The messages and the string of the arguments are left out.
-/
namespace VteDisktest
open CInt

def trsizDefault : Nat := 1
def vsizDefault : Int := 2000
def seeksDefault : Int := 1000
def kidsDefault : Nat := 4

/-- What is asked from outside: the size of the device in blocks, whether its kind is the one of
option -I, and `GLB_FLG_KILL`. -/
structure Outside where
  size : Int
  kindFits : Bool
  kill : Bool

section assumptions

def perSize (x : Int) (trsiz : Nat) : Int := (u64 x / trsiz : Nat)

def assumeSize (args : ChildArgs) : ChildArgs :=
  if args.ltrsiz = 0 then { args with ltrsiz := trsizDefault, htrsiz := trsizDefault } else args

def assumeBlocks (args : ChildArgs) : ChildArgs :=
  if args.flags.lbaRng then
    { args with
      startBlk := perSize args.startLba args.htrsiz
      stopBlk := if args.stopLba < 0 then args.stopBlk else perSize args.stopLba args.htrsiz }
  else args

def assumeLbas (args : ChildArgs) : ChildArgs :=
  if args.flags.blkRng then
    { args with
      startLba := args.startBlk * args.htrsiz
      stopLba :=
        if args.stopBlk < 0 then args.stopLba else args.stopBlk * args.htrsiz + (args.htrsiz - 1) }
  else args

def rangeEnd (args : ChildArgs) : Int := if args.stopLba < 0 then args.startLba else args.stopLba

def assumedVsiz (o : Outside) (args : ChildArgs) : Int :=
  if 0 < args.vsiz then args.vsiz
  else if 0 < o.size then o.size
  else if args.flags.lbaRng || args.flags.blkRng then
    if 0 < rangeEnd args + 1 then rangeEnd args + 1 else vsizDefault
  else vsizDefault

def assumeVolume (o : Outside) (args : ChildArgs) : ChildArgs :=
  { args with vsiz := assumedVsiz o args }

def assumeStopLba (args : ChildArgs) : ChildArgs :=
  if args.stopLba = -1 then { args with stopLba := args.vsiz - 1 } else args

def assumeStopBlk (args : ChildArgs) : ChildArgs :=
  if args.stopBlk = -1 then { args with stopBlk := args.stopLba.tdiv args.htrsiz } else args

def assumeKids (args : ChildArgs) : ChildArgs :=
  if args.tKids = 0 then { args with tKids := kidsDefault } else args

def assumedOpers (args : ChildArgs) : Flags :=
  let flags := args.flags
  if flags.w || flags.r then flags
  else if flags.duty then { flags with r := 0 < args.rperc, w := 0 < args.wperc }
  else { flags with r := true }

def Flags.withPattern (flags : Flags) : Flags :=
  if flags.rptype || flags.fptype || flags.cptype || flags.lptype then flags
  else { flags with cptype := true }

def Flags.withSeekType (flags : Flags) : Flags :=
  if flags.random || flags.linear then flags else { flags with random := true }

def assumeFlags (args : ChildArgs) : ChildArgs :=
  { args with flags := (assumedOpers args).withPattern.withSeekType }

def assumedSeeks (args : ChildArgs) : Int :=
  let flags := args.flags
  let seeks :=
    if args.startBlk = args.stopBlk then seeksDefault
    else if flags.blkRng || flags.lbaRng then args.stopBlk - args.startBlk + 1
    else if 0 < args.vsiz then perSize args.vsiz args.htrsiz else seeksDefault
  if flags.linear && flags.r && flags.w then seeks * 2 else seeks

def assumeSeeks (args : ChildArgs) : ChildArgs :=
  let args := if args.flags.sks then args else { args with seeks := assumedSeeks args }
  if args.flags.sks || args.flags.tmd then args
  else { args with flags := { args.flags with sks := true } }

def assumeDirection (args : ChildArgs) : ChildArgs :=
  let flags := args.flags
  if flags.linear && !(flags.lunu || flags.lund) then
    { args with flags := { flags with lunu := true } }
  else args

def givenPercs (args : ChildArgs) : Int × Int :=
  let flags := args.flags
  if flags.r && !flags.w then (100, 0)
  else if flags.w && !flags.r then (0, 100)
  else if args.rperc = 0 && args.wperc = 0 then (50, 50)
  else if args.rperc = 0 then (100 - args.wperc, args.wperc)
  else if args.wperc = 0 then (args.rperc, 100 - args.rperc)
  else (args.rperc, args.wperc)

def normalizePercs (args : ChildArgs) : ChildArgs :=
  let percs := givenPercs args
  let i := 100 - (percs.1 + percs.2)
  let j := i.tdiv 2
  if args.flags.r && args.flags.w then
    { args with rperc := percs.1 + (i - j), wperc := percs.2 + j }
  else { args with rperc := percs.1, wperc := percs.2 }

def assumeDuty (args : ChildArgs) : ChildArgs :=
  let flags := args.flags
  if flags.random && !flags.ntrlvd then { args with flags := { flags with duty := true } } else args

def makeAssumptions (o : Outside) (args : ChildArgs) : ChildArgs :=
  let args := assumeKids (assumeStopBlk (assumeStopLba
    (assumeVolume o (assumeLbas (assumeBlocks (assumeSize args))))))
  assumeDuty (normalizePercs (assumeDirection (assumeSeeks (assumeFlags args))))

section laws
variable (args : ChildArgs)

theorem assume_size_eq (one : args.htrsiz = args.ltrsiz) :
    assumeSize args = { args with ltrsiz := max args.ltrsiz 1, htrsiz := max args.ltrsiz 1 } := by
  unfold assumeSize
  split
  · rename_i unset
    simp [unset, trsizDefault]
  · have same : max args.ltrsiz 1 = args.ltrsiz := by omega
    rw [same]
    exact congrArg (fun htrsiz => { args with htrsiz }) one

theorem assume_volume_positive (o : Outside) : 0 < assumedVsiz o args := by
  unfold assumedVsiz vsizDefault
  repeat' split
  all_goals omega

theorem assume_kids_positive : ∃ kids, 1 ≤ kids ∧ assumeKids args = { args with tKids := kids } := by
  unfold assumeKids
  split
  · exact ⟨kidsDefault, by decide, rfl⟩
  · exact ⟨args.tKids, by omega, rfl⟩

theorem with_pattern_only (flags : Flags) :
    ∃ cptype, flags.withPattern = { flags with cptype } := by
  unfold Flags.withPattern
  split
  · exact ⟨flags.cptype, rfl⟩
  · exact ⟨true, rfl⟩

theorem assume_flags_pattern (some : (args.flags.w || args.flags.r) = true)
    (seek : (args.flags.random || args.flags.linear) = true) : ∃ cptype,
    assumeFlags args = { args with flags := { args.flags with cptype } } := by
  obtain ⟨cptype, only⟩ := with_pattern_only args.flags
  refine ⟨cptype, ?_⟩
  rw [assumeFlags, assumedOpers, if_pos some, only, Flags.withSeekType, if_pos seek]

theorem assume_seeks_eq (free : args.flags.sks = false) (untimed : args.flags.tmd = false) :
    assumeSeeks args = { args with seeks := assumedSeeks args, flags := { args.flags with sks := true } } := by
  simp [assumeSeeks, free, untimed]

theorem assume_direction_up (linear : args.flags.linear = true) (up : args.flags.lund = false) :
    assumeDirection args = { args with flags := { args.flags with lunu := true } } := by
  unfold assumeDirection
  cases same : args.flags.lunu with
  | true =>
    have there : (args.flags.linear && !(args.flags.lunu || args.flags.lund)) = false := by
      simp [same]
    dsimp only
    rw [same] at there
    rw [same, there]
    exact congrArg (fun lunu => { args with flags := { args.flags with lunu } }) same
  | false => simp [linear, up, same]

theorem normalize_percs_only : ∃ rperc wperc, normalizePercs args = { args with rperc, wperc } := by
  unfold normalizePercs
  dsimp only
  split
  · exact ⟨_, _, rfl⟩
  · exact ⟨_, _, rfl⟩

def Flags.kind (flags : Flags) : List Bool :=
  [flags.linear, flags.ntrlvd, flags.tmd, flags.rtrsiz, flags.lund]

theorem assumed_flags_kind : (assumeFlags args).flags.kind = args.flags.kind := by
  have opers : (assumedOpers args).kind = args.flags.kind := by
    unfold assumedOpers
    dsimp only
    repeat' split
    all_goals rfl
  obtain ⟨cptype, withPattern⟩ := with_pattern_only (assumedOpers args)
  have seeks : ∀ flags : Flags, flags.withSeekType.kind = flags.kind := by
    intro flags
    unfold Flags.withSeekType
    split <;> rfl
  rw [assumeFlags, seeks, withPattern]
  exact opers

theorem volume_stages_flags (o : Outside) : (assumeKids (assumeStopBlk (assumeStopLba
    (assumeVolume o (assumeLbas (assumeBlocks (assumeSize args))))))).flags = args.flags := by
  have kids : ∀ args, (assumeKids args).flags = args.flags := by
    intro args
    unfold assumeKids
    split <;> rfl
  have stopBlk : ∀ args, (assumeStopBlk args).flags = args.flags := by
    intro args
    unfold assumeStopBlk
    split <;> rfl
  have stopLba : ∀ args, (assumeStopLba args).flags = args.flags := by
    intro args
    unfold assumeStopLba
    split <;> rfl
  have volume : ∀ args, (assumeVolume o args).flags = args.flags := fun _ => rfl
  have lbas : ∀ args, (assumeLbas args).flags = args.flags := by
    intro args
    unfold assumeLbas
    split <;> rfl
  have blocks : ∀ args, (assumeBlocks args).flags = args.flags := by
    intro args
    unfold assumeBlocks
    split <;> rfl
  have size : (assumeSize args).flags = args.flags := by
    unfold assumeSize
    split <;> rfl
  rw [kids, stopBlk, stopLba, volume, lbas, blocks, size]

theorem make_assumptions_kind (o : Outside) :
    (makeAssumptions o args).flags.kind = args.flags.kind := by
  have seeks : ∀ args, (assumeSeeks args).flags.kind = args.flags.kind := by
    intro args
    unfold assumeSeeks
    dsimp only
    repeat' split
    all_goals rfl
  have direction : ∀ args, (assumeDirection args).flags.kind = args.flags.kind := by
    intro args
    unfold assumeDirection
    dsimp only
    split <;> rfl
  have percs : ∀ args, (normalizePercs args).flags = args.flags := by
    intro args
    obtain ⟨rperc, wperc, only⟩ := normalize_percs_only args
    rw [only]
  have duty : ∀ args, (assumeDuty args).flags.kind = args.flags.kind := by
    intro args
    unfold assumeDuty
    dsimp only
    split <;> rfl
  rw [makeAssumptions, duty, percs, direction, seeks, assumed_flags_kind, volume_stages_flags]

end laws
end assumptions

section conclusions

def refusals (o : Outside) (args : ChildArgs) : List Bool :=
  let flags := args.flags
  let noRange := !(flags.blkRng || flags.lbaRng)
  [flags.duty && (flags.linear || flags.ntrlvd), flags.blkRng && flags.rtrsiz,
    args.vsiz < 0 || args.ltrsiz < 1 || args.htrsiz < 1,
    args.htrsiz < args.ltrsiz,
    args.vsiz < args.stopLba - args.startLba + 1,
    u64 args.vsiz < args.htrsiz,
    !flags.tmd && args.seeks ≤ 0,
    flags.sks && args.seeks < args.tKids,
    args.vsiz < args.startBlk && noRange,
    args.vsiz < args.stopBlk && noRange,
    args.vsiz < args.startLba && noRange,
    args.vsiz < args.stopLba && noRange,
    args.stopBlk < args.startBlk,
    args.stopLba < args.startLba,
    flags.lbaRng && flags.blkRng,
    !o.kindFits,
    0 < args.hbeat && flags.tmd && args.runTime < args.hbeat,
    0 < args.hbeat && !flags.prftyps,
    flags.tmd && flags.sks,
    flags.r && !flags.w && flags.errMark,
    !flags.alldie && flags.errMark,
    o.kill && !flags.alldie,
    flags.linear && !flags.ntrlvd && flags.tmd,
    flags.cmpr && args.ltrsiz * blkSize < args.cmpLng,
    flags.offset && args.stopLba < args.offset,
    flags.offset && u64 args.stopLba < u64 (args.offset + args.ltrsiz - 1)]

def checkConclusions (o : Outside) (args : ChildArgs) : Bool := (refusals o args).all (!·)

def Accepted (o : Outside) (given args : ChildArgs) : Prop :=
  makeAssumptions o given = args ∧ checkConclusions o args = true

instance (o : Outside) (given args : ChildArgs) : Decidable (Accepted o given args) :=
  inferInstanceAs (Decidable (_ ∧ _))

theorem not_refused {o : Outside} {given args : ChildArgs} (accepted : Accepted o given args)
    (refusal : Bool) (member : refusal ∈ refusals o args) : refusal = false := by
  have passed := List.all_eq_true.mp accepted.2 refusal member
  simpa using passed

theorem accepted_sizes {o : Outside} {given args : ChildArgs} (accepted : Accepted o given args) :
    0 ≤ args.vsiz ∧ 1 ≤ args.ltrsiz ∧ args.ltrsiz ≤ args.htrsiz := by
  have bounds := not_refused accepted (args.vsiz < 0 || args.ltrsiz < 1 || args.htrsiz < 1)
    (by simp [refusals])
  have order := not_refused accepted (args.htrsiz < args.ltrsiz) (by simp [refusals])
  simp only [Bool.or_eq_false_iff, decide_eq_false_iff_not] at bounds order
  omega

end conclusions
end VteDisktest
