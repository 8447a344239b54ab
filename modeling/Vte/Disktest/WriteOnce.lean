import Vte.Disktest.InRangeRuns
import Vte.Disktest.LinearPass

/-!
The blocks that a pass writes with `CLD_FLG_WRITE_ONCE`. The bitmap says which blocks are done, and a
write goes on unless all of its blocks are. Where a transfer is never done in part, and no write that
is done is let through, no block is written twice.
-/
namespace VteDisktest
open CInt

inductive OnceAct where
  | thread (act : PassAct)
  /-- The read pass behind a write pass; the bitmap is kept. -/
  | reads

def onceStep (args : ChildArgs) (mask : Nat) : OnceAct → PassState → Option PassState
  | .thread act, s => passStep args mask act s
  | .reads, s =>
    if args.flags.has .writes && args.flags.has .reads && s.flying.isEmpty then
      some { s with env := TestPass.start args .reads s.env, live := args.tKids }
    else none

def WrittenOnce (log : List Action) : Prop :=
  log.Pairwise fun a b =>
    ∀ lba, a.covers lba → b.covers lba → ¬ (a.oper = .writer ∧ b.oper = .writer)

section condition
variable (args : ChildArgs)

def Indexed (target : Action) : Prop :=
  0 ≤ bitIndex args target 0 ∧ bitIndex args target target.trsiz ≤ 18446744073709551616

instance (target : Action) : Decidable (Indexed args target) :=
  inferInstanceAs (Decidable (_ ∧ _))

def Whole (env : TestEnv) (target : Action) : Prop :=
  ∀ i < target.trsiz, ∀ j < target.trsiz,
    env.wbitmap (u64 (bitIndex args target i)) = env.wbitmap (u64 (bitIndex args target j))

instance (env : TestEnv) (target : Action) : Decidable (Whole args env target) :=
  inferInstanceAs (Decidable (∀ i < target.trsiz, ∀ j < target.trsiz,
    env.wbitmap (u64 (bitIndex args target i)) = env.wbitmap (u64 (bitIndex args target j))))

def StartsBehind (flying : List Action) (target : Action) : Prop :=
  ∀ f ∈ flying, f.oper = .writer → f.lba < target.lba → f.lba + f.trsiz ≤ target.lba

instance (flying : List Action) (target : Action) : Decidable (StartsBehind flying target) :=
  inferInstanceAs (Decidable (∀ _ ∈ _, _ → _ → _))

structure Fresh (flying : List Action) (p : Proposal) : Prop where
  counted : p.target.Counted
  indexed : Indexed args p.target
  behind : StartsBehind flying p.target
  whole : Whole args p.env p.target
  undone : blkWritten args p.env p.target = false

instance (flying : List Action) (p : Proposal) : Decidable (Fresh args flying p) :=
  decidable_of_iff (p.target.Counted ∧ Indexed args p.target ∧ StartsBehind flying p.target ∧
      Whole args p.env p.target ∧ blkWritten args p.env p.target = false)
    ⟨fun ⟨counted, indexed, behind, whole, undone⟩ => ⟨counted, indexed, behind, whole, undone⟩,
      fun fresh => ⟨fresh.counted, fresh.indexed, fresh.behind, fresh.whole, fresh.undone⟩⟩

def GoesOnFresh (flying : List Action) (p : Proposal) : Prop :=
  limited args p = false → actionInUse (p.target.setOper .writer) p.env.actionList = false →
    .writer ∈ (args.flags.settle p.target.oper (blkWritten args p.env p.target)).oper
      p.target.oper → Fresh args flying p

instance (flying : List Action) (p : Proposal) : Decidable (GoesOnFresh args flying p) :=
  inferInstanceAs (Decidable (_ → _ → _ → _))

def FindsFresh (mask : Nat) : OnceAct → PassState → Prop
  | .thread (.next draws), s => ∀ p ∈ propose args mask draws s.env, GoesOnFresh args s.flying p
  | _, _ => True

instance (mask : Nat) : (act : OnceAct) → (s : PassState) → Decidable (FindsFresh args mask act s)
  | .thread (.next draws), s =>
    inferInstanceAs (Decidable (∀ p ∈ propose args mask draws s.env, GoesOnFresh args s.flying p))
  | .thread (.complete _), _ => isTrue trivial
  | .reads, _ => isTrue trivial

end condition

section bitmap
variable {args : ChildArgs} {mask : Nat} {draws : Draws} {env : TestEnv} {p : Proposal}

theorem move_to_bitmap (env : TestEnv) (oper : Op) (lba : Int) :
    (env.moveTo oper lba).wbitmap = env.wbitmap := by
  unfold TestEnv.moveTo
  split <;> rfl

theorem linear_lba_bitmap (args : ChildArgs) (oper : Op) (trsiz : Nat) (env : TestEnv) :
    (linearLba args oper trsiz env).env.wbitmap = env.wbitmap := by
  unfold linearLba
  split
  · exact move_to_bitmap env oper _
  · split
    · rfl
    · split
      · unfold wrapAround
        extract_lets q
        split <;> exact move_to_bitmap env oper _
      · split
        · unfold turnAround
          extract_lets state q
          split <;> exact move_to_bitmap _ oper _
        · rfl

theorem propose_bitmap (proposed : propose args mask draws env = some p) :
    p.env.wbitmap = env.wbitmap := by
  obtain ⟨trsiz, -, picked⟩ := Option.bind_eq_some_iff.mp proposed
  unfold pickLba at picked
  split at picked
  · obtain rfl := Option.some.inj picked
    rfl
  · split at picked
    · obtain rfl := Option.some.inj picked
      exact linear_lba_bitmap args _ trsiz env
    · split at picked
      · obtain ⟨lba, -, rfl⟩ := Option.map_eq_some_iff.mp picked
        rfl
      · obtain rfl := Option.some.inj picked
        rfl

theorem record_bitmap (recorded : record args p = some env) : env.wbitmap = p.env.wbitmap := by
  unfold record at recorded
  split at recorded
  · exact (listed_same recorded).2.2.2.2
  · exact (listed_same recorded).2.2.2.2
  · obtain rfl := Option.some.inj recorded
    rfl

theorem next_effect (sync : args.flags.lbaSync = true) (positive : 1 ≤ args.ltrsiz)
    {result : TestEnv × Action} (got : getNextAction args mask draws env = some result) :
    ∃ p, propose args mask draws env = some p ∧ result.2 = (p.checked args).target ∧
      p.env.actionList = env.actionList ∧ p.env.wbitmap = env.wbitmap ∧
      result.1.wbitmap = env.wbitmap ∧
      result.1.actionList =
        if result.2.oper.performed then env.actionList ++ [result.2] else env.actionList := by
  obtain ⟨p, proposed, taken⟩ := Option.bind_eq_some_iff.mp got
  obtain ⟨env', recorded, rfl⟩ := Option.map_eq_some_iff.mp taken
  obtain ⟨list, -, -, -⟩ := propose_keeps positive proposed
  obtain ⟨-, added⟩ := record_lists sync recorded
  have bitmap := propose_bitmap proposed
  refine ⟨p, proposed, rfl, list, bitmap, ?_, ?_⟩
  · rw [record_bitmap recorded, (checked_keeps args p).2.2.1, bitmap]
  · dsimp only
    split
    · rename_i performed
      rw [if_pos performed] at added
      rw [added, (checked_keeps args p).1, list]
    · rename_i idle
      rw [if_neg idle] at added
      rw [added, (checked_keeps args p).1, list]

theorem writer_source (sync : args.flags.lbaSync = true)
    (writer : (p.checked args).target.oper = .writer) :
    limited args p = false ∧ actionInUse (p.target.setOper .writer) p.env.actionList = false ∧
      .writer ∈ (args.flags.settle p.target.oper (blkWritten args p.env p.target)).oper
        p.target.oper ∧
      (p.checked args).target = p.target.setOper .writer ∧
      ∀ e ∈ p.env.actionList, hits p.target e = false := by
  obtain ⟨within, free, source⟩ := checked_performed sync (by rw [writer]; rfl)
  refine ⟨within, ?_⟩
  cases settle : args.flags.settle p.target.oper (blkWritten args p.env p.target) with
  | keep =>
    rw [settle] at source
    rw [source] at writer ⊢
    have same : p.target = p.target.setOper .writer := by rw [Action.setOper, ← writer]
    rw [← same]
    exact ⟨free, by rw [writer]; rfl, rfl, writer_free writer free⟩
  | restart =>
    rw [settle] at source
    obtain ⟨-, -, -, reader⟩ := settle_restart settle
    rw [source] at writer
    change p.target.oper = .writer at writer
    rw [reader] at writer
    cases writer
  | wait =>
    rw [settle] at source
    exact source.elim
  | write =>
    rw [settle] at source
    rw [source.1]
    have clear : ∀ e ∈ p.env.actionList, hits (p.target.setOper .writer) e = false :=
      writer_free rfl source.2
    exact ⟨source.2, rfl, rfl, clear⟩
  | read =>
    rw [settle] at source
    rw [source] at writer
    cases writer

end bitmap

section invariant
variable {args : ChildArgs} {mask : Nat} {s t : PassState}

/-- The list has the places in flight, and the bitmap has the writes that are done. -/
structure OnceInv (args : ChildArgs) (s : PassState) : Prop where
  places : (s.env.actionList.map Action.lba).Perm (s.flying.map Action.lba)
  once : WrittenOnce s.log
  traced : ∀ a ∈ s.log, a.oper = .writer → a ∈ s.flying ∨ ∀ i < a.trsiz, s.env.wbitmap (bitIndex args a i) = true

theorem common_bit {a b : Action} {lba : Int} (here : a.covers lba) (there : b.covers lba) :
    ∃ i < a.trsiz, ∃ j < b.trsiz, bitIndex args a i = bitIndex args b j := by
  obtain ⟨low, high⟩ := here
  obtain ⟨low', high'⟩ := there
  refine ⟨(lba - a.lba).toNat, by omega, (lba - b.lba).toNat, by omega, ?_⟩
  unfold bitIndex
  omega

theorem fresh_unmarked {flying : List Action} {p : Proposal} (fresh : Fresh args flying p) {i : Nat}
    (inside : i < p.target.trsiz) : p.env.wbitmap (bitIndex args p.target i) = false := by
  have undone := fresh.undone
  unfold blkWritten at undone
  simp only [Bool.or_eq_false_iff, List.all_eq_false, List.mem_range] at undone
  obtain ⟨-, j, within, unmarked⟩ := undone
  have same := fresh.whole i inside j within
  rw [Bool.not_eq_true] at unmarked
  obtain ⟨low, high⟩ := fresh.indexed
  have index : u64 (bitIndex args p.target i) = bitIndex args p.target i := by
    unfold bitIndex at low high ⊢
    exact u64_small (by omega) (by omega)
  rw [← index, same, unmarked]

theorem fresh_apart_flying {entries flying : List Action} {p : Proposal}
    (fresh : Fresh args flying p)
    (places : (entries.map Action.lba).Perm (flying.map Action.lba))
    (clear : ∀ e ∈ entries, hits p.target e = false) {f : Action} (flies : f ∈ flying)
    (writer : f.oper = .writer) {lba : Int} (here : f.covers lba) : ¬ p.target.covers lba := by
  rintro ⟨low, high⟩
  obtain ⟨low', high'⟩ := here
  by_cases inside : f.lba < p.target.lba
  · have behind := fresh.behind f flies writer inside
    omega
  · obtain ⟨e, listed, same⟩ := List.mem_map.mp (places.symm.subset (List.mem_map_of_mem flies))
    have hit := start_inside_hit (e := e) fresh.counted (by omega) (by omega)
    rw [clear e listed] at hit
    cases hit

theorem erase_places {entries flying : List Action} {target : Action}
    (places : (entries.map Action.lba).Perm (flying.map Action.lba)) (flies : target ∈ flying) :
    ((entries.eraseP (·.lba == target.lba)).map Action.lba).Perm
      ((flying.erase target).map Action.lba) := by
  obtain ⟨first, found, same⟩ := List.mem_map.mp (places.symm.subset (List.mem_map_of_mem flies))
  obtain ⟨e, before, after, _, start, split, erased⟩ :=
    List.exists_of_eraseP (p := fun a => a.lba == target.lba) found (by simp [same])
  rw [beq_iff_eq] at start
  have listed : (entries.map Action.lba).Perm
      (target.lba :: (before ++ after).map Action.lba) := by
    rw [split, List.map_append, List.map_cons, start, List.map_append]
    exact List.perm_middle
  have landed : (flying.map Action.lba).Perm
      (target.lba :: (flying.erase target).map Action.lba) :=
    (List.perm_cons_erase flies).map Action.lba
  rw [erased]
  exact ((listed.symm.trans places).trans landed).cons_inv

theorem same_once {env : TestEnv} {live : Nat} (inv : OnceInv args s)
    (list : env.actionList = s.env.actionList) (bitmap : env.wbitmap = s.env.wbitmap) :
    OnceInv args { s with env, live } where
  places := by rw [list]; exact inv.places
  once := inv.once
  traced := by rw [bitmap]; exact inv.traced

theorem handed_once {env : TestEnv} {target : Action} (inv : OnceInv args s)
    (list : env.actionList = s.env.actionList ++ [target]) (bitmap : env.wbitmap = s.env.wbitmap)
    (apart : target.oper = .writer → ∀ a ∈ s.log, a.oper = .writer → ∀ lba, a.covers lba → ¬ target.covers lba) :
    OnceInv args { s with env, flying := target :: s.flying, log := s.log ++ [target] } where
  places := by
    rw [list, List.map_append, List.map_cons]
    exact (List.perm_append_singleton _ _).trans (inv.places.cons _)
  once := by
    refine List.pairwise_append.mpr ⟨inv.once, List.pairwise_singleton _ _, ?_⟩
    intro a logged b last lba here there both
    obtain rfl := List.mem_singleton.mp last
    exact apart both.2 a logged both.1 lba here there
  traced := by
    intro a logged writer
    rw [bitmap]
    rcases List.mem_append.mp logged with old | new
    · rcases inv.traced a old writer with flies | marked
      · exact .inl (List.mem_cons_of_mem _ flies)
      · exact .inr marked
    · exact .inl (by rw [List.mem_singleton.mp new]; exact List.mem_cons_self ..)

theorem next_once (sync : args.flags.lbaSync = true) (positive : 1 ≤ args.ltrsiz) {draws : Draws}
    {result : TestEnv × Action} (inv : OnceInv args s)
    (finds : FindsFresh args mask (.thread (.next draws)) s)
    (got : getNextAction args mask draws s.env = some result) : OnceInv args (hand result s) := by
  obtain ⟨p, proposed, target, list, bitmap, bitmap', list'⟩ := next_effect sync positive got
  have places := inv.places
  rw [← list] at places
  have apart : result.2.oper = .writer → ∀ a ∈ s.log, a.oper = .writer →
      ∀ lba, a.covers lba → ¬ result.2.covers lba := by
    intro writer a logged wrote lba here there
    rw [target] at writer
    obtain ⟨within, free, goes, same, clear⟩ := writer_source sync writer
    have fresh := finds p proposed within free goes
    rw [target, same] at there
    rcases inv.traced a logged wrote with flies | marked
    · exact fresh_apart_flying fresh places clear flies wrote here there
    · obtain ⟨i, inside, j, inside', common⟩ := common_bit here there
      have unmarked := fresh_unmarked fresh inside'
      rw [bitmap] at unmarked
      change s.env.wbitmap (bitIndex args (p.target.setOper .writer) j) = false at unmarked
      rw [← common, marked i inside] at unmarked
      cases unmarked
  unfold hand
  cases oper : result.2.oper with
  | none =>
    rw [oper] at list'
    exact same_once inv list' bitmap'
  | retry =>
    rw [oper] at list'
    exact same_once inv list' bitmap'
  | writer =>
    rw [oper] at list'
    exact handed_once inv list' bitmap' apart
  | reader =>
    rw [oper] at list'
    exact handed_once inv list' bitmap' apart

theorem complete_once (sync : args.flags.lbaSync = true) {target : Action} {env : TestEnv}
    {done : List Action} (inv : OnceInv args s) (flies : target ∈ s.flying)
    (completed : completeIo args target s.env = some env) :
    OnceInv args { s with env, flying := s.flying.erase target, done } := by
  obtain rfl := remove_spec sync completed
  have list : (if target.oper = .writer then markWritten args target s.env
      else s.env).actionList = s.env.actionList := by split <;> rfl
  refine ⟨?_, inv.once, ?_⟩
  · dsimp only
    rw [list]
    exact erase_places inv.places flies
  · intro a logged writer
    dsimp only
    rcases inv.traced a logged writer with flying | marked
    · by_cases same : a = target
      · right
        intro i inside
        have low : bitIndex args a 0 ≤ bitIndex args a i := by
          unfold bitIndex
          omega
        have high : bitIndex args a i < bitIndex args a a.trsiz := by
          unfold bitIndex
          omega
        rw [← same, if_pos writer]
        simp [markWritten, low, high]
      · left
        exact (List.mem_erase_of_ne same).mpr flying
    · right
      intro i inside
      split
      · simp [markWritten, marked i inside]
      · exact marked i inside

theorem step_once (sync : args.flags.lbaSync = true) (positive : 1 ≤ args.ltrsiz) (act : OnceAct)
    (s t : PassState) (inv : OnceInv args s) (finds : FindsFresh args mask act s)
    (taken : onceStep args mask act s = some t) : OnceInv args t := by
  match act, finds with
  | .thread (.next draws), finds =>
    rw [onceStep, passStep] at taken
    split at taken
    · obtain ⟨result, got, rfl⟩ := Option.map_eq_some_iff.mp taken
      exact next_once sync positive inv finds got
    · cases taken
  | .thread (.complete target), _ =>
    rw [onceStep, passStep] at taken
    split at taken
    · rename_i flies
      obtain ⟨env, completed, rfl⟩ := Option.map_eq_some_iff.mp taken
      exact complete_once sync inv flies completed
    · cases taken
  | .reads, _ =>
    rw [onceStep] at taken
    split at taken
    · rename_i ready
      simp only [Bool.and_eq_true, List.isEmpty_iff] at ready
      obtain ⟨⟨writes, reads⟩, landed⟩ := ready
      obtain rfl := Option.some.inj taken
      have kept : (TestPass.start args .reads s.env).wbitmap = s.env.wbitmap := by
        simp only [Flags.has, Bool.and_eq_true] at writes
        rw [TestPass.start, writes.2, if_pos rfl]
        rfl
      refine ⟨?_, inv.once, ?_⟩
      · rw [landed]
        rfl
      · rw [kept]
        exact inv.traced
    · cases taken

theorem start_once (pass : TestPass) (env : TestEnv) :
    OnceInv args (passStart args (pass.start args env)) where
  places := by cases pass <;> rfl
  once := List.Pairwise.nil
  traced := by simp [passStart]

end invariant

section worm

def wormGiven : ChildArgs where
  device := { name := [0x64], short := one_letter_short }
  vsiz := 8
  ltrsiz := 1
  htrsiz := 4
  tKids := 2
  flags := { vsiz := true, rtrsiz := true, random := true, w := true, lbaSync := true, writeOnce := true }

def worm : ChildArgs := makeAssumptions plainFile wormGiven

theorem worm_accepted : Accepted plainFile wormGiven worm := by decide

def writeNext (rand lba : Nat) : OnceAct := .thread (.next { sizes := [rand], lbas := [lba] })

def writeDone (trsiz : Nat) (lba : Int) : OnceAct :=
  .thread (.complete { oper := .writer, trsiz, lba })

end worm
end VteDisktest
