import Vte.Lib.LioAsync

/-!
Runs of an asynchronous `lio_write_buffer` or `lio_read_buffer`: no run waits for ever, and where the
signal, the mask and the interruptions are as `Clean` says, the result and the mask are right.
-/
namespace VteLio
open CInt Machine

def Holds (c : Call) : Prop := c.sig ≠ 0 ∧ catchable c.sig = true

instance (c : Call) : Decidable (Holds c) :=
  inferInstanceAs (Decidable (c.sig ≠ 0 ∧ catchable c.sig = true))

def Truthful (c : Call) (s : State) (ret : Int) : Prop :=
  match s.request with
  | .unsubmitted => ret = -s.errno
  | .inProgress => False
  | .done (.transferred n) => ret = n
  | .done (.failed errno) => ret = -errno ∨ (c.io = .slistio ∧ ret = -eio)

def Completed (s : State) : Prop := ∃ o, s.request = .done o

def Pc.Ended : Pc → Prop
  | .returned _ => True
  | .gone => True
  | _ => False

def Act.Own : Act → Prop
  | .complete _ | .generate | .deliver | .callback | .crash => False
  | _ => True

def Pc.rank : Pc → Nat
  | .ready => 5
  | .held => 4
  | .listing | .suspended | .active | .paused | .spinning => 3
  | .check => 2
  | .polling _ => 1
  | .returned _ | .synchronous | .gone => 0

/-- `aio_error` has said that the request was still in progress. -/
def Pc.looped : Pc → Bool
  | .polling cnt => 1 < cnt
  | _ => false

def Request.count : Request → Nat
  | .done (.transferred n) => n
  | _ => 0

def Request.hasFailed : Request → Bool
  | .done (.failed _) => true
  | _ => false

def Clean (c : Call) (entry : Finset Int) (act : Act) (s : State) : Prop :=
  match act with
  | .crash => False
  | .submit (some _) => Holds c → c.sig ∉ entry
  | .listed .done => s.request.hasFailed = true → Holds c → c.sig ∉ entry
  | .listed (.fails _) => False
  | .resumed (.fails errno) => errno = eintr ∧ c.aiocb.sigevNotify = .signal
  | .release => Holds c → (c.sig ∈ entry ↔ c.aiocb.sigevNotify ≠ .signal)
  | .aioError => s.pc.looped = true → s.request.count = 0
  | _ => True

instance (c : Call) (entry : Finset Int) (act : Act) (s : State) : Decidable (Clean c entry act s) :=
  match act with
  | .crash => isFalse id
  | .submit (some _) => inferInstanceAs (Decidable (Holds c → c.sig ∉ entry))
  | .submit none => isTrue trivial
  | .listed .done =>
    inferInstanceAs (Decidable (s.request.hasFailed = true → Holds c → c.sig ∉ entry))
  | .listed (.fails _) => isFalse id
  | .resumed (.fails errno) =>
    inferInstanceAs (Decidable (errno = eintr ∧ c.aiocb.sigevNotify = .signal))
  | .resumed .done => isTrue trivial
  | .release =>
    inferInstanceAs (Decidable (Holds c → (c.sig ∈ entry ↔ c.aiocb.sigevNotify ≠ .signal)))
  | .aioError => inferInstanceAs (Decidable (s.pc.looped = true → s.request.count = 0))
  | .complete _ | .generate | .deliver | .callback | .hold | .pauseEnds | .spin => isTrue trivial

structure Good (c : Call) (entry : Finset Int) (s : State) : Prop where
  result : ∀ ret, s.pc = .returned ret → Truthful c s ret
  mask : ∀ ret, s.pc = .returned ret → s.mask = entry
  moves : Completed s → s.pc.Ended ∨ ∃ act t, act.Own ∧ step c act s = some t
  falls : Completed s → ∀ act t, act.Own → step c act s = some t → t.pc.rank < s.pc.rank

def Wired (c : Call) : Prop :=
  c.aiocb.sigevNotify = .signal → c.aiocb.sigevSigno = c.sig ∧ c.sig ≠ 0

theorem setup_wired {args : Args} : Wired (setup args) := by
  intro signal
  change notifyOf (usedMethod args) (usedSignal (usedMethod args) args.sig) = .signal at signal
  constructor
  · change (if notifyOf (usedMethod args) (usedSignal (usedMethod args) args.sig) = .signal
      then usedSignal (usedMethod args) args.sig else 0) = usedSignal (usedMethod args) args.sig
    rw [if_pos signal]
  · change usedSignal (usedMethod args) args.sig ≠ 0
    rw [notifyOf] at signal
    split at signal
    · rename_i used
      exact used.1
    · split at signal <;> cases signal

def setupMask (c : Call) (entry : Finset Int) : Finset Int :=
  if c.aiocb.sigevNotify = .signal then sigset c.sig entry else entry

def heldMask (c : Call) (entry : Finset Int) : Finset Int :=
  if Holds c then insert c.sig entry else entry

section mask
variable {c : Call} {entry : Finset Int}

theorem hold_mask (wired : Wired c) :
    (if c.sig ≠ 0 then sighold c.sig (setupMask c entry) else setupMask c entry) = heldMask c entry := by
  by_cases holds : Holds c
  · obtain ⟨used, taken⟩ := holds
    rw [if_pos used, sighold, if_pos taken, heldMask, if_pos ⟨used, taken⟩, setupMask]
    split
    · rw [sigset, if_pos taken]
      ext sig
      simp only [Finset.mem_insert, Finset.mem_erase]
      tauto
    · rfl
  · have unset : setupMask c entry = entry := by
      rw [setupMask]
      split
      · rename_i signal
        have refused : ¬ catchable c.sig = true := fun taken => holds ⟨(wired signal).2, taken⟩
        rw [sigset, if_neg refused]
      · rfl
    rw [unset, heldMask, if_neg holds]
    split
    · rename_i used
      rw [sighold, if_neg (fun taken => holds ⟨used, taken⟩)]
    · rfl

theorem fails_mask (clean : Holds c → c.sig ∉ entry) :
    (if c.sig ≠ 0 then sigrelse c.sig (heldMask c entry) else heldMask c entry) = entry := by
  by_cases holds : Holds c
  · rw [if_pos holds.1, sigrelse, if_pos holds.2, heldMask, if_pos holds, Finset.erase_insert (clean holds)]
  · rw [heldMask, if_neg holds]
    split
    · rename_i used
      rw [sigrelse, if_neg (fun taken => holds ⟨used, taken⟩)]
    · rfl

theorem release_mask (wired : Wired c)
    (clean : Holds c → (c.sig ∈ entry ↔ c.aiocb.sigevNotify ≠ .signal)) :
    (if c.aiocb.sigevNotify = .signal then sigrelse c.aiocb.sigevSigno (heldMask c entry)
      else heldMask c entry) = entry := by
  by_cases holds : Holds c
  · have known := clean holds
    split
    · rename_i signal
      have unblocked : c.sig ∉ entry := fun blocked => known.mp blocked signal
      rw [(wired signal).1, sigrelse, if_pos holds.2, heldMask, if_pos holds, Finset.erase_insert unblocked]
    · rename_i silent
      rw [heldMask, if_pos holds, Finset.insert_eq_of_mem (known.mpr silent)]
  · rw [heldMask, if_neg holds]
    split
    · rename_i signal
      obtain ⟨same, used⟩ := wired signal
      rw [same, sigrelse, if_neg (fun taken => holds ⟨used, taken⟩)]
    · rfl

end mask

/-- On Linux every wait is `aio_suspend` or the loop on `aio_error`: `LIO_WAIT_TYPES` is
    `LIO_WAIT_ACTIVE`, and a method word without it is taken for one without a wait method. -/
theorem wait_suspends_or_polls (c : Call) (s : State) :
    lioWait4asyncio c s = { s with pc := .suspended } ∨ lioWait4asyncio c s = { s with pc := .active } := by
  rw [lioWait4asyncio]
  split
  · exact Or.inl rfl
  · rename_i waits
    have active : Has c.method lioWaitActive := by
      by_contra idle
      exact waits (Or.inr (Or.inr (Or.inr idle)))
    rw [if_pos active]
    exact Or.inr rfl

def At (c : Call) (entry : Finset Int) (s : State) : Pc → Prop
  | .ready => s.request = .unsubmitted ∧ s.mask = setupMask c entry
  | .held => s.request = .unsubmitted ∧ s.mask = heldMask c entry
  | .listing => c.io = .slistio ∧ s.request ≠ .unsubmitted ∧ s.mask = heldMask c entry
  | .suspended | .active | .check => s.request ≠ .unsubmitted ∧ s.mask = heldMask c entry
  | .polling _ => s.request ≠ .unsubmitted ∧ s.mask = entry
  | .returned ret => Truthful c s ret ∧ s.mask = entry
  | .paused | .spinning => False
  | .synchronous => s.request = .unsubmitted
  | .gone => True

structure Inv (c : Call) (entry : Finset Int) (s : State) : Prop where
  counted : ∀ n, s.request = .done (.transferred n) → n ≤ 0x7ffff000
  here : At c entry s s.pc

section runs
variable {args : Args} {c : Call} {entry : Finset Int} {received callbacks : Nat}

theorem start_inv : Inv (setup args) entry (start args entry received callbacks) := by
  refine ⟨nofun, ?_⟩
  by_cases failed : int32 args.seek = -1 ∧ args.seekErrno ≠ espipe
  · simp only [start, if_pos failed]
    exact ⟨rfl, rfl⟩
  · by_cases asynchronous :
        (setup args).io = .async ∨ (setup args).io = .slistio ∨ (setup args).io = .alistio
    · simp only [start, if_neg failed, if_pos asynchronous]
      exact ⟨rfl, rfl⟩
    · simp only [start, if_neg failed, if_neg asynchronous]
      rfl

theorem complete_inv {s : State} {o : Outcome} (inv : Inv c entry s)
    (going : s.request = .inProgress) (possible : o.Possible c.aiocb.aioNbytes) :
    Inv c entry { s with request := .done o } := by
  obtain ⟨counted, here⟩ := inv
  refine ⟨?_, ?_⟩
  · intro n same
    obtain rfl := Request.done.inj same
    exact possible.2
  · change At c entry { s with request := .done o } s.pc
    cases pc : s.pc with
    | ready =>
      rw [pc] at here
      exact absurd (going.symm.trans here.1) nofun
    | held =>
      rw [pc] at here
      exact absurd (going.symm.trans here.1) nofun
    | synchronous =>
      rw [pc] at here
      exact absurd (going.symm.trans here) nofun
    | returned ret =>
      rw [pc] at here
      have truthful := here.1
      rw [Truthful, going] at truthful
      exact truthful.elim
    | listing =>
      rw [pc] at here
      exact ⟨here.1, nofun, here.2.2⟩
    | suspended | active | check =>
      rw [pc] at here
      exact ⟨nofun, here.2⟩
    | polling cnt =>
      rw [pc] at here
      exact ⟨nofun, here.2⟩
    | paused | spinning =>
      rw [pc] at here
      exact here
    | gone => trivial

theorem call_fails_inv {s : State} {errno : Int} (counted : ∀ n, s.request = .done (.transferred n) →
      n ≤ 0x7ffff000) (masked : s.mask = heldMask c entry) (clean : Holds c → c.sig ∉ entry)
    (truthful : Truthful c { s with errno := errno } (-errno)) :
    Inv c entry (callFails c errno s) := by
  refine ⟨counted, truthful, ?_⟩
  change (if c.sig ≠ 0 then sigrelse c.sig s.mask else s.mask) = entry
  rw [masked]
  exact fails_mask clean

theorem submitted_inv {s : State} (masked : s.mask = heldMask c entry) :
    Inv c entry (submitted c s) := by
  rw [submitted]
  split
  · rename_i io
    exact ⟨nofun, io, nofun, masked⟩
  · rcases wait_suspends_or_polls c { s with request := .inProgress } with waits | waits
    · rw [waits]
      exact ⟨nofun, nofun, masked⟩
    · rw [waits]
      exact ⟨nofun, nofun, masked⟩

theorem listed_inv {s t : State} {answer : Wakeup} (inv : Inv c entry s) (pc : s.pc = .listing)
    (clean : Clean c entry (.listed answer) s)
    (taken : listed c answer s = some t) : Inv c entry t := by
  obtain ⟨counted, here⟩ := inv
  rw [pc] at here
  cases answer with
  | fails errno => exact clean.elim
  | done =>
    simp only [listed] at taken
    split at taken
    · obtain rfl := Option.some.inj taken
      exact ⟨counted, here.2⟩
    · rename_i errno request
      obtain rfl := Option.some.inj taken
      have truthful : Truthful c { s with errno := eio } (-eio) := by
        simp only [Truthful, request]
        exact Or.inr ⟨here.1, trivial⟩
      have failed : s.request.hasFailed = true := by rw [request]; rfl
      exact call_fails_inv counted here.2.2 (clean failed) truthful
    · cases taken

theorem resumed_inv {s t : State} {answer : Wakeup} (inv : Inv c entry s) (pc : s.pc = .suspended)
    (clean : Clean c entry (.resumed answer) s) (taken : resumed c answer s = some t) :
    Inv c entry t := by
  obtain ⟨counted, here⟩ := inv
  rw [pc] at here
  cases answer with
  | fails errno =>
    have expected : errno = eintr ∧ c.aiocb.sigevNotify = .signal := clean
    simp only [resumed, if_pos expected] at taken
    obtain rfl := Option.some.inj taken
    exact ⟨counted, here⟩
  | done =>
    simp only [resumed] at taken
    split at taken
    · obtain rfl := Option.some.inj taken
      exact ⟨counted, here⟩
    · cases taken

theorem check_inv {s t : State} {cnt : Nat} (inv : Inv c entry s) (pc : s.pc = .polling cnt)
    (clean : Clean c entry .aioError s) (taken : lioCheckAsyncio cnt s = some t) :
    Inv c entry t := by
  obtain ⟨counted, here⟩ := inv
  rw [pc] at here
  simp only [lioCheckAsyncio] at taken
  split at taken
  · cases taken
  · obtain rfl := Option.some.inj taken
    exact ⟨counted, here⟩
  · rename_i errno request
    obtain rfl := Option.some.inj taken
    refine ⟨counted, ?_, here.2⟩
    simp only [Truthful, request]
    exact Or.inl trivial
  · rename_i n request
    split at taken
    · rename_i looped
      obtain rfl := Option.some.inj taken
      have late : s.pc.looped = true := by
        rw [pc]
        exact decide_eq_true looped
      have empty : s.request.count = 0 := clean late
      rw [request] at empty
      change n = 0 at empty
      refine ⟨counted, ?_, here.2⟩
      simp only [Truthful, request, empty]
      rfl
    · obtain rfl := Option.some.inj taken
      have fits := counted n request
      refine ⟨counted, ?_, here.2⟩
      simp only [Truthful, request]
      exact int32_small (by omega) (by omega)

theorem frame_inv {s t : State} (inv : Inv c entry s) (pc : t.pc = s.pc)
    (request : t.request = s.request) (mask : t.mask = s.mask) (errno : t.errno = s.errno) :
    Inv c entry t := by
  obtain ⟨counted, here⟩ := inv
  refine ⟨by rwa [request], ?_⟩
  rw [pc]
  cases at_pc : s.pc with
  | returned ret =>
    rw [at_pc] at here
    simp only [At, Truthful, request, mask, errno] at here ⊢
    exact here
  | paused | spinning =>
    rw [at_pc] at here
    exact here
  | gone => trivial
  | ready | held | listing | suspended | active | check | synchronous =>
    rw [at_pc] at here
    simp only [At, request, mask] at here ⊢
    exact here
  | polling cnt =>
    rw [at_pc] at here
    simp only [At, request, mask] at here ⊢
    exact here

theorem step_inv (wired : Wired c) (act : Act) (s t : State) (inv : Inv c entry s)
    (clean : Clean c entry act s) (taken : step c act s = some t) : Inv c entry t := by
  cases act with
  | complete o =>
    simp only [step] at taken
    split at taken
    · rename_i going
      obtain rfl := Option.some.inj taken
      exact complete_inv inv going.1 going.2
    · cases taken
  | generate =>
    simp only [step] at taken
    split at taken
    · split at taken
      · split at taken
        · obtain rfl := Option.some.inj taken
          exact frame_inv inv rfl rfl rfl rfl
        · split at taken
          · obtain rfl := Option.some.inj taken
            exact ⟨inv.counted, trivial⟩
          · cases taken
      · cases taken
    · cases taken
  | deliver =>
    simp only [step] at taken
    split at taken
    · obtain rfl := Option.some.inj taken
      exact frame_inv inv rfl rfl rfl rfl
    · cases taken
  | callback =>
    simp only [step] at taken
    split at taken
    · split at taken
      · obtain rfl := Option.some.inj taken
        exact frame_inv inv rfl rfl rfl rfl
      · cases taken
    · cases taken
  | crash => exact clean.elim
  | hold =>
    simp only [step] at taken
    split at taken
    · rename_i pc
      have here := inv.here
      rw [pc] at here
      obtain rfl := Option.some.inj taken
      refine ⟨inv.counted, here.1, ?_⟩
      simp only [here.2]
      exact hold_mask wired
    · cases taken
  | submit answer =>
    simp only [step] at taken
    split at taken
    · rename_i pc
      have here := inv.here
      rw [pc] at here
      obtain rfl := Option.some.inj taken
      exact submitted_inv here.2
    · rename_i errno pc
      have here := inv.here
      rw [pc] at here
      obtain rfl := Option.some.inj taken
      have truthful : Truthful c { s with errno := errno } (-errno) := by
        simp only [Truthful, here.1]
      exact call_fails_inv inv.counted here.2 clean truthful
    · cases taken
  | listed answer =>
    simp only [step] at taken
    split at taken
    · rename_i pc
      exact listed_inv inv pc clean taken
    · cases taken
  | resumed answer =>
    simp only [step] at taken
    split at taken
    · rename_i pc
      exact resumed_inv inv pc clean taken
    · cases taken
  | pauseEnds =>
    simp only [step] at taken
    split at taken
    · rename_i pc
      have here := inv.here
      rw [pc] at here
      exact here.elim
    · cases taken
  | spin =>
    simp only [step] at taken
    split at taken
    · rename_i pc
      have here := inv.here
      rw [pc] at here
      exact here.elim
    · cases taken
  | release =>
    simp only [step] at taken
    split at taken
    · rename_i pc
      have here := inv.here
      rw [pc] at here
      obtain rfl := Option.some.inj taken
      refine ⟨inv.counted, here.1, ?_⟩
      simp only [here.2]
      exact release_mask wired clean
    · cases taken
  | aioError =>
    simp only [step] at taken
    split at taken
    · rename_i pc
      have here := inv.here
      rw [pc] at here
      split at taken
      · obtain rfl := Option.some.inj taken
        exact inv
      · obtain rfl := Option.some.inj taken
        exact ⟨inv.counted, here⟩
    · rename_i cnt pc
      exact check_inv inv pc clean taken
    · cases taken

theorem inv_moves {s : State} (inv : Inv c entry s) (completed : Completed s) :
    s.pc.Ended ∨ ∃ act t, act.Own ∧ step c act s = some t := by
  obtain ⟨o, request⟩ := completed
  obtain ⟨_, here⟩ := inv
  cases pc : s.pc with
  | ready | held =>
    rw [pc] at here
    exact absurd (request.symm.trans here.1) nofun
  | synchronous =>
    rw [pc] at here
    exact absurd (request.symm.trans here) nofun
  | paused | spinning =>
    rw [pc] at here
    exact here.elim
  | returned ret => exact Or.inl trivial
  | gone => exact Or.inl trivial
  | listing =>
    have enabled : ∃ t, step c (.listed .done) s = some t := by
      simp only [step, pc, listed]
      cases o with
      | transferred n =>
        split
        · exact ⟨_, rfl⟩
        · exact ⟨_, rfl⟩
        · rename_i others _
          exact absurd request (others n)
      | failed errno =>
        split
        · exact ⟨_, rfl⟩
        · exact ⟨_, rfl⟩
        · rename_i _ others
          exact absurd request (others errno)
    obtain ⟨t, taken⟩ := enabled
    exact Or.inr ⟨.listed .done, t, trivial, taken⟩
  | suspended =>
    have enabled : ∃ t, step c (.resumed .done) s = some t := by
      simp only [step, pc, resumed]
      split
      · exact ⟨_, rfl⟩
      · rename_i others
        exact absurd request (others o)
    obtain ⟨t, taken⟩ := enabled
    exact Or.inr ⟨.resumed .done, t, trivial, taken⟩
  | active =>
    have settled : ¬ s.request = .inProgress := by
      rw [request]
      nofun
    have enabled : ∃ t, step c .aioError s = some t := by
      simp only [step, pc, if_neg settled]
      exact ⟨_, rfl⟩
    obtain ⟨t, taken⟩ := enabled
    exact Or.inr ⟨.aioError, t, trivial, taken⟩
  | check =>
    have enabled : ∃ t, step c .release s = some t := by
      simp only [step, pc]
      exact ⟨_, rfl⟩
    obtain ⟨t, taken⟩ := enabled
    exact Or.inr ⟨.release, t, trivial, taken⟩
  | polling cnt =>
    have enabled : ∃ t, step c .aioError s = some t := by
      simp only [step, pc, lioCheckAsyncio]
      split
      · rename_i unsubmitted
        exact absurd (request.symm.trans unsubmitted) nofun
      · exact ⟨_, rfl⟩
      · exact ⟨_, rfl⟩
      · split
        · exact ⟨_, rfl⟩
        · exact ⟨_, rfl⟩
    obtain ⟨t, taken⟩ := enabled
    exact Or.inr ⟨.aioError, t, trivial, taken⟩

theorem listed_falls {s t : State} {answer : Wakeup} (taken : listed c answer s = some t) :
    t.pc.rank ≤ Pc.check.rank := by
  cases answer with
  | fails errno =>
    obtain rfl := Option.some.inj taken
    exact Nat.zero_le _
  | done =>
    simp only [listed] at taken
    split at taken
    · obtain rfl := Option.some.inj taken
      exact Nat.le_refl _
    · obtain rfl := Option.some.inj taken
      exact Nat.zero_le _
    · cases taken

theorem resumed_falls {s t : State} {answer : Wakeup} (taken : resumed c answer s = some t) :
    t.pc.rank ≤ Pc.check.rank := by
  cases answer with
  | fails errno =>
    simp only [resumed] at taken
    split at taken
    · obtain rfl := Option.some.inj taken
      exact Nat.le_refl _
    · obtain rfl := Option.some.inj taken
      exact Nat.zero_le _
  | done =>
    simp only [resumed] at taken
    split at taken
    · obtain rfl := Option.some.inj taken
      exact Nat.le_refl _
    · cases taken

theorem check_falls {s t : State} {cnt : Nat} {o : Outcome} (request : s.request = .done o)
    (taken : lioCheckAsyncio cnt s = some t) : t.pc.rank = 0 := by
  simp only [lioCheckAsyncio] at taken
  split at taken
  · cases taken
  · rename_i going
    exact absurd (request.symm.trans going) nofun
  · obtain rfl := Option.some.inj taken
    rfl
  · split at taken
    · obtain rfl := Option.some.inj taken
      rfl
    · obtain rfl := Option.some.inj taken
      rfl

theorem inv_falls {s t : State} {act : Act} (inv : Inv c entry s) (completed : Completed s)
    (own : act.Own) (taken : step c act s = some t) : t.pc.rank < s.pc.rank := by
  obtain ⟨o, request⟩ := completed
  obtain ⟨_, here⟩ := inv
  cases act with
  | complete | generate | deliver | callback | crash => exact own.elim
  | hold =>
    simp only [step] at taken
    split at taken
    · rename_i pc
      rw [pc] at here
      exact absurd (request.symm.trans here.1) nofun
    · cases taken
  | submit answer =>
    simp only [step] at taken
    split at taken
    · rename_i pc
      rw [pc] at here
      exact absurd (request.symm.trans here.1) nofun
    · rename_i pc
      rw [pc] at here
      exact absurd (request.symm.trans here.1) nofun
    · cases taken
  | listed answer =>
    simp only [step] at taken
    split at taken
    · rename_i pc
      rw [pc]
      exact Nat.lt_of_le_of_lt (listed_falls taken) (Nat.lt_succ_self 2)
    · cases taken
  | resumed answer =>
    simp only [step] at taken
    split at taken
    · rename_i pc
      rw [pc]
      exact Nat.lt_of_le_of_lt (resumed_falls taken) (Nat.lt_succ_self 2)
    · cases taken
  | pauseEnds | spin =>
    simp only [step] at taken
    split at taken
    · rename_i pc
      rw [pc] at here
      exact here.elim
    · cases taken
  | release =>
    simp only [step] at taken
    split at taken
    · rename_i pc
      obtain rfl := Option.some.inj taken
      rw [pc]
      exact Nat.lt_succ_self 1
    · cases taken
  | aioError =>
    simp only [step] at taken
    split at taken
    · rename_i pc
      have settled : ¬ s.request = .inProgress := by
        rw [request]
        nofun
      rw [if_neg settled] at taken
      obtain rfl := Option.some.inj taken
      rw [pc]
      exact Nat.lt_succ_self 2
    · rename_i cnt pc
      rw [pc, check_falls request taken]
      exact Nat.zero_lt_succ 0
    · cases taken

theorem inv_good {s : State} (inv : Inv c entry s) : Good c entry s := by
  refine ⟨?_, ?_, inv_moves inv, ?_⟩
  · intro ret pc
    have here := inv.here
    rw [pc] at here
    exact here.1
  · intro ret pc
    have here := inv.here
    rw [pc] at here
    exact here.2
  · intro completed act t own taken
    exact inv_falls inv completed own taken

/-- For every method word and signal, and whatever the kernel does in whatever order: in a clean run
    the call never waits for what has already come, and it returns what became of the request, with
    the mask of its caller. -/
theorem async_good {acts : List Act} {s : State}
    (clean : Along (step (setup args)) (Clean (setup args) entry) acts
      (start args entry received callbacks))
    (ran : run (step (setup args)) acts (start args entry received callbacks) = some s) :
    Good (setup args) entry s := by
  have begun : Inv (setup args) entry (start args entry received callbacks) := start_inv
  have inv := run_along (step_inv setup_wired) begun clean ran
  exact inv_good inv

end runs

def writeOf (method : BitVec 32) : Args := ⟨.write, 3, method, 1, 10, 0#32, 0#32, 0, 0⟩

/-- The request completes while the call is in `aio_suspend`. -/
def completedRun : List Act :=
  [.hold, .submit none, .complete (.transferred 1), .generate, .resumed .done, .release, .deliver, .aioError]

theorem sigpause_write_good : ∃ s, run (step (setup (writeOf (lioIoAsync ||| lioWaitSigpause)))) completedRun
      (start (writeOf (lioIoAsync ||| lioWaitSigpause)) ∅ 0 0) = some s ∧
    s.pc = .returned 1 ∧ Good (setup (writeOf (lioIoAsync ||| lioWaitSigpause))) ∅ s := by
  have clean : Along (step (setup (writeOf (lioIoAsync ||| lioWaitSigpause))))
      (Clean (setup (writeOf (lioIoAsync ||| lioWaitSigpause))) ∅) completedRun
      (start (writeOf (lioIoAsync ||| lioWaitSigpause)) ∅ 0 0) := by decide +kernel
  have ended : (run (step (setup (writeOf (lioIoAsync ||| lioWaitSigpause)))) completedRun
      (start (writeOf (lioIoAsync ||| lioWaitSigpause)) ∅ 0 0)).map State.pc = some (.returned 1) := by decide +kernel
  obtain ⟨s, ran, pc⟩ := Option.map_eq_some_iff.mp ended
  exact ⟨s, ran, pc, async_good clean ran⟩

/-- With `LIO_USE_SIGNAL` and no wait for a signal, SIGUSR1 is held and stays held. With one, and
    `aio_suspend` interrupted by another signal, `lio_check_asyncio` finds the write in progress, and
    the byte that is then written is returned as none. -/
theorem signal_left_held :
    (∃ s, run (step (setup (writeOf (lioIoAsync ||| lioUseSignal))))
        [.hold, .submit none, .complete (.transferred 1), .resumed .done, .release, .aioError]
        (start (writeOf (lioIoAsync ||| lioUseSignal)) ∅ 0 0) = some s ∧
      s.pc = .returned 1 ∧ s.mask = {10} ∧
      ¬ Good (setup (writeOf (lioIoAsync ||| lioUseSignal))) ∅ s) ∧
    (∃ s, run (step (setup (writeOf (lioIoAsync ||| lioWaitSigpause))))
        [.hold, .submit none, .resumed (.fails eintr), .release, .aioError, .complete (.transferred 1), .aioError]
        (start (writeOf (lioIoAsync ||| lioWaitSigpause)) ∅ 0 0) = some s ∧
      s.pc = .returned 0 ∧ s.request = .done (.transferred 1) ∧
      ¬ Good (setup (writeOf (lioIoAsync ||| lioWaitSigpause))) ∅ s) := by
  constructor
  · have ended : (run (step (setup (writeOf (lioIoAsync ||| lioUseSignal))))
        [.hold, .submit none, .complete (.transferred 1), .resumed .done, .release, .aioError]
        (start (writeOf (lioIoAsync ||| lioUseSignal)) ∅ 0 0)).map (fun s => (s.pc, s.mask)) =
          some (.returned 1, {10}) := by decide +kernel
    obtain ⟨s, ran, same⟩ := Option.map_eq_some_iff.mp ended
    obtain ⟨pc, mask⟩ := Prod.mk.inj same
    refine ⟨s, ran, pc, mask, ?_⟩
    intro good
    have restored := good.mask 1 pc
    rw [mask] at restored
    exact absurd restored (by decide)
  · have ended : (run (step (setup (writeOf (lioIoAsync ||| lioWaitSigpause))))
        [.hold, .submit none, .resumed (.fails eintr), .release, .aioError, .complete (.transferred 1), .aioError]
        (start (writeOf (lioIoAsync ||| lioWaitSigpause)) ∅ 0 0)).map
          (fun s => (s.pc, s.request)) =
          some (.returned 0, .done (.transferred 1)) := by decide +kernel
    obtain ⟨s, ran, same⟩ := Option.map_eq_some_iff.mp ended
    obtain ⟨pc, request⟩ := Prod.mk.inj same
    refine ⟨s, ran, pc, request, ?_⟩
    intro good
    have truthful := good.result 0 pc
    simp only [Truthful, request] at truthful
    exact absurd truthful (by decide)

end VteLio
