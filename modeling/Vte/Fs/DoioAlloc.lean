import Vte.Base.CInt
import Vte.Base.Machine
import Vte.Base.Regions

/-!
`alloc_mem` of doio.c: the buffer comes from the memory types in turn. The answers of the system calls
are given with each call. The open file of a mapping and the name of a shared memory segment, which
come and go with the region, are left out.
-/
namespace VteDoioAlloc
open CInt Machine Regions

inductive MemType
  | data
  | mmap
  | shmem
deriving DecidableEq

inductive Space
  | null
  | region (id : Nat)
  | failed
deriving DecidableEq

structure MemAlloc where
  memtype : MemType
  nblks : Int
  space : Space
  size : Int
deriving DecidableEq

/-- Whether `malloc`, `open` or `shmget` succeeds, whether `mmap` or `shmat` does, and the bytes that an
    existing segment has beyond those asked for. -/
structure System where
  opened : Bool
  mapped : Bool
  extra : Nat

structure State where
  ledger : Ledger
  memalloc : List MemAlloc
  mturn : Nat
  memptr : Space
  memsize : Int
  /-- the argument of the last call -/
  request : Int
  /-- what the last call has returned -/
  rval : Int
deriving DecidableEq

def skipReq : Int := -2

section code

/-- `free`, `munmap` and `shmdt`; the last two refuse what is no region. -/
def giveBack (l : Ledger) : Space → Ledger
  | .region id => l.release id
  | .null => l
  | .failed => l

def freeSlots : List MemAlloc → Ledger → List MemAlloc × Ledger
  | [], l => ([], l)
  | M :: rest, l =>
    if M.space = .null then
      let (rest, l) := freeSlots rest l
      (M :: rest, l)
    else
      let (rest, l) := freeSlots rest (giveBack l M.space)
      ({ M with space := .null } :: rest, l)

def freeAll (s : State) : State :=
  let (memalloc, ledger) := freeSlots s.memalloc s.ledger
  let data := s.memalloc.any fun M => decide (M.memtype = .data ∧ M.space ≠ .null)
  { s with
    ledger
    memalloc
    memptr := if data then .null else s.memptr
    memsize := if data then 0 else s.memsize
    request := -1
    rval := 0 }

/-- `if (nbytes > M->size)`, which all types begin with -/
def outgrow (nbytes : Int) (l : Ledger) (M : MemAlloc) : Ledger × MemAlloc :=
  if nbytes > M.size then (giveBack l M.space, { M with space := .null, size := 0 }) else (l, M)

/-- A region of `size` bytes is got for the slot. -/
def obtained (l : Ledger) (M : MemAlloc) (size : Nat) : Ledger × MemAlloc × Int :=
  (l.allocate size, { M with space := .region l.sizes.length }, 0)

def mapSpace (sys : System) (nbytes : Int) (l : Ledger) (M : MemAlloc) : Ledger × MemAlloc × Int :=
  if sys.opened then
    let M := { M with size := int32 (nbytes * 4) }
    if sys.mapped ∧ 0 < M.size then obtained l M M.size.toNat
    else (l, { M with space := .failed }, -1)
  else (l, M, -1)

def attachSpace (sys : System) (nbytes : Int) (l : Ledger) (M : MemAlloc) :
    Ledger × MemAlloc × Int :=
  let M := { M with size := if M.nblks ≠ 0 then int32 (M.nblks * 512) else nbytes }
  if nbytes > M.size then (l, M, skipReq)
  else if sys.opened then
    if sys.mapped then obtained l M (M.size.toNat + sys.extra)
    else (l, { M with space := .failed }, -1)
  else (l, M, -1)

/-- `if (M->space == NULL)` of the three types -/
def getSpace (sys : System) (nbytes : Int) (l : Ledger) (M : MemAlloc) : Ledger × MemAlloc × Int :=
  if M.space ≠ .null then (l, M, 0)
  else
    match M.memtype with
    | .data =>
      if sys.opened then obtained l { M with size := nbytes } nbytes.toNat else (l, M, -1)
    | .mmap => mapSpace sys nbytes l M
    | .shmem => attachSpace sys nbytes l M

def State.turn (s : State) : Nat := if s.mturn ≥ s.memalloc.length then 0 else s.mturn

def allocMem (nbytes : Int) (sys : System) (s : State) : Option State :=
  if nbytes = -1 then some (freeAll s)
  else do
    let M ← s.memalloc[s.turn]?
    let (l, M) := outgrow nbytes s.ledger M
    let (l, M, rval) := getSpace sys nbytes l M
    let t : State := { s with
      ledger := l
      memalloc := s.memalloc.set s.turn M
      mturn := s.turn
      request := nbytes
      rval := rval }
    if rval = 0 then some { t with memptr := M.space, memsize := M.size, mturn := s.turn + 1 }
    else some t

structure Call where
  nbytes : Int
  sys : System

/-- A call with an `int` that is not negative, or with -1. -/
def step (call : Call) (s : State) : Option State :=
  if -1 ≤ call.nbytes ∧ call.nbytes < 2147483648 then allocMem call.nbytes call.sys s else none

/-- The slots that the option -M names, each with its `nblks`; without it one of `data`. -/
def initial (types : List (MemType × Int)) : State where
  ledger := ⟨[], []⟩
  memalloc := (if types = [] then [(MemType.data, 0)] else types).map fun type =>
    { memtype := type.1, nblks := type.2, space := .null, size := 0 }
  mturn := 0
  memptr := .null
  memsize := 0
  request := -1
  rval := 0

end code

def Space.held : Space → List Nat
  | .region id => [id]
  | .null => []
  | .failed => []

def held (slots : List MemAlloc) : List Nat := slots.flatMap fun M => M.space.held

/-- What the last call has returned is right, and no region is lost or given back twice. -/
structure Right (s : State) : Prop where
  granted : s.rval = 0 → 0 ≤ s.request →
    ∃ id, s.memptr = .region id ∧ s.ledger.Live id s.request ∧ s.request ≤ s.memsize
  skipped : s.rval = skipReq → ∃ M ∈ s.memalloc[s.mturn]?, M.memtype = .shmem ∧ M.nblks ≠ 0 ∧ M.nblks * 512 < s.request
  once : s.ledger.Accounts (held s.memalloc)
  freed : s.request = -1 → held s.memalloc = []

def SizeRight (nbytes : Int) (M : MemAlloc) : Prop :=
  match M.memtype with
  | .data => True
  | .mmap => nbytes ≤ 1073741824 ∨ 1431655766 ≤ nbytes
  | .shmem => M.nblks = 0 ∨ M.nblks * 512 < nbytes ∨ nbytes ≤ int32 (M.nblks * 512)

def SlotRight (nbytes : Int) (M : MemAlloc) : Prop :=
  if M.space = .null ∨ M.size < nbytes then SizeRight nbytes M else M.space ≠ .failed

def Meets (call : Call) (s : State) : Prop :=
  call.nbytes ≠ -1 → ∀ M ∈ s.memalloc[s.turn]?, SlotRight call.nbytes M

section instances

instance (nbytes : Int) (M : MemAlloc) : Decidable (SizeRight nbytes M) :=
  match h : M.memtype with
  | .data => isTrue (by rw [SizeRight, h]; trivial)
  | .mmap => decidable_of_iff (nbytes ≤ 1073741824 ∨ 1431655766 ≤ nbytes) (by rw [SizeRight, h])
  | .shmem => decidable_of_iff
      (M.nblks = 0 ∨ M.nblks * 512 < nbytes ∨ nbytes ≤ int32 (M.nblks * 512)) (by rw [SizeRight, h])

instance (nbytes : Int) (M : MemAlloc) : Decidable (SlotRight nbytes M) :=
  inferInstanceAs (Decidable (if M.space = .null ∨ M.size < nbytes then SizeRight nbytes M
    else M.space ≠ .failed))

instance (call : Call) (s : State) : Decidable (Meets call s) :=
  inferInstanceAs (Decidable (call.nbytes ≠ -1 → ∀ M ∈ s.memalloc[s.turn]?, SlotRight call.nbytes M))

end instances

def Sized (l : Ledger) (M : MemAlloc) : Prop :=
  ∀ id, M.space = .region id → ∃ n, l.sizes[id]? = some n ∧ M.size ≤ n

structure Moves (l : Ledger) (M : MemAlloc) (l' : Ledger) (M' : MemAlloc) : Prop where
  accounts : ∀ rest, l.Accounts (M.space.held ++ rest) → l'.Accounts (M'.space.held ++ rest)
  longer : l.sizes <+: l'.sizes
  sized : Sized l M → Sized l' M'

section slots
variable {l l' : Ledger} {M M' M'' : MemAlloc} {nbytes : Int} {sys : System}

theorem moves_refl (l : Ledger) (M : MemAlloc) : Moves l M l M :=
  ⟨fun _ accounts => accounts, List.prefix_rfl, fun sized => sized⟩

theorem moves_trans {l'' : Ledger} (first : Moves l M l' M') (then_ : Moves l' M' l'' M'') :
    Moves l M l'' M'' :=
  ⟨fun rest accounts => then_.accounts rest (first.accounts rest accounts),
    first.longer.trans then_.longer, fun sized => then_.sized (first.sized sized)⟩

theorem moves_empty (same : M'.space.held = M.space.held) (empty : M'.space.held = []) :
    Moves l M l M' := by
  refine ⟨fun rest accounts => by rwa [same], List.prefix_rfl, fun _ id region => ?_⟩
  rw [region] at empty
  cases empty

theorem give_back_accounts {rest : List Nat} (space : Space)
    (accounts : l.Accounts (space.held ++ rest)) : (giveBack l space).Accounts rest := by
  cases space with
  | region id => exact accounts_release accounts
  | null => exact accounts
  | failed => exact accounts

theorem give_back_sizes (l : Ledger) (space : Space) : (giveBack l space).sizes = l.sizes := by
  cases space <;> rfl

theorem outgrow_moves (nbytes : Int) (l : Ledger) (M : MemAlloc) :
    Moves l M (outgrow nbytes l M).1 (outgrow nbytes l M).2 := by
  unfold outgrow
  split
  · refine ⟨fun rest accounts => give_back_accounts M.space accounts, ?_, fun _ id region => ?_⟩
    · exact (give_back_sizes l M.space).symm ▸ List.prefix_rfl
    · cases region
  · exact moves_refl l M

theorem obtained_moves {size : Nat} (empty : M.space = .null) (enough : M.size ≤ size) :
    Moves l M (obtained l M size).1 (obtained l M size).2.1 := by
  refine ⟨fun rest accounts => ?_, ⟨[size], rfl⟩, fun _ id region => ?_⟩
  · rw [empty] at accounts
    exact accounts_allocate accounts size
  · obtain rfl := Space.region.inj region
    exact ⟨size, by simp [obtained, Ledger.allocate], enough⟩

theorem get_space_moves (sys : System) (nonneg : 0 ≤ nbytes) (l : Ledger) (M : MemAlloc) :
    Moves l M (getSpace sys nbytes l M).1 (getSpace sys nbytes l M).2.1 := by
  unfold getSpace
  split
  · exact moves_refl l M
  · rename_i empty
    have empty : M.space = .null := not_not.mp empty
    have resized (size : Int) : Moves l M l { M with size } := moves_empty rfl (by simp [empty, Space.held])
    have refused (size : Int) : Moves l M l { M with size, space := .failed } :=
      moves_empty (by simp [empty, Space.held]) rfl
    have granted (size : Int) (n : Nat) (enough : size ≤ n) :
        Moves l M (obtained l { M with size } n).1 (obtained l { M with size } n).2.1 :=
      moves_trans (resized size) (obtained_moves empty enough)
    split
    · split
      · exact granted nbytes nbytes.toNat (by omega)
      · exact moves_refl l M
    · unfold mapSpace
      dsimp only
      split
      · split
        · exact granted _ _ (by omega)
        · exact refused _
      · exact moves_refl l M
    · unfold attachSpace
      generalize (if M.nblks ≠ 0 then int32 (M.nblks * 512) else nbytes) = size
      dsimp only
      split
      · exact resized _
      · split
        · split
          · exact granted _ _ (by omega)
          · exact refused _
        · exact resized _

structure Answered (nbytes : Int) (M : MemAlloc) (rval : Int) : Prop where
  granted : rval = 0 → ∃ id, M.space = .region id ∧ nbytes ≤ M.size
  skipped : rval = skipReq → M.memtype = .shmem ∧ M.nblks ≠ 0 ∧ M.nblks * 512 < nbytes

theorem answered_failed (nbytes : Int) (M : MemAlloc) : Answered nbytes M (-1) :=
  ⟨fun granted => absurd granted (by decide), fun skipped => absurd skipped (by decide)⟩

theorem answered_region {id : Nat} (region : M.space = .region id) (enough : nbytes ≤ M.size) :
    Answered nbytes M 0 :=
  ⟨fun _ => ⟨id, region, enough⟩, fun skipped => absurd skipped (by decide)⟩

theorem mapped_enough (right : nbytes ≤ 1073741824 ∨ 1431655766 ≤ nbytes) (int : nbytes < 2147483648)
    (positive : 0 < int32 (nbytes * 4)) (nonneg : 0 ≤ nbytes) : nbytes ≤ int32 (nbytes * 4) := by
  rw [int32, Int.bmod_def] at positive ⊢
  omega

theorem get_space_answered (sys : System) (l : Ledger) (empty : M.space = .null)
    (right : SizeRight nbytes M) (nonneg : 0 ≤ nbytes) (int : nbytes < 2147483648) :
    Answered nbytes (getSpace sys nbytes l M).2.1 (getSpace sys nbytes l M).2.2 := by
  unfold getSpace
  rw [if_neg (not_not_intro empty)]
  unfold SizeRight at right
  cases kind : M.memtype with
  | data =>
    dsimp only
    split
    · exact answered_region rfl (Int.le_refl _)
    · exact answered_failed nbytes M
  | mmap =>
    rw [kind] at right
    unfold mapSpace
    dsimp only
    split
    · split
      · rename_i mapped
        exact answered_region rfl (mapped_enough right int mapped.2 nonneg)
      · exact answered_failed nbytes _
    · exact answered_failed nbytes M
  | shmem =>
    rw [kind] at right
    unfold attachSpace
    dsimp only
    by_cases too_small : nbytes > if M.nblks ≠ 0 then int32 (M.nblks * 512) else nbytes
    · rw [if_pos too_small]
      refine ⟨fun granted => absurd granted (show ¬ skipReq = 0 by decide), fun _ => ?_⟩
      split at too_small
      · rename_i blocks
        refine ⟨kind, blocks, ?_⟩
        rcases right with none | small | enough
        · exact absurd none blocks
        · exact small
        · omega
      · omega
    · rw [if_neg too_small]
      split
      · split
        · exact answered_region rfl (Int.le_of_not_gt too_small)
        · exact answered_failed nbytes _
      · exact answered_failed nbytes _

theorem slot_answered (sys : System) (l : Ledger) (right : SlotRight nbytes M) (nonneg : 0 ≤ nbytes)
    (int : nbytes < 2147483648) :
    Answered nbytes (getSpace sys nbytes (outgrow nbytes l M).1 (outgrow nbytes l M).2).2.1
      (getSpace sys nbytes (outgrow nbytes l M).1 (outgrow nbytes l M).2).2.2 := by
  unfold SlotRight at right
  unfold outgrow
  split
  · rename_i larger
    rw [if_pos (.inr larger)] at right
    exact get_space_answered sys _ rfl right nonneg int
  · rename_i enough
    by_cases empty : M.space = .null
    · rw [if_pos (.inl empty)] at right
      exact get_space_answered sys _ empty right nonneg int
    · rw [if_neg (by simp [empty]; omega)] at right
      unfold getSpace
      rw [if_pos empty]
      cases space : M.space with
      | null => exact absurd space empty
      | region id => exact answered_region space (Int.le_of_not_gt enough)
      | failed => exact absurd space right

theorem slot_unanswered (sys : System) (l : Ledger) (wrong : ¬ SlotRight nbytes M)
    (opened : sys.opened = true) (mapped : sys.mapped = true) :
    ¬ Answered nbytes (getSpace sys nbytes (outgrow nbytes l M).1 (outgrow nbytes l M).2).2.1
      (getSpace sys nbytes (outgrow nbytes l M).1 (outgrow nbytes l M).2).2.2 := by
  intro answered
  by_cases new : M.space = .null ∨ M.size < nbytes
  · rw [SlotRight, if_pos new] at wrong
    have empty : (outgrow nbytes l M).2.space = .null := by
      unfold outgrow
      split
      · rfl
      · exact new.resolve_right (by omega)
    have same : (outgrow nbytes l M).2.memtype = M.memtype ∧ (outgrow nbytes l M).2.nblks = M.nblks := by
      unfold outgrow
      split <;> exact ⟨rfl, rfl⟩
    generalize outgrow nbytes l M = first at *
    unfold getSpace at answered
    rw [if_neg (not_not_intro empty), same.1] at answered
    unfold SizeRight at wrong
    cases kind : M.memtype with
    | data =>
      rw [kind] at wrong
      exact wrong trivial
    | mmap =>
      rw [kind] at wrong answered
      have positive : 0 < int32 (nbytes * 4) ∧ int32 (nbytes * 4) < nbytes := by
        rw [int32, Int.bmod_def]
        omega
      unfold mapSpace at answered
      dsimp only at answered
      rw [if_pos opened, if_pos ⟨mapped, positive.1⟩] at answered
      obtain ⟨_, _, enough⟩ := answered.granted rfl
      exact absurd positive.2 (Int.not_lt_of_ge enough)
    | shmem =>
      rw [kind] at wrong answered
      have blocks : first.2.nblks ≠ 0 := by
        rw [same.2]
        exact fun none => wrong (.inl none)
      unfold attachSpace at answered
      dsimp only at answered
      rw [if_pos blocks, same.2, if_pos (by omega)] at answered
      have small := (answered.skipped rfl).2.2
      dsimp only at small
      omega
  · rw [SlotRight, if_neg new, not_not] at wrong
    have kept : outgrow nbytes l M = (l, M) := by
      rw [outgrow, if_neg (by omega)]
    rw [kept, getSpace, if_pos (by simp [wrong])] at answered
    obtain ⟨id, region, _⟩ := answered.granted rfl
    dsimp only at region
    rw [wrong] at region
    cases region

end slots

section table
variable {slots : List MemAlloc} {M : MemAlloc} {i : Nat} {l : Ledger}

theorem held_slot (found : slots[i]? = some M) :
    ∃ rest, (held slots).Perm (M.space.held ++ rest) ∧ ∀ M', (held (slots.set i M')).Perm (M'.space.held ++ rest) := by
  induction slots generalizing i with
  | nil => cases found
  | cons N slots ih =>
    cases i with
    | zero =>
      obtain rfl := Option.some.inj found
      exact ⟨held slots, List.Perm.refl _, fun _ => List.Perm.refl _⟩
    | succ i =>
      obtain ⟨rest, before, after⟩ := ih found
      refine ⟨N.space.held ++ rest, ?_, fun M' => ?_⟩
      · exact (before.append_left N.space.held).trans (List.perm_append_comm_assoc _ _ _)
      · exact ((after M').append_left N.space.held).trans (List.perm_append_comm_assoc _ _ _)

theorem free_slots_accounts (slots : List MemAlloc) {rest : List Nat}
    (accounts : l.Accounts (held slots ++ rest)) : (freeSlots slots l).2.Accounts rest := by
  induction slots generalizing l with
  | nil => exact accounts
  | cons M slots ih =>
    have parts : l.Accounts (M.space.held ++ (held slots ++ rest)) := by
      rwa [← List.append_assoc]
    have later := ih (give_back_accounts M.space parts)
    rw [freeSlots]
    by_cases empty : M.space = .null
    · rw [if_pos empty]
      rwa [empty] at later
    · rw [if_neg empty]
      exact later

theorem free_slots_held (slots : List MemAlloc) (l : Ledger) : held (freeSlots slots l).1 = [] := by
  induction slots generalizing l with
  | nil => rfl
  | cons M slots ih =>
    rw [freeSlots]
    by_cases empty : M.space = .null
    · rw [if_pos empty]
      change M.space.held ++ held _ = []
      rw [empty, ih]
      rfl
    · rw [if_neg empty]
      exact ih _

theorem none_held_sized (none : held slots = []) (l : Ledger) : ∀ M ∈ slots, Sized l M := by
  intro M member id region
  have empty := List.flatMap_eq_nil_iff.mp none M member
  rw [region] at empty
  cases empty

theorem sized_longer {l' : Ledger} (longer : l.sizes <+: l'.sizes) (sized : Sized l M) :
    Sized l' M := by
  intro id region
  obtain ⟨n, found, enough⟩ := sized id region
  obtain ⟨new, same⟩ := longer
  refine ⟨n, ?_, enough⟩
  rw [← same, List.getElem?_append_left (List.getElem?_eq_some_iff.mp found).1]
  exact found

end table

section runs
variable {s t : State} {call : Call}

structure Inv (s : State) : Prop where
  accounts : s.ledger.Accounts (held s.memalloc)
  sized : ∀ M ∈ s.memalloc, Sized s.ledger M

theorem free_all_right (inv : Inv s) : Inv (freeAll s) ∧ Right (freeAll s) := by
  have none := free_slots_held s.memalloc s.ledger
  have all : s.ledger.Accounts (held s.memalloc ++ []) := by
    rw [List.append_nil]
    exact inv.accounts
  have accounts := free_slots_accounts s.memalloc all
  rw [← none] at accounts
  refine ⟨⟨accounts, none_held_sized none _⟩, ⟨?_, ?_, accounts, fun _ => none⟩⟩
  · intro _ nonneg
    exact absurd nonneg (show ¬ (0 : Int) ≤ -1 by decide)
  · intro skipped
    exact absurd skipped (show ¬ (0 : Int) = skipReq by decide)

theorem alloc_mem_right (inv : Inv s) (nonneg : 0 ≤ call.nbytes) (int : call.nbytes < 2147483648)
    (meets : Meets call s) (done : allocMem call.nbytes call.sys s = some t) : Inv t ∧ Right t := by
  have request : call.nbytes ≠ -1 := by omega
  rw [allocMem, if_neg request] at done
  obtain ⟨M, found, rest_done⟩ := Option.bind_eq_some_iff.mp done
  have answered := slot_answered call.sys s.ledger (meets request M found) nonneg int
  have moves := moves_trans (outgrow_moves call.nbytes s.ledger M)
    (get_space_moves call.sys nonneg (outgrow call.nbytes s.ledger M).1
      (outgrow call.nbytes s.ledger M).2)
  generalize outgrow call.nbytes s.ledger M = first at *
  obtain ⟨l₁, M₁⟩ := first
  dsimp only at rest_done answered moves
  generalize getSpace call.sys call.nbytes l₁ M₁ = second at *
  obtain ⟨l₂, M₂, rval⟩ := second
  dsimp only at rest_done answered moves
  obtain ⟨rest, before, after⟩ := held_slot found
  have accounts : l₂.Accounts (held (s.memalloc.set s.turn M₂)) :=
    accounts_perm (moves.accounts rest (accounts_perm inv.accounts before.symm)) (after M₂)
  have inside : s.turn < s.memalloc.length := (List.getElem?_eq_some_iff.mp found).1
  have own : M₂ ∈ s.memalloc.set s.turn M₂ := List.mem_set inside M₂
  have sized₂ : Sized l₂ M₂ := moves.sized (inv.sized M (List.mem_of_getElem? found))
  have sized : ∀ N ∈ s.memalloc.set s.turn M₂, Sized l₂ N := by
    intro N member
    rcases List.mem_or_eq_of_mem_set member with old | rfl
    · exact sized_longer moves.longer (inv.sized N old)
    · exact sized₂
  by_cases granted : rval = 0
  · subst granted
    obtain rfl := Option.some.inj rest_done
    refine ⟨⟨accounts, sized⟩, ⟨fun _ _ => ?_, ?_, accounts, fun minus => absurd minus request⟩⟩
    · obtain ⟨id, region, enough⟩ := answered.granted rfl
      obtain ⟨n, length, fits⟩ := sized₂ id region
      have member : id ∈ held (s.memalloc.set s.turn M₂) :=
        List.mem_flatMap.mpr ⟨M₂, own, by simp [region, Space.held]⟩
      exact ⟨id, region, ⟨accounts_held accounts member, n, length, Int.le_trans enough fits⟩, enough⟩
    · intro skipped
      exact absurd skipped (show ¬ (0 : Int) = skipReq by decide)
  · rw [if_neg granted] at rest_done
    obtain rfl := Option.some.inj rest_done
    refine ⟨⟨accounts, sized⟩,
      ⟨fun zero => absurd zero granted, fun skipped => ?_, accounts, fun minus => absurd minus request⟩⟩
    refine ⟨M₂, ?_, answered.skipped skipped⟩
    exact List.getElem?_set_self inside

theorem alloc_mem_right_iff (inv : Inv s) (nonneg : 0 ≤ call.nbytes)
    (int : call.nbytes < 2147483648) (opened : call.sys.opened = true)
    (mapped : call.sys.mapped = true) (done : allocMem call.nbytes call.sys s = some t) :
    Right t ↔ Meets call s := by
  refine ⟨fun right request M found => ?_, fun meets => (alloc_mem_right inv nonneg int meets done).2⟩
  by_contra wrong
  refine slot_unanswered call.sys s.ledger wrong opened mapped ?_
  rw [allocMem, if_neg request] at done
  obtain ⟨N, found', rest_done⟩ := Option.bind_eq_some_iff.mp done
  obtain rfl := Option.some.inj (found.symm.trans found')
  generalize outgrow call.nbytes s.ledger M = first at *
  obtain ⟨l₁, M₁⟩ := first
  dsimp only at rest_done ⊢
  generalize getSpace call.sys call.nbytes l₁ M₁ = second at *
  obtain ⟨l₂, M₂, rval⟩ := second
  dsimp only at rest_done ⊢
  have inside : s.turn < s.memalloc.length := (List.getElem?_eq_some_iff.mp found).1
  constructor
  · intro granted
    rw [if_pos granted] at rest_done
    obtain rfl := Option.some.inj rest_done
    obtain ⟨id, region, _, enough⟩ := right.granted granted nonneg
    exact ⟨id, region, enough⟩
  · intro skipped
    rw [if_neg (by rw [skipped]; decide)] at rest_done
    obtain rfl := Option.some.inj rest_done
    obtain ⟨N, member, small⟩ := right.skipped skipped
    obtain rfl := Option.some.inj ((List.getElem?_set_self inside).symm.trans member)
    exact small

theorem step_right (call : Call) (s t : State) (inv : Inv s ∧ Right s) (meets : Meets call s)
    (stepped : step call s = some t) : Inv t ∧ Right t := by
  rw [step] at stepped
  split at stepped
  · rename_i range
    by_cases minus : call.nbytes = -1
    · rw [allocMem, if_pos minus] at stepped
      obtain rfl := Option.some.inj stepped
      exact free_all_right inv.1
    · exact alloc_mem_right inv.1 (by omega) range.2 meets stepped
  · cases stepped

theorem initial_right (types : List (MemType × Int)) :
    Inv (initial types) ∧ Right (initial types) := by
  have none : held (initial types).memalloc = [] := by
    apply List.flatMap_eq_nil_iff.mpr
    intro M member
    obtain ⟨type, _, rfl⟩ := List.mem_map.mp member
    rfl
  have accounts : (initial types).ledger.Accounts (held (initial types).memalloc) := by
    rw [none]
    exact List.Perm.refl _
  refine ⟨⟨accounts, none_held_sized none _⟩, ⟨?_, ?_, accounts, fun _ => none⟩⟩
  · intro _ nonneg
    exact absurd nonneg (show ¬ (0 : Int) ≤ -1 by decide)
  · intro skipped
    exact absurd skipped (show ¬ (0 : Int) = skipReq by decide)

/-- In a run whose calls all meet the condition every call returns rightly. -/
theorem alloc_mem_runs_right (types : List (MemType × Int)) (calls : List Call) (s : State)
    (along : Along step Meets calls (initial types)) (ran : run step calls (initial types) = some s) :
    Right s :=
  (run_along step_right (initial_right types) along ran).2

/-- After such a run the next call returns rightly exactly when it meets the condition. -/
theorem next_call_right_iff {types : List (MemType × Int)} {calls : List Call} {s t : State} {call : Call}
    (along : Along step Meets calls (initial types)) (ran : run step calls (initial types) = some s)
    (nonneg : 0 ≤ call.nbytes) (int : call.nbytes < 2147483648) (opened : call.sys.opened = true)
    (mapped : call.sys.mapped = true) (done : allocMem call.nbytes call.sys s = some t) : Right t ↔ Meets call s :=
  alloc_mem_right_iff (run_along step_right (initial_right types) along ran).1 nonneg int opened mapped done

theorem next_call_right_mmap : ∃ s t, run step [⟨16, ⟨true, true, 0⟩⟩] (initial [(.mmap, 0)]) = some s ∧
    allocMem 32 ⟨true, true, 0⟩ s = some t ∧ (Right t ↔ Meets ⟨32, ⟨true, true, 0⟩⟩ s) := by
  have ends : ((run step [⟨16, ⟨true, true, 0⟩⟩] (initial [(.mmap, 0)])).bind
      (allocMem 32 ⟨true, true, 0⟩)).isSome = true := rfl
  obtain ⟨t, both⟩ := Option.isSome_iff_exists.mp ends
  obtain ⟨s, ran, done⟩ := Option.bind_eq_some_iff.mp both
  have along : Along step Meets [⟨16, ⟨true, true, 0⟩⟩] (initial [(.mmap, 0)]) := by decide
  have call : Right t ↔ Meets ⟨32, ⟨true, true, 0⟩⟩ s :=
    next_call_right_iff along ran (by decide) (by decide) rfl rfl done
  exact ⟨s, t, ran, done, call⟩

theorem alloc_mem_runs_right_mmap :
    Right (⟨⟨[64], [0]⟩, [⟨.mmap, 0, .null, 64⟩], 1, .region 0, 64, -1, 0⟩ : State) :=
  alloc_mem_runs_right [(.mmap, 0)] [⟨16, ⟨true, true, 0⟩⟩, ⟨-1, ⟨true, true, 0⟩⟩] _ (by decide)
    (by decide)

/-- Four times the size of this request is 4096 as an `int`. -/
theorem mapping_too_small :
    ¬ ∀ (types : List (MemType × Int)) (calls : List Call) (s : State),
      run step calls (initial types) = some s → Right s := by
  intro always
  have right := always [(.mmap, 0)] [⟨1073742848, ⟨true, true, 0⟩⟩] _ rfl
  obtain ⟨id, _, _, enough⟩ := right.granted (by decide) (by decide)
  exact absurd enough (by decide)

end runs
end VteDoioAlloc
