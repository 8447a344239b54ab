import Vte.Fs.DoioCache

/-!
Runs of the descriptor cache. An occupied slot stands for one open descriptor, and without -v its
address for one mapping; what can go wrong is the release of an address that is no mapping, and the
eviction of a slot that has one.
-/
namespace VteDoioCache
open CInt Text

def FdCache.desc? (cp : FdCache) : Option Desc :=
  if cp.Occupied then some ⟨cp.cFd, cp.cFile, cp.cOflags⟩ else none

def FdCache.mapping? (cp : FdCache) : Option Mapping :=
  if cp.Occupied ∧ cp.cMemaddr ≠ 0 then some ⟨cp.cMemaddr, cp.cMemlen⟩ else none

def descs (cache : List FdCache) : List Desc := cache.filterMap FdCache.desc?

def mappings (cache : List FdCache) : List Mapping := cache.filterMap FdCache.mapping?

def Desc.key (d : Desc) : Str × Int := (d.file, d.oflags)

/-- Every open descriptor is in exactly one occupied slot, opened for the file and the flags of the
    slot, and no two occupied slots have the same file and flags. -/
structure Consistent (s : State) : Prop where
  held : s.opened.Perm (descs s.cache)
  once : ((descs s.cache).map Desc.fd).Nodup
  distinct : ((descs s.cache).map Desc.key).Nodup

def Oldest (cache : List FdCache) (cp : FdCache) : Prop :=
  cp ∈ cache ∧ cp.Occupied ∧ ∀ other ∈ cache, other.Occupied → cp.cRtc ≤ other.cRtc

def Evicted (cache : List FdCache) (e : Nat) (cp : FdCache) : Prop :=
  cache[e]? = some cp ∧ Oldest cache cp ∧
    ∀ j other, j < e → cache[j]? = some other → other.Occupied → cp.cRtc < other.cRtc

def Request.target : Request → Option (Str × Int × Outcomes)
  | .alloc file oflags o | .mmrw file oflags o _ => some (file, oflags, o)
  | .free _ => none

/-- The request ends with a descriptor for exactly its file and flags, unless it ends the process,
    and closes at most the oldest one. -/
def Answers (vOpt : Bool) (s : State) (r : Request) (file : Str) (oflags : Int) : Prop :=
  ((perform vOpt r s).ret = .exits ∨ ∃ i cp, (perform vOpt r s).ret = .slot i ∧
    (perform vOpt r s).state.cache[i]? = some cp ∧
    (⟨cp.cFd, file, oflags⟩ : Desc) ∈ (perform vOpt r s).state.opened) ∧
  ∀ fd, .closes fd ∈ (perform vOpt r s).calls → ∃ cp, Oldest s.cache cp ∧ cp.cFd = fd

def Releases (s : State) (calls : List Sys) : Prop :=
  calls.Perm (s.opened.map (fun d => .closes d.fd) ++ s.mapped.map fun m => .munmaps m.addr m.len)

def Right (vOpt : Bool) (s : State) (r : Request) : Prop :=
  match r.target with
  | some (file, oflags, _) => Answers vOpt s r file oflags
  | none => (perform vOpt r s).ret = .released ∧ Releases s (perform vOpt r s).calls

/-- `open` returns a descriptor that is not open, the second time when the oldest one is closed, and
    `mmap` an address that is not NULL. -/
structure Kernel (s : State) (r : Request) : Prop where
  first : ∀ file oflags o n, r.target = some (file, oflags, o) → o.first = .fd n → (n : Int) ∉ s.opened.map Desc.fd
  second : ∀ file oflags o n e cp, r.target = some (file, oflags, o) → o.second = .fd n →
    Evicted s.cache e cp → (n : Int) ∈ s.opened.map Desc.fd → (n : Int) = cp.cFd
  addr : ∀ file oflags o m addr, r = .mmrw file oflags o m → m.addr = some addr → addr ≠ 0

/-- At EMFILE there is a descriptor to close, and no mapping goes with it; a release finds a cache,
    no address in slots that were never filled, and no address of a mapping that is gone. -/
structure Fine (vOpt : Bool) (s : State) (r : Request) : Prop where
  evicts : ∀ file oflags o, r.target = some (file, oflags, o) → o.first = .emfile →
    (file, oflags) ∉ (descs s.cache).map Desc.key →
    ∃ e cp, Evicted s.cache e cp ∧ (vOpt = false → cp.cMemaddr = 0)
  releases : r.target = none → s.cache ≠ [] ∧ ∀ cp ∈ s.cache, ¬ cp.Occupied ∨ vOpt = true → cp.cMemaddr = 0

def Ret.Ends : Ret → Prop
  | .exits | .crashes => True
  | _ => False

inductive Reached (vOpt : Bool) : State → Prop where
  | init : Reached vOpt init
  | step {s : State} (r : Request) (before : Reached vOpt s) (kernel : Kernel s r)
      (fine : Fine vOpt s r) (goes_on : ¬ (perform vOpt r s).ret.Ends) :
      Reached vOpt (perform vOpt r s).state

section slots
variable {β : Type} (f : FdCache → Option β) {cache : List FdCache} {i : Nat} {old : FdCache}

theorem slots_perm (found : cache[i]? = some old) :
    (cache.filterMap f).Perm ((f old).toList ++ (cache.eraseIdx i).filterMap f) := by
  obtain ⟨bound, here⟩ := List.getElem?_eq_some_iff.mp found
  have perm := (List.getElem_cons_eraseIdx_perm bound).symm.filterMap f
  rw [here] at perm
  cases value : f old with
  | none => simpa [List.filterMap_cons, value] using perm
  | some b => simpa [List.filterMap_cons, value] using perm

theorem slots_set_perm (found : cache[i]? = some old) (new : FdCache) :
    ((cache.set i new).filterMap f).Perm ((f new).toList ++ (cache.eraseIdx i).filterMap f) := by
  obtain ⟨bound, _⟩ := List.getElem?_eq_some_iff.mp found
  have perm := (List.set_perm_cons_eraseIdx bound new).filterMap f
  cases value : f new with
  | none => simpa [List.filterMap_cons, value] using perm
  | some b => simpa [List.filterMap_cons, value] using perm

theorem slots_same (found : cache[i]? = some old) {new : FdCache} (same : f new = f old) :
    ((cache.set i new).filterMap f).Perm (cache.filterMap f) := by
  have set := slots_set_perm f found new
  rw [same] at set
  exact set.trans (slots_perm f found).symm

theorem slots_added (found : cache[i]? = some old) {new : FdCache} {b : β} (hidden : f old = none)
    (shown : f new = some b) : ((cache.set i new).filterMap f).Perm (b :: cache.filterMap f) := by
  have set := slots_set_perm f found new
  have before := slots_perm f found
  rw [shown] at set
  rw [hidden] at before
  exact set.trans (before.symm.cons b)

theorem slots_removed (found : cache[i]? = some old) {new : FdCache} {b : β} (shown : f old = some b)
    (hidden : f new = none) : (cache.filterMap f).Perm (b :: (cache.set i new).filterMap f) := by
  have set := slots_set_perm f found new
  have before := slots_perm f found
  rw [hidden] at set
  rw [shown] at before
  exact before.trans (set.symm.cons b)

theorem set_at (found : cache[i]? = some old) (new : FdCache) : (cache.set i new)[i]? = some new := by
  obtain ⟨bound, _⟩ := List.getElem?_eq_some_iff.mp found
  rw [List.getElem?_set_self bound]

end slots

section look
variable {file : Str} {oflags : Int}

structure Seen (done : List FdCache) (free : Option Nat) (oldest : Option (Nat × Int)) : Prop where
  free_slot : ∀ i, free = some i → ∃ cp, done[i]? = some cp ∧ ¬ cp.Occupied
  oldest_slot : ∀ e rtc, oldest = some (e, rtc) → ∃ cp, Evicted done e cp ∧ cp.cRtc = rtc
  nothing : oldest = none → ∀ cp ∈ done, ¬ cp.Occupied

theorem evicted_snoc {done : List FdCache} {e : Nat} {cp other : FdCache}
    (evicted : Evicted done e cp) (later : other.Occupied → cp.cRtc ≤ other.cRtc) :
    Evicted (done ++ [other]) e cp := by
  obtain ⟨found, ⟨mem, occupied, least⟩, earliest⟩ := evicted
  obtain ⟨bound, _⟩ := List.getElem?_eq_some_iff.mp found
  refine ⟨by rw [List.getElem?_append_left bound, found], ⟨List.mem_append_left _ mem, occupied, ?_⟩, ?_⟩
  · intro slot inside taken
    rcases List.mem_append.mp inside with inside | inside
    · exact least slot inside taken
    · obtain rfl := List.mem_singleton.mp inside
      exact later taken
  · intro j slot before here taken
    rw [List.getElem?_append_left (by omega)] at here
    exact earliest j slot before here taken

theorem evicted_unique {cache : List FdCache} {e e' : Nat} {cp cp' : FdCache}
    (evicted : Evicted cache e cp) (evicted' : Evicted cache e' cp') : e = e' ∧ cp = cp' := by
  obtain ⟨found, ⟨mem, occupied, least⟩, earliest⟩ := evicted
  obtain ⟨found', ⟨mem', occupied', least'⟩, earliest'⟩ := evicted'
  have tied := least cp' mem' occupied'
  have tied' := least' cp mem occupied
  have same : e = e' := by
    rcases Nat.lt_trichotomy e e' with before | same | after
    · have bound := earliest' e cp before found occupied
      omega
    · exact same
    · have bound := earliest e' cp' after found' occupied'
      omega
  subst same
  exact ⟨rfl, Option.some.inj (found.symm.trans found')⟩

theorem seen_free {done : List FdCache} {free : Option Nat} {oldest : Option (Nat × Int)}
    (seen : Seen done free oldest) {cp : FdCache} (empty : ¬ cp.Occupied) :
    Seen (done ++ [cp]) (free.or (some done.length)) oldest := by
  refine ⟨?_, ?_, ?_⟩
  · intro i here
    cases known : free with
    | none =>
      rw [known] at here
      obtain rfl := Option.some.inj here
      exact ⟨cp, by simp, empty⟩
    | some k =>
      rw [known] at here
      obtain rfl := Option.some.inj here
      obtain ⟨slot, found, unoccupied⟩ := seen.free_slot k known
      obtain ⟨bound, _⟩ := List.getElem?_eq_some_iff.mp found
      exact ⟨slot, by rw [List.getElem?_append_left bound, found], unoccupied⟩
  · intro e rtc here
    obtain ⟨slot, evicted, same⟩ := seen.oldest_slot e rtc here
    exact ⟨slot, evicted_snoc evicted fun taken => absurd taken empty, same⟩
  · intro none slot mem
    rcases List.mem_append.mp mem with mem | mem
    · exact seen.nothing none slot mem
    · rw [List.mem_singleton.mp mem]
      exact empty

theorem seen_occupied {done : List FdCache} {free : Option Nat} {oldest : Option (Nat × Int)}
    (seen : Seen done free oldest) {cp : FdCache} (occupied : cp.Occupied) :
    Seen (done ++ [cp]) free (older cp done.length oldest) := by
  have keeps : ∀ i, free = some i → ∃ slot, (done ++ [cp])[i]? = some slot ∧ ¬ slot.Occupied := by
    intro i here
    obtain ⟨slot, found, unoccupied⟩ := seen.free_slot i here
    obtain ⟨bound, _⟩ := List.getElem?_eq_some_iff.mp found
    exact ⟨slot, by rw [List.getElem?_append_left bound, found], unoccupied⟩
  have last : (done ++ [cp])[done.length]? = some cp := by simp
  cases known : oldest with
  | none =>
    have before := seen.nothing known
    refine ⟨keeps, ?_, nofun⟩
    intro e rtc here
    obtain ⟨rfl, rfl⟩ : done.length = e ∧ cp.cRtc = rtc := by simpa [older] using here
    refine ⟨cp, ⟨last, ⟨by simp, occupied, ?_⟩, ?_⟩, rfl⟩
    · intro slot inside taken
      rcases List.mem_append.mp inside with inside | inside
      · exact absurd taken (before slot inside)
      · rw [List.mem_singleton.mp inside]
    · intro j slot first here taken
      rw [List.getElem?_append_left first] at here
      exact absurd taken (before slot (List.mem_of_getElem? here))
  | some sofar =>
    obtain ⟨k, best⟩ := sofar
    obtain ⟨slot, evicted, rfl⟩ := seen.oldest_slot k best known
    refine ⟨keeps, ?_, ?_⟩
    · intro e rtc here
      by_cases smaller : cp.cRtc < slot.cRtc
      · rw [older] at here
        simp only [smaller, if_true, Option.some.injEq, Prod.mk.injEq] at here
        obtain ⟨rfl, rfl⟩ := here
        obtain ⟨_, ⟨_, _, least⟩, _⟩ := evicted
        refine ⟨cp, ⟨last, ⟨by simp, occupied, ?_⟩, ?_⟩, rfl⟩
        · intro other inside taken
          rcases List.mem_append.mp inside with inside | inside
          · have bound := least other inside taken
            omega
          · rw [List.mem_singleton.mp inside]
        · intro j other first here taken
          rw [List.getElem?_append_left first] at here
          have bound := least other (List.mem_of_getElem? here) taken
          omega
      · rw [older] at here
        simp only [smaller, if_false, Option.some.injEq, Prod.mk.injEq] at here
        obtain ⟨rfl, rfl⟩ := here
        exact ⟨slot, evicted_snoc evicted fun _ => by omega, rfl⟩
    · intro none
      rw [older] at none
      split at none <;> cases none

def Matches (file : Str) (oflags : Int) (cp : FdCache) : Prop :=
  cp.Occupied ∧ cp.cOflags = oflags ∧ cp.cFile = file

theorem look_spec (rest : List FdCache) : ∀ (done : List FdCache) (free : Option Nat)
    (oldest : Option (Nat × Int)), Seen done free oldest →
    (∃ k cp, look file oflags done.length free oldest rest = .hit k ∧
      (done ++ rest)[k]? = some cp ∧ Matches file oflags cp) ∨
    (∃ free' oldest', look file oflags done.length free oldest rest = .miss free' (oldest'.map Prod.fst) ∧
      (∀ cp ∈ rest, ¬ Matches file oflags cp) ∧ Seen (done ++ rest) free' oldest') := by
  induction rest with
  | nil =>
    intro done free oldest seen
    rw [List.append_nil]
    exact Or.inr ⟨free, oldest, rfl, nofun, seen⟩
  | cons cp rest ih =>
    intro done free oldest seen
    have whole : done ++ cp :: rest = (done ++ [cp]) ++ rest := by simp
    have next : (done ++ [cp]).length = done.length + 1 := by simp
    rw [look, whole]
    by_cases same : cp.cFd ≠ -1 ∧ cp.cOflags = oflags ∧ cp.cFile = file
    · rw [if_pos same]
      exact Or.inl ⟨done.length, cp, rfl, by simp, same⟩
    · rw [if_neg same]
      by_cases empty : cp.cFd = -1
      · rw [if_pos empty, ← next]
        rcases ih _ _ _ (seen_free seen (not_not.mpr empty)) with hit | ⟨free', oldest', miss, others, seen'⟩
        · exact Or.inl hit
        · refine Or.inr ⟨free', oldest', miss, ?_, seen'⟩
          intro slot mem
          rcases List.mem_cons.mp mem with rfl | mem
          · exact same
          · exact others slot mem
      · rw [if_neg empty, ← next]
        rcases ih _ _ _ (seen_occupied seen empty) with hit | ⟨free', oldest', miss, others, seen'⟩
        · exact Or.inl hit
        · refine Or.inr ⟨free', oldest', miss, ?_, seen'⟩
          intro slot mem
          rcases List.mem_cons.mp mem with rfl | mem
          · exact same
          · exact others slot mem

theorem seen_start : Seen [] none none := ⟨nofun, nofun, fun _ => nofun⟩

end look

/-- Under -v nothing stays mapped; otherwise the mappings are those of the occupied slots. -/
structure Inv (vOpt : Bool) (s : State) : Prop where
  consistent : Consistent s
  verbose : vOpt = true → s.mapped = []
  kept : vOpt = false → s.mapped.Perm (mappings s.cache)

section views
variable {vOpt : Bool} {s : State} {cache : List FdCache} {file : Str} {oflags : Int}

theorem inv_views (inv : Inv vOpt s) (desc : (descs cache).Perm (descs s.cache))
    (mapping : (mappings cache).Perm (mappings s.cache)) :
    Inv vOpt { s with cache := cache } := by
  obtain ⟨⟨held, once, distinct⟩, verbose, kept⟩ := inv
  refine ⟨⟨held.trans desc.symm, ?_, ?_⟩, verbose, fun quiet => (kept quiet).trans mapping.symm⟩
  · exact ((desc.map Desc.fd).nodup_iff).mpr once
  · exact ((desc.map Desc.key).nodup_iff).mpr distinct

theorem matches_desc {cp : FdCache} (mem : cp ∈ cache) (here : Matches file oflags cp) :
    (⟨cp.cFd, file, oflags⟩ : Desc) ∈ descs cache := by
  obtain ⟨occupied, rfl, rfl⟩ := here
  refine List.mem_filterMap.mpr ⟨cp, mem, ?_⟩
  rw [FdCache.desc?, if_pos occupied]

theorem no_match_key (none : ∀ cp ∈ cache, ¬ Matches file oflags cp) :
    (file, oflags) ∉ (descs cache).map Desc.key := by
  intro mem
  obtain ⟨d, inside, same⟩ := List.mem_map.mp mem
  obtain ⟨cp, here, shown⟩ := List.mem_filterMap.mp inside
  unfold FdCache.desc? at shown
  split at shown
  · rename_i occupied
    obtain rfl := Option.some.inj shown
    obtain ⟨rfl, rfl⟩ := Prod.mk.inj same
    exact none cp here ⟨occupied, rfl, rfl⟩
  · cases shown

theorem unoccupied_views {cp : FdCache} (empty : ¬ cp.Occupied) :
    cp.desc? = none ∧ cp.mapping? = none := by
  constructor
  · rw [FdCache.desc?, if_neg empty]
  · rw [FdCache.mapping?, if_neg fun both => empty both.1]

theorem new_slot_occupied (file : Str) (oflags : Int) (fd : Nat) (reqno : Int) :
    (newSlot file oflags fd reqno).Occupied := by
  change (fd : Int) ≠ -1
  omega

theorem new_slot_views (file : Str) (oflags : Int) (fd : Nat) (reqno : Int) :
    (newSlot file oflags fd reqno).desc? = some ⟨fd, file, oflags⟩ ∧
      (newSlot file oflags fd reqno).mapping? = none := by
  have occupied := new_slot_occupied file oflags fd reqno
  constructor
  · rw [FdCache.desc?, if_pos occupied]
    rfl
  · rw [FdCache.mapping?, if_neg]
    exact fun both => both.2 rfl

theorem grown_views (memory : Nat → FdCache) (cache : List FdCache) :
    descs (grown memory cache) = descs cache ∧ mappings (grown memory cache) = mappings cache := by
  have empty : ∀ cp ∈ (List.range fdAllocIncr).map (fun i => { memory i with cFd := -1 }), ¬ cp.Occupied := by
    intro cp mem
    obtain ⟨i, _, rfl⟩ := List.mem_map.mp mem
    exact not_not.mpr rfl
  constructor
  · rw [descs, grown, List.filterMap_append]
    have none := List.filterMap_eq_nil_iff.mpr fun cp mem => (unoccupied_views (empty cp mem)).1
    rw [none, List.append_nil, descs]
  · rw [mappings, grown, List.filterMap_append]
    have none := List.filterMap_eq_nil_iff.mpr fun cp mem => (unoccupied_views (empty cp mem)).2
    rw [none, List.append_nil, mappings]

theorem grown_at (memory : Nat → FdCache) (cache : List FdCache) :
    (grown memory cache)[cache.length]? = some { memory 0 with cFd := -1 } := by
  rw [grown, List.getElem?_append_right (Nat.le_refl _), Nat.sub_self]
  rfl

theorem fill_spec {free : Option Nat} (s : State)
    (empty : ∀ i, free = some i → ∃ cp, s.cache[i]? = some cp ∧ ¬ cp.Occupied)
    (file : Str) (oflags : Int) (fd : Nat) (reqno : Int) (memory : Nat → FdCache) :
    ∃ i cache, fill free (newSlot file oflags fd reqno) memory s = (i, { s with cache := cache }) ∧
      cache[i]? = some (newSlot file oflags fd reqno) ∧
      (descs cache).Perm (⟨fd, file, oflags⟩ :: descs s.cache) ∧
      (mappings cache).Perm (mappings s.cache) := by
  obtain ⟨shown, unmapped⟩ := new_slot_views file oflags fd reqno
  cases here : free with
  | some i =>
    obtain ⟨cp, found, unoccupied⟩ := empty i here
    obtain ⟨hidden, hidden'⟩ := unoccupied_views unoccupied
    exact ⟨i, _, rfl, set_at found _, slots_added _ found hidden shown,
      slots_same _ found (unmapped.trans hidden'.symm)⟩
  | none =>
    have found := grown_at memory s.cache
    obtain ⟨desc, mapping⟩ := grown_views memory s.cache
    have unoccupied : ¬ ({ memory 0 with cFd := -1 } : FdCache).Occupied := not_not.mpr rfl
    obtain ⟨hidden, hidden'⟩ := unoccupied_views unoccupied
    refine ⟨s.cache.length, _, rfl, set_at found _, ?_, ?_⟩
    · rw [← desc]
      exact slots_added _ found hidden shown
    · rw [← mapping]
      exact slots_same _ found (unmapped.trans hidden'.symm)

end views

structure Allocated (vOpt : Bool) (s : State) (file : Str) (oflags : Int) (r : Result) : Prop where
  answered : r.ret = .exits ∨ ∃ i cp, r.ret = .slot i ∧ r.state.cache[i]? = some cp ∧
    (⟨cp.cFd, file, oflags⟩ : Desc) ∈ r.state.opened ∧ cp.Occupied
  closes : ∀ fd, .closes fd ∈ r.calls → ∃ cp, Oldest s.cache cp ∧ cp.cFd = fd
  inv : Inv vOpt r.state

section alloc
variable {vOpt : Bool} {s : State} {file : Str} {oflags : Int} {o : Outcomes}

theorem opened_spec {before : State} {free : Option Nat} {n : Nat} {calls : List Sys}
    (inv : Inv vOpt s) (empty : ∀ i, free = some i → ∃ cp, s.cache[i]? = some cp ∧ ¬ cp.Occupied)
    (fresh : (n : Int) ∉ s.opened.map Desc.fd)
    (missing : (file, oflags) ∉ (descs s.cache).map Desc.key)
    (closes : ∀ fd, .closes fd ∈ calls → ∃ cp, Oldest before.cache cp ∧ cp.cFd = fd) :
    Allocated vOpt before file oflags (opened file oflags o free n calls s) := by
  obtain ⟨i, cache, filled, found, desc, mapping⟩ :=
    fill_spec (s.apply (.opens (some file) oflags (.fd n))) empty file oflags n o.reqno o.memory
  obtain ⟨⟨held, once, distinct⟩, verbose, kept⟩ := inv
  have occupied := new_slot_occupied file oflags n o.reqno
  rw [opened]
  simp only [filled]
  refine ⟨Or.inr ⟨i, _, rfl, found, by simp [State.apply, newSlot], occupied⟩, ?_, ?_⟩
  · intro fd mem
    apply closes fd
    simpa using mem
  · have unheld : (n : Int) ∉ (descs s.cache).map Desc.fd :=
      fun mem => fresh ((held.map Desc.fd).mem_iff.mpr mem)
    refine ⟨⟨?_, ?_, ?_⟩, verbose, fun quiet => (kept quiet).trans mapping.symm⟩
    · have added : (s.opened ++ [(⟨n, file, oflags⟩ : Desc)]).Perm
          (⟨n, file, oflags⟩ :: descs s.cache) :=
        (List.perm_append_singleton _ _).trans (held.cons _)
      exact added.trans desc.symm
    · have nodup : ((⟨n, file, oflags⟩ :: descs s.cache : List Desc).map Desc.fd).Nodup :=
        List.nodup_cons.mpr ⟨unheld, once⟩
      exact ((desc.map Desc.fd).nodup_iff).mpr nodup
    · have nodup : ((⟨n, file, oflags⟩ :: descs s.cache : List Desc).map Desc.key).Nodup :=
        List.nodup_cons.mpr ⟨missing, distinct⟩
      exact ((desc.map Desc.key).nodup_iff).mpr nodup

def afterClose (s : State) (e : Nat) (cp : FdCache) : State :=
  { s.closed cp.cFd with cache := s.cache.set e { cp with cFd := -1 } }

theorem after_close {e : Nat} {cp : FdCache} (inv : Inv vOpt s) (evicted : Evicted s.cache e cp)
    (unmapped : vOpt = false → cp.cMemaddr = 0) : Inv vOpt (afterClose s e cp) ∧
      (descs s.cache).Perm (⟨cp.cFd, cp.cFile, cp.cOflags⟩ :: descs (afterClose s e cp).cache) := by
  obtain ⟨found, ⟨_, occupied, _⟩, _⟩ := evicted
  obtain ⟨⟨held, once, distinct⟩, verbose, kept⟩ := inv
  have shown : cp.desc? = some ⟨cp.cFd, cp.cFile, cp.cOflags⟩ := by
    rw [FdCache.desc?, if_pos occupied]
  have empty : ¬ ({ cp with cFd := -1 } : FdCache).Occupied := not_not.mpr rfl
  obtain ⟨hidden, hidden'⟩ := unoccupied_views empty
  have removed : (descs s.cache).Perm
      (⟨cp.cFd, cp.cFile, cp.cOflags⟩ :: descs (afterClose s e cp).cache) :=
    slots_removed _ found shown hidden
  have fds := ((removed.map Desc.fd).nodup_iff).mp once
  have keys := ((removed.map Desc.key).nodup_iff).mp distinct
  rw [List.map_cons] at fds keys
  obtain ⟨gone, once'⟩ := List.nodup_cons.mp fds
  refine ⟨⟨⟨?_, once', (List.nodup_cons.mp keys).2⟩, verbose, ?_⟩, removed⟩
  · have filtered := (held.trans removed).filter fun d => d.fd ≠ cp.cFd
    have others : (descs (afterClose s e cp).cache).filter (fun d => d.fd ≠ cp.cFd) =
        descs (afterClose s e cp).cache := by
      apply List.filter_eq_self.mpr
      intro d mem
      have other : d.fd ≠ cp.cFd := by
        intro same
        exact gone (List.mem_map.mpr ⟨d, mem, same⟩)
      simpa using other
    rw [List.filter_cons_of_neg (by simp), others] at filtered
    exact filtered
  · intro quiet
    have absent : cp.mapping? = none := by
      rw [FdCache.mapping?, if_neg]
      exact fun both => both.2 (unmapped quiet)
    exact (kept quiet).trans (slots_same _ found (hidden'.trans absent.symm)).symm

theorem evict_spec {oldest : Option Nat} {e : Nat} {cp : FdCache} (inv : Inv vOpt s)
    (evicted : Evicted s.cache e cp) (unmapped : vOpt = false → cp.cMemaddr = 0)
    (here : oldest = some e) (missing : (file, oflags) ∉ (descs s.cache).map Desc.key)
    (second : ∀ n, o.second = .fd n → (n : Int) ∈ s.opened.map Desc.fd → (n : Int) = cp.cFd) :
    Allocated vOpt s file oflags (evict file oflags o oldest s) := by
  obtain ⟨inv', removed⟩ := after_close inv evicted unmapped
  have found := evicted.1
  have closes : ∀ fd, .closes fd ∈ [Sys.opens (some file) oflags .emfile] ++ [.closes cp.cFd] →
      ∃ slot, Oldest s.cache slot ∧ slot.cFd = fd := by
    intro fd mem
    have same : fd = cp.cFd := by simpa using mem
    exact ⟨cp, evicted.2.1, same.symm⟩
  have missing' : (file, oflags) ∉ (descs (afterClose s e cp).cache).map Desc.key := by
    intro mem
    apply missing
    exact ((removed.map Desc.key).mem_iff).mpr (List.mem_cons_of_mem _ mem)
  have empty : ∀ i, some e = some i → ∃ slot, (afterClose s e cp).cache[i]? = some slot ∧ ¬ slot.Occupied := by
    intro i same
    obtain rfl := Option.some.inj same
    exact ⟨_, set_at found _, not_not.mpr rfl⟩
  simp only [evict, here, found]
  cases again : o.second with
  | fd n =>
    have fresh : (n : Int) ∉ (afterClose s e cp).opened.map Desc.fd := by
      intro mem
      obtain ⟨d, inside, same⟩ := List.mem_map.mp mem
      obtain ⟨open_, other⟩ := List.mem_filter.mp inside
      have closed := second n again (List.mem_map.mpr ⟨d, open_, same⟩)
      rw [← same] at closed
      simp [closed] at other
    exact opened_spec inv' empty fresh missing' closes
  | emfile =>
    refine ⟨Or.inl rfl, ?_, inv'⟩
    intro fd mem
    exact closes fd (by simpa using mem)
  | fails =>
    refine ⟨Or.inl rfl, ?_, inv'⟩
    intro fd mem
    exact closes fd (by simpa using mem)

theorem alloc_spec (inv : Inv vOpt s)
    (first : ∀ n, o.first = .fd n → (n : Int) ∉ s.opened.map Desc.fd)
    (second : ∀ n e cp, o.second = .fd n → Evicted s.cache e cp → (n : Int) ∈ s.opened.map Desc.fd → (n : Int) = cp.cFd)
    (evicts : o.first = .emfile → (file, oflags) ∉ (descs s.cache).map Desc.key →
      ∃ e cp, Evicted s.cache e cp ∧ (vOpt = false → cp.cMemaddr = 0)) :
    Allocated vOpt s file oflags (allocFdcache (some file) oflags o s) := by
  rw [allocFdcache]
  have looked := @look_spec file oflags s.cache [] none none seen_start
  rcases looked with ⟨k, cp, hit, found, here⟩ | ⟨free, oldest, miss, others, seen⟩
  · rw [List.length_nil] at hit
    rw [List.nil_append] at found
    simp only [hit, found]
    have touched := set_at found { cp with cRtc := o.reqno }
    refine ⟨Or.inr ⟨k, _, rfl, touched, ?_, here.1⟩, nofun, ?_⟩
    · have listed : (⟨cp.cFd, file, oflags⟩ : Desc) ∈ descs s.cache :=
        matches_desc (List.mem_of_getElem? found) here
      exact inv.consistent.held.mem_iff.mpr listed
    · exact inv_views inv (slots_same _ found rfl) (slots_same _ found rfl)
  · rw [List.length_nil] at miss
    rw [List.nil_append] at seen
    have missing := no_match_key others
    simp only [miss]
    cases answer : o.first with
    | fd n => exact opened_spec inv seen.free_slot (first n answer) missing nofun
    | fails => exact ⟨Or.inl rfl, by simp, inv⟩
    | emfile =>
      obtain ⟨e, cp, evicted, unmapped⟩ := evicts answer missing
      cases known : oldest with
      | none => exact absurd evicted.2.1.2.1 (seen.nothing known cp evicted.2.1.1)
      | some sofar =>
        obtain ⟨e', rtc⟩ := sofar
        obtain ⟨cp', evicted', _⟩ := seen.oldest_slot e' rtc known
        obtain ⟨rfl, rfl⟩ := evicted_unique evicted evicted'
        exact evict_spec inv evicted unmapped rfl missing
          fun n again => second n _ _ again evicted

end alloc

section mmrw
variable {vOpt : Bool} {s : State} {file : Str} {oflags : Int} {o : Outcomes} {m : MapOutcomes}

theorem map_spec {i : Nat} {fdc : FdCache} (inv : Inv vOpt s) (found : s.cache[i]? = some fdc)
    (occupied : fdc.Occupied) (maps : vOpt = true ∨ fdc.cMemaddr = 0)
    (some_addr : ∀ addr, m.addr = some addr → addr ≠ 0) :
    Inv vOpt (mapSlot vOpt m i fdc s).2 ∧ (mapSlot vOpt m i fdc s).2.opened = s.opened ∧
      (∃ cp, (mapSlot vOpt m i fdc s).2.cache[i]? = some cp ∧ cp.cFd = fdc.cFd) ∧
      ∀ fd, .closes fd ∉ (mapSlot vOpt m i fdc s).1 := by
  unfold mapSlot
  cases m.size with
  | none => exact ⟨inv, rfl, ⟨fdc, found, rfl⟩, nofun⟩
  | some size =>
    cases mapped : m.addr with
    | none =>
      have lengthened := set_at found { fdc with cMemlen := int32 size }
      refine ⟨?_, rfl, ⟨_, lengthened, rfl⟩, nofun⟩
      rcases maps with verbose | unmapped
      · obtain ⟨⟨held, once, distinct⟩, nothing, _⟩ := inv
        have desc : (descs (s.cache.set i { fdc with cMemlen := int32 size })).Perm (descs s.cache) :=
          slots_same _ found rfl
        refine ⟨⟨held.trans desc.symm, ((desc.map Desc.fd).nodup_iff).mpr once,
          ((desc.map Desc.key).nodup_iff).mpr distinct⟩, nothing, ?_⟩
        intro quiet
        cases verbose.symm.trans quiet
      · have same : ({ fdc with cMemlen := int32 size } : FdCache).mapping? = fdc.mapping? := by
          simp only [FdCache.mapping?, unmapped, ne_eq, not_true, and_false, if_false]
        have inv' : Inv vOpt { s with cache := s.cache.set i { fdc with cMemlen := int32 size } } :=
          inv_views inv (slots_same _ found rfl) (slots_same _ found same)
        exact inv'
    | some addr =>
      let new : FdCache := { fdc with cMemlen := int32 size, cMemaddr := addr }
      have addressed : (s.cache.set i new)[i]? = some new := set_at found _
      obtain ⟨⟨held, once, distinct⟩, nothing, kept⟩ := inv
      have desc : (descs (s.cache.set i new)).Perm (descs s.cache) := slots_same _ found rfl
      have held' := held.trans desc.symm
      have once' := ((desc.map Desc.fd).nodup_iff).mpr once
      have distinct' := ((desc.map Desc.key).nodup_iff).mpr distinct
      cases vOpt with
      | true =>
        refine ⟨⟨⟨held', once', distinct'⟩, fun _ => ?_, nofun⟩, rfl, ⟨_, addressed, rfl⟩, by simp⟩
        simp [State.applyAll, State.apply, State.unmapped, nothing rfl]
      | false =>
        have unmapped : fdc.cMemaddr = 0 := maps.resolve_left nofun
        have hidden : fdc.mapping? = none := by
          rw [FdCache.mapping?, if_neg]
          exact fun both => both.2 unmapped
        have shown : new.mapping? = some ⟨addr, int32 size⟩ := by
          rw [FdCache.mapping?, if_pos ⟨occupied, some_addr addr mapped⟩]
        have added : (mappings (s.cache.set i new)).Perm (⟨addr, int32 size⟩ :: mappings s.cache) :=
          slots_added _ found hidden shown
        refine ⟨⟨⟨held', once', distinct'⟩, nofun, fun _ => ?_⟩, rfl, ⟨_, addressed, rfl⟩, by simp⟩
        have grown : (s.mapped ++ [(⟨addr, int32 size⟩ : Mapping)]).Perm
            (⟨addr, int32 size⟩ :: mappings s.cache) :=
          (List.perm_append_singleton _ _).trans ((kept rfl).cons _)
        exact grown.trans added.symm

theorem mmrw_spec (allocated : Allocated vOpt s file oflags (allocFdcache (some file) oflags o s))
    (some_addr : ∀ addr, m.addr = some addr → addr ≠ 0) :
    Allocated vOpt s file oflags (syMmrw vOpt file oflags o m s) := by
  obtain ⟨answered, closes, inv⟩ := id allocated
  unfold syMmrw
  rcases answered with exits | ⟨i, fdc, slot, found, listed, occupied⟩
  · simp only [exits]
    exact allocated
  · simp only [slot, found]
    split
    · rename_i maps
      obtain ⟨inv', opened, ⟨cp, found', same⟩, unclosed⟩ :=
        map_spec (m := m) inv found occupied maps some_addr
      refine ⟨Or.inr ⟨i, cp, rfl, found', ?_, ?_⟩, ?_, inv'⟩
      · change _ ∈ (mapSlot vOpt m i fdc _).2.opened
        rw [opened, same]
        exact listed
      · rw [FdCache.Occupied, same]
        exact occupied
      · intro fd mem
        rcases List.mem_append.mp mem with mem | mem
        · exact closes fd mem
        · exact absurd mem (unclosed fd)
    · exact allocated

end mmrw

section release
variable {vOpt : Bool} {s : State}

def closeOf (d : Desc) : Sys := .closes d.fd

def unmapOf (m : Mapping) : Sys := .munmaps m.addr m.len

theorem release_slot {cp : FdCache} (clean : ¬ cp.Occupied → cp.cMemaddr = 0) :
    releaseSlot cp = cp.desc?.toList.map closeOf ++ cp.mapping?.toList.map unmapOf := by
  rw [releaseSlot, FdCache.desc?, FdCache.mapping?]
  by_cases occupied : cp.Occupied
  · have open_ : cp.cFd ≠ -1 := occupied
    by_cases unmapped : cp.cMemaddr = 0
    · simp [open_, occupied, unmapped, closeOf]
    · simp [open_, occupied, unmapped, closeOf, unmapOf]
  · have free : cp.cFd = -1 := not_not.mp occupied
    simp [free, occupied, clean occupied]

theorem release_calls (cache : List FdCache) (clean : ∀ cp ∈ cache, ¬ cp.Occupied → cp.cMemaddr = 0) :
    (cache.flatMap releaseSlot).Perm
      ((descs cache).map closeOf ++ (mappings cache).map unmapOf) := by
  induction cache with
  | nil => exact List.Perm.nil
  | cons cp cache ih =>
    have rest := ih fun other mem => clean other (by simp [mem])
    have descs_cons : descs (cp :: cache) = cp.desc?.toList ++ descs cache := by
      cases shown : cp.desc? <;> simp [descs, shown]
    have mappings_cons : mappings (cp :: cache) = cp.mapping?.toList ++ mappings cache := by
      cases shown : cp.mapping? <;> simp [mappings, shown]
    rw [List.flatMap_cons, release_slot (clean cp (by simp)), descs_cons, mappings_cons,
      List.map_append, List.map_append]
    have swap : ∀ a b c d : List Sys, ((a ++ b) ++ (c ++ d)).Perm ((a ++ c) ++ (b ++ d)) := by
      intro a b c d
      simp only [List.append_assoc]
      apply List.Perm.append_left
      rw [← List.append_assoc, ← List.append_assoc]
      exact List.perm_append_comm.append_right d
    exact (rest.append_left _).trans (swap _ _ _ _)

theorem apply_left {calls : List Sys} : ∀ {s : State},
    (∀ c ∈ calls, (∃ fd, c = .closes fd) ∨ ∃ addr len, c = .munmaps addr len) →
    (∀ d ∈ (s.applyAll calls).opened, d ∈ s.opened ∧ closeOf d ∉ calls) ∧
      ∀ m ∈ (s.applyAll calls).mapped, m ∈ s.mapped ∧ unmapOf m ∉ calls := by
  induction calls with
  | nil => exact fun _ => ⟨fun d mem => ⟨mem, nofun⟩, fun m mem => ⟨mem, nofun⟩⟩
  | cons c calls ih =>
    intro s only
    have rest : (∀ d ∈ ((s.apply c).applyAll calls).opened, _) ∧ _ :=
      ih fun c' mem => only c' (by simp [mem])
    obtain ⟨opened, mapped⟩ := rest
    rcases only c (by simp) with ⟨fd, rfl⟩ | ⟨addr, len, rfl⟩
    · constructor
      · intro d mem
        obtain ⟨left, other⟩ := opened d mem
        obtain ⟨inside, apart⟩ := List.mem_filter.mp left
        refine ⟨inside, ?_⟩
        simp only [closeOf, List.mem_cons, Sys.closes.injEq, not_or] at other ⊢
        exact ⟨by simpa using apart, other⟩
      · intro m mem
        obtain ⟨inside, other⟩ := mapped m mem
        refine ⟨inside, ?_⟩
        simpa [unmapOf] using other
    · constructor
      · intro d mem
        obtain ⟨inside, other⟩ := opened d mem
        refine ⟨inside, ?_⟩
        simpa [closeOf] using other
      · intro m mem
        obtain ⟨left, other⟩ := mapped m mem
        obtain ⟨inside, apart⟩ := List.mem_filter.mp left
        refine ⟨inside, ?_⟩
        simp only [unmapOf, List.mem_cons, Sys.munmaps.injEq, not_or] at other ⊢
        exact ⟨fun same => by simp [same.1] at apart, other⟩

theorem release_spec (inv : Inv vOpt s)
    (clean : ∀ cp ∈ s.cache, ¬ cp.Occupied ∨ vOpt = true → cp.cMemaddr = 0) :
    Releases s (release s).calls ∧ Inv vOpt (release s).state := by
  have calls := release_calls s.cache fun cp mem empty => clean cp mem (Or.inl empty)
  have mapped : s.mapped.Perm (mappings s.cache) := by
    cases option : vOpt with
    | false => exact inv.kept option
    | true =>
      have none : mappings s.cache = [] := by
        apply List.filterMap_eq_nil_iff.mpr
        intro cp mem
        rw [FdCache.mapping?, if_neg]
        exact fun both => both.2 (clean cp mem (Or.inr option))
      rw [inv.verbose option, none]
  have listed : (release s).calls.Perm (s.opened.map closeOf ++ s.mapped.map unmapOf) :=
    calls.trans (((inv.consistent.held.map closeOf).append (mapped.map unmapOf)).symm)
  have only : ∀ c ∈ (release s).calls, (∃ fd, c = .closes fd) ∨ ∃ addr len, c = .munmaps addr len := by
    intro c mem
    rcases List.mem_append.mp (listed.mem_iff.mp mem) with inside | inside
    · obtain ⟨d, _, rfl⟩ := List.mem_map.mp inside
      exact Or.inl ⟨_, rfl⟩
    · obtain ⟨m, _, rfl⟩ := List.mem_map.mp inside
      exact Or.inr ⟨_, _, rfl⟩
  obtain ⟨opened, unmapped⟩ := apply_left (s := s) only
  have no_desc : (release s).state.opened = [] := by
    rw [List.eq_nil_iff_forall_not_mem]
    intro d mem
    obtain ⟨inside, kept⟩ := opened d mem
    exact kept (listed.mem_iff.mpr (List.mem_append_left _ (List.mem_map.mpr ⟨d, inside, rfl⟩)))
  have no_mapping : (release s).state.mapped = [] := by
    rw [List.eq_nil_iff_forall_not_mem]
    intro m mem
    obtain ⟨inside, kept⟩ := unmapped m mem
    exact kept (listed.mem_iff.mpr (List.mem_append_right _ (List.mem_map.mpr ⟨m, inside, rfl⟩)))
  refine ⟨listed, ⟨⟨?_, List.nodup_nil, List.nodup_nil⟩, fun _ => no_mapping, fun _ => ?_⟩⟩
  · rw [no_desc]
    exact List.Perm.nil
  · rw [no_mapping]
    exact List.Perm.nil

end release

section runs
variable {vOpt : Bool} {s : State}

theorem allocated_answers {r : Request} {file : Str} {oflags : Int}
    (allocated : Allocated vOpt s file oflags (perform vOpt r s)) : Answers vOpt s r file oflags := by
  obtain ⟨answered, closes, _⟩ := allocated
  refine ⟨?_, closes⟩
  rcases answered with exits | ⟨i, cp, slot, found, listed, _⟩
  · exact Or.inl exits
  · exact Or.inr ⟨i, cp, slot, found, listed⟩

theorem step_right (inv : Inv vOpt s) (r : Request) (kernel : Kernel s r) (fine : Fine vOpt s r) :
    Right vOpt s r ∧ Inv vOpt (perform vOpt r s).state := by
  cases r with
  | alloc file oflags o =>
    have allocated : Allocated vOpt s file oflags (allocFdcache (some file) oflags o s) :=
      alloc_spec inv (fun n => kernel.first file oflags o n rfl)
        (fun n e cp => kernel.second file oflags o n e cp rfl) (fine.evicts file oflags o rfl)
    exact ⟨allocated_answers allocated, allocated.inv⟩
  | mmrw file oflags o m =>
    have allocated : Allocated vOpt s file oflags (allocFdcache (some file) oflags o s) :=
      alloc_spec inv (fun n => kernel.first file oflags o n rfl)
        (fun n e cp => kernel.second file oflags o n e cp rfl) (fine.evicts file oflags o rfl)
    have mapped : Allocated vOpt s file oflags (syMmrw vOpt file oflags o m s) :=
      mmrw_spec allocated fun addr => kernel.addr file oflags o m addr rfl
    exact ⟨allocated_answers mapped, mapped.inv⟩
  | free o =>
    obtain ⟨some_slot, clean⟩ := fine.releases rfl
    have released : allocFdcache none 0 o s = release s := by rw [allocFdcache, if_pos some_slot]
    obtain ⟨releases, inv'⟩ := release_spec inv clean
    rw [Right, perform, released]
    exact ⟨⟨rfl, releases⟩, inv'⟩

theorem reached_inv (reached : Reached vOpt s) : Inv vOpt s := by
  induction reached with
  | init =>
    exact ⟨⟨List.Perm.nil, List.nodup_nil, List.nodup_nil⟩, fun _ => rfl, fun _ => List.Perm.nil⟩
  | step r before kernel fine goes_on ih => exact (step_right ih r kernel fine).2

/-- In every run whose steps meet the condition, the slots and the open descriptors agree in every
    state, and the next request does what it is for. -/
theorem cache_right (reached : Reached vOpt s) : Consistent s ∧ ∀ r, Kernel s r → Fine vOpt s r → Right vOpt s r :=
  ⟨(reached_inv reached).consistent, fun r kernel fine => (step_right (reached_inv reached) r kernel fine).1⟩

end runs

/-- `realloc` returns zeroed memory, and `open` descriptor 3. -/
def plainOutcomes : Outcomes := ⟨.fd 3, .fails, fun _ => ⟨[], 0, 0, 0, 0, 0⟩, 1⟩

def openFile : Request := .alloc ['f'] 2 plainOutcomes

theorem opened_and_released : Reached false (perform false openFile init).state ∧
    Consistent (perform false openFile init).state ∧
    Right false (perform false openFile init).state (.free plainOutcomes) := by
  have kernel : Kernel init openFile := by
    refine ⟨?_, ?_, ?_⟩
    · intro file oflags o n _ _ mem
      cases mem
    · intro file oflags o n e cp _ _ evicted
      cases evicted.1
    · intro file oflags o m addr mmrw
      cases mmrw
  have fine : Fine false init openFile := by
    refine ⟨?_, fun target => nomatch target⟩
    intro file oflags o target first
    obtain ⟨rfl, rfl, rfl⟩ : ['f'] = file ∧ 2 = oflags ∧ plainOutcomes = o := by
      simpa [Request.target, openFile] using target
    cases first
  have reached : Reached false (perform false openFile init).state :=
    Reached.step openFile Reached.init kernel fine id
  have kernel' : Kernel (perform false openFile init).state (.free plainOutcomes) := by
    refine ⟨?_, ?_, ?_⟩
    · intro file oflags o n target
      cases target
    · intro file oflags o n e cp target
      cases target
    · intro file oflags o m addr mmrw
      cases mmrw
  have fine' : Fine false (perform false openFile init).state (.free plainOutcomes) := by
    refine ⟨?_, fun _ => ⟨by decide, ?_⟩⟩
    · intro file oflags o target
      cases target
    have clean : ∀ cp ∈ (perform false openFile init).state.cache, cp.cMemaddr = 0 := by decide
    exact fun cp mem _ => clean cp mem
  exact ⟨reached, (cache_right reached).1, (cache_right reached).2 _ kernel' fine'⟩

def mapFile : Request := .mmrw ['f'] 2 plainOutcomes ⟨some 512, some 4096⟩

/-- Under -v a mapping is gone when `sy_mmrw` returns, and the release unmaps its address again. -/
theorem released_twice :
    (perform true mapFile init).calls = [.opens (some ['f']) 2 (.fd 3), .mmaps 4096 512, .munmaps 4096 512] ∧
    (perform true mapFile init).state.mapped = [] ∧
    (perform true (.free plainOutcomes) (perform true mapFile init).state).calls = [.closes 3, .munmaps 4096 512] ∧
    ¬ Right true (perform true mapFile init).state (.free plainOutcomes) := by
  have calls : (perform true (.free plainOutcomes) (perform true mapFile init).state).calls =
      [.closes 3, .munmaps 4096 512] := by decide
  refine ⟨by decide, by decide, calls, ?_⟩
  rintro ⟨_, releases⟩
  rw [Releases, calls] at releases
  exact absurd releases.length_eq (by decide)

end VteDoioCache
