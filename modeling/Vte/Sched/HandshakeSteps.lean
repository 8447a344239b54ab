import Vte.Sched.HandshakeInv

/-!
What a step of a process that forks nobody changes, its own place apart.
-/
namespace Handshake
open Function HeapTree Process

section takes
variable (p : Params) (b d : Nat) (s : State) (v : Nat) (pr : Proc)

structure Goes (l : Nat) : Prop where
  level : Level b l v
  within : l ≤ d
  present : (s.proc v).pc ≠ .absent
  there : pr.pc ≠ .absent
  place : Place b d l v pr
  pslot : ∀ f ∈ pr.frames, f.pslot = 0
  made : made b d v pr = made b d v (s.proc v)

inductive Takes : State → Prop where
  | start (place : (s.proc v).pc = .start) (next : pr.pc = .fork ∨ pr.pc = .send 1) :
      Takes (State.put { s with
        shm := update s.shm v ⟨p.pid v, if v = 0 then (s.shm v).list else entries p.args v⟩ } v pr)
  | send (i w : Nat) (place : (s.proc v).pc = .send i) (leaf : Leaf b d v) (more : i < b) (entry : Entry p v i w)
      (next : pr.pc = if i + 1 < b then .send (i + 1) else .receive 1) :
      Takes (State.put { s with queue := s.queue ++ [message p v i w] } v pr)
  | receive (cldcnt u i : Nat) (place : (s.proc v).pc = .receive cldcnt) (leaf : Leaf b d v) (more : cldcnt < b)
      (sender : Leaf b d u) (entry : Entry p u i v) (member : message p u i v ∈ s.queue)
      (next : pr.pc = if cldcnt + 1 < b then .receive (cldcnt + 1) else .lock v) :
      Takes (State.put { s with
        queue := s.queue.erase (message p u i v)
        got := update s.got v (s.got v ++ [u]) } v pr)
  | semZero (place : (s.proc v).pc = .semZero) (inner : v < nodes b d) (count : s.sem_count v = 0)
      (next : pr.pc = .lock v) :
      Takes (State.put { s with zero := update s.zero v true } v pr)
  | lock (place : (s.proc v).pc = .lock v) (free : 0 < s.sem_lock (parent b v))
      (next : pr.pc = .getval (parent b v)) :
      Takes (State.put { s with
        sem_lock := update s.sem_lock (parent b v) (s.sem_lock (parent b v) - 1) } v pr)
  | getval (place : (s.proc v).pc = .getval (parent b v))
      (next : pr.pc = .setval (parent b v) ((s.sem_count (parent b v) : Int) - 1)) :
      Takes (s.put v pr)
  | setval (semval : Int) (place : (s.proc v).pc = .setval (parent b v) semval)
      (next : pr.pc = .unlock (parent b v)) :
      Takes (State.put (if 0 ≤ semval then
        { s with
          sem_count := update s.sem_count (parent b v) semval.toNat
          decremented := update s.decremented (parent b v) (s.decremented (parent b v) ++ [v]) }
        else s) v pr)
  | unlock (place : (s.proc v).pc = .unlock (parent b v)) (next : pr.pc = .doit) :
      Takes (State.put { s with sem_lock := update s.sem_lock (parent b v) 1 } v pr)
  | doit (place : (s.proc v).pc = .doit) (next : pr.pc = .exited) :
      Takes (State.put { s with success := s.success || (s.shm 0).pid = p.pid v } v pr)

end takes

section cases
variable {p : Params} {b d v : Nat} {s t : State}

theorem Tree.here (tree : Tree b d s) (present : (s.proc v).pc ≠ .absent) :
    ∃ l ≤ d, Level b l v ∧ Place b d l v (s.proc v) := by
  obtain ⟨l, small, level⟩ := tree.level present
  exact ⟨l, small, level, tree.place v l level small⟩

theorem last_child (wide : 0 < b) : parent b (v * b + b) = v := parent_child (mem_children.mpr (by omega))

theorem start_takes (fits : Fits p b d) (tree : Tree b d s) (place : (s.proc v).pc = .start) :
    ∃ l pr, Goes b d s v pr l ∧ Takes p b d s v pr (start p s v) := by
  have present : (s.proc v).pc ≠ .absent := by simp [place]
  have wide := fits.shape.wide
  have deep := fits.shape.deep
  obtain ⟨l, small, level, here⟩ := tree.here present
  have pslot := tree.pslot v
  rw [Place, place] at here
  obtain ⟨own_level, depth, static⟩ := here
  have early := level_lt_iff level d
  unfold start
  simp only [fits.depth, own_level]
  split
  · rename_i spawns
    have inner : l < d := by
      rcases spawns with rfl | below
      · rw [level_unique level level_zero]
        omega
      · exact below
    refine ⟨l, _, ⟨level, small, present, ?_, ?_, ?_, ?_⟩, .start place (.inl rfl)⟩
    · simp
    · exact ⟨inner, rfl, _, _, rfl, depth, rfl, Nat.le_refl 1, by simp only; omega⟩
    · intro f member
      rcases List.mem_cons.mp member with rfl | old
      · rfl
      · exact pslot f old
    · simp [made, place]
  · rename_i stays
    have last : l = d := by omega
    refine ⟨l, ⟨l, (s.proc v).tval, (s.proc v).frames, .send 1⟩, ⟨level, small, present, ?_, ?_, ?_, ?_⟩,
      .start place (.inr rfl)⟩
    · simp
    · exact ⟨last, static (by omega), by rw [depth, last], Nat.le_refl 1, by omega⟩
    · exact pslot
    · rw [made, made, if_neg (by omega), if_neg (by omega)]

theorem send_takes {i : Nat} (fits : Fits p b d) (inv : Inv p b d s) (place : (s.proc v).pc = .send i)
    (taken : send p s v i = some t) : ∃ l pr, Goes b d s v pr l ∧ Takes p b d s v pr t := by
  have present : (s.proc v).pc ≠ .absent := by simp [place]
  obtain ⟨l, small, level, here⟩ := inv.tree.here present
  have pslot := inv.tree.pslot v
  rw [Place, place] at here
  obtain ⟨rfl, static, depth, low, more⟩ := here
  have later := leaf_pos fits level
  obtain ⟨pid, list⟩ := inv.messages.shm v (by rw [place]; rfl)
  obtain ⟨mtyp, found, taken⟩ := Option.bind_eq_some_iff.mp taken
  rw [list (by omega)] at found
  obtain ⟨w, rfl⟩ := entry_nat fits later found
  obtain rfl := Option.some.inj taken
  rw [fits.breadth, pid]
  refine ⟨l, _, ⟨level, small, present, ?_, ?_, ?_, ?_⟩, .send i w place level more ⟨low, found⟩ rfl⟩
  · simp only
    split <;> simp
  · simp only
    split
    · exact ⟨rfl, static, depth, by omega, by assumption⟩
    · exact ⟨rfl, static, depth, Nat.le_refl 1, by omega⟩
  · exact pslot
  · rw [made, made, if_neg (by have := level.1; omega), if_neg (by have := level.1; omega)]

theorem started_of_sent {pc : Pc} {i : Nat} (low : 1 ≤ i) (sent : i < pc.sent b) : pc.started = true := by
  cases pc <;> simp_all [Pc.sent, Pc.started]

theorem receive_takes {cldcnt : Nat} (fits : Fits p b d) (inv : Inv p b d s)
    (place : (s.proc v).pc = .receive cldcnt) (taken : receive p s v cldcnt = some t) :
    ∃ l pr, Goes b d s v pr l ∧ Takes p b d s v pr t := by
  have present : (s.proc v).pc ≠ .absent := by simp [place]
  have deep := fits.shape.deep
  obtain ⟨l, small, level, here⟩ := inv.tree.here present
  have pslot := inv.tree.pslot v
  rw [Place, place] at here
  obtain ⟨rfl, static, depth, low, more⟩ := here
  obtain ⟨m, found, taken⟩ := Option.bind_eq_some_iff.mp taken
  have member := List.mem_of_find?_eq_some found
  have typed := List.find?_some found
  obtain ⟨u, i, w, sender, entry, sent, rfl⟩ := inv.messages.genuine m member
  have here : w = v := by simpa [message] using typed
  subst here
  obtain ⟨pid, list⟩ := inv.messages.shm u (started_of_sent entry.1 sent)
  have other := leaf_pos fits sender
  have valid : (s.shm u).list[i]? = some (w : Int) ∧ (s.shm u).pid = p.pid u := by
    rw [list (by omega)]
    exact ⟨entry.2, pid⟩
  simp only [message, fits.breadth] at taken
  rw [if_pos valid] at taken
  obtain rfl := Option.some.inj taken
  have own : ¬ w < nodes b l := by
    have low := level.1
    omega
  by_cases others : cldcnt + 1 < b
  · rw [if_pos others]
    refine ⟨l, _, ⟨level, small, present, ?_, ?_, ?_, ?_⟩,
      .receive cldcnt u i place level more sender entry member (by rw [if_pos others])⟩
    · simp
    · exact ⟨rfl, static, depth, by omega, others⟩
    · exact pslot
    · rw [made, made, if_neg own, if_neg own]
  · rw [if_neg others]
    obtain ⟨f, rest, tail⟩ : ∃ f rest, (s.proc w).frames.tail = f :: rest := by
      apply List.exists_cons_of_length_pos
      rw [List.length_tail]
      omega
    have back : (s.proc w).back p (-1) (s.proc w).frames.tail (s.proc w).tval =
        { s.proc w with pc := .lock w, frames := f :: rest, tval := w } := by
      rw [tail, Proc.back, returns, if_pos rfl, static]
    rw [back]
    refine ⟨l, _, ⟨level, small, present, ?_, ?_, ?_, ?_⟩,
      .receive cldcnt u i place level more sender entry member (by rw [if_neg others])⟩
    · simp
    · exact ⟨rfl, by simp⟩
    · intro g inside
      apply pslot g
      apply List.mem_of_mem_tail
      rw [tail]
      exact inside
    · rw [made, made, if_neg own, if_neg own]

theorem sem_zero_takes (fits : Fits p b d) (tree : Tree b d s) (place : (s.proc v).pc = .semZero)
    (taken : semZero p s v = some t) : ∃ l pr, Goes b d s v pr l ∧ Takes p b d s v pr t := by
  have present : (s.proc v).pc ≠ .absent := by simp [place]
  have wide := fits.shape.wide
  obtain ⟨l, small, level, here⟩ := tree.here present
  have pslot := tree.pslot v
  rw [Place, place] at here
  obtain ⟨inner, static, frames⟩ := here
  unfold semZero at taken
  simp only [static, sem_num_eq fits, last_child (b := b) (v := v) (by omega)] at taken
  split at taken
  · rename_i count
    obtain rfl := Option.some.inj taken
    refine ⟨l, _, ⟨level, small, present, ?_, ?_, ?_, ?_⟩, .semZero place ((level_lt_iff level d).mpr inner) count rfl⟩
    · simp
    · exact ⟨rfl, frames⟩
    · exact pslot
    · simp [made, place]
  · cases taken

theorem lock_takes {slot : Nat} (fits : Fits p b d) (tree : Tree b d s) (place : (s.proc v).pc = .lock slot)
    (taken : lock p s v slot = some t) : ∃ l pr, Goes b d s v pr l ∧ Takes p b d s v pr t := by
  have present : (s.proc v).pc ≠ .absent := by simp [place]
  obtain ⟨l, small, level, here⟩ := tree.here present
  have pslot := tree.pslot v
  rw [Place, place] at here
  obtain ⟨rfl, frames⟩ := here
  unfold lock at taken
  simp only [sem_num_eq fits] at taken
  split at taken
  · rename_i free
    obtain rfl := Option.some.inj taken
    refine ⟨l, _, ⟨level, small, present, ?_, ?_, ?_, ?_⟩, .lock place free rfl⟩
    · simp
    · exact ⟨rfl, frames⟩
    · exact pslot
    · simp [made, place]
  · cases taken

theorem getval_takes {pslot : Nat} (tree : Tree b d s) (place : (s.proc v).pc = .getval pslot) :
    ∃ l pr, Goes b d s v pr l ∧ Takes p b d s v pr (getval s v pslot) := by
  have present : (s.proc v).pc ≠ .absent := by simp [place]
  obtain ⟨l, small, level, here⟩ := tree.here present
  rw [Place, place] at here
  obtain ⟨rfl, frames⟩ := here
  refine ⟨l, _, ⟨level, small, present, ?_, ?_, ?_, ?_⟩, .getval place rfl⟩
  · simp
  · exact ⟨rfl, frames⟩
  · exact tree.pslot v
  · simp [made, place]

theorem setval_takes {pslot : Nat} {semval : Int} (tree : Tree b d s)
    (place : (s.proc v).pc = .setval pslot semval) :
    ∃ l pr, Goes b d s v pr l ∧ Takes p b d s v pr (setval s v pslot semval) := by
  have present : (s.proc v).pc ≠ .absent := by simp [place]
  obtain ⟨l, small, level, here⟩ := tree.here present
  rw [Place, place] at here
  obtain ⟨rfl, frames⟩ := here
  have same : (if 0 ≤ semval then
      { s with
        sem_count := update s.sem_count (parent b v) semval.toNat
        decremented := update s.decremented (parent b v) (s.decremented (parent b v) ++ [v]) }
      else s).proc v = s.proc v := by
    split <;> rfl
  unfold setval
  simp only [same]
  refine ⟨l, _, ⟨level, small, present, ?_, ?_, ?_, ?_⟩, .setval semval place rfl⟩
  · simp
  · exact ⟨rfl, frames⟩
  · exact tree.pslot v
  · simp [made, place]

theorem unlock_takes {pslot : Nat} (tree : Tree b d s) (place : (s.proc v).pc = .unlock pslot)
    (taken : unlock p s v pslot = some t) : ∃ l pr, Goes b d s v pr l ∧ Takes p b d s v pr t := by
  have present : (s.proc v).pc ≠ .absent := by simp [place]
  obtain ⟨l, small, level, here⟩ := tree.here present
  have zero := tree.pslot v
  rw [Place, place] at here
  obtain ⟨rfl, frames⟩ := here
  obtain ⟨f, rest, calls⟩ := List.exists_cons_of_ne_nil frames
  rw [calls] at zero
  unfold unlock at taken
  simp only [calls] at taken
  obtain rfl := Option.some.inj taken
  have other : ((parent b v : Nat) : Int) ≠ -1 := by omega
  obtain ⟨next, none_left⟩ := returns_doit p (lastTval p f (s.proc v).tval) other
    fun g member => zero g (List.mem_cons_of_mem f member)
  refine ⟨l, _, ⟨level, small, present, ?_, ?_, ?_, ?_⟩, .unlock place next⟩
  · rw [Proc.back]
    simp [next]
  · rw [Place]
    simp [Proc.back, next]
  · rw [Proc.back]
    simp [none_left]
  · simp [made, place, Proc.back, next]

theorem doit_takes (tree : Tree b d s) (place : (s.proc v).pc = .doit) :
    ∃ l pr, Goes b d s v pr l ∧ Takes p b d s v pr (doit p s v) := by
  have present : (s.proc v).pc ≠ .absent := by simp [place]
  obtain ⟨l, small, level, _⟩ := tree.here present
  refine ⟨l, _, ⟨level, small, present, ?_, ?_, ?_, ?_⟩, .doit place rfl⟩
  · simp
  · trivial
  · exact tree.pslot v
  · simp [made, place]

theorem step_cases (fits : Fits p b d) (inv : Inv p b d s) (taken : step p v s = some t) :
    (∃ l c f rest pr, Forks p b d s t v l c f rest pr) ∨ ∃ l pr, Goes b d s v pr l ∧ Takes p b d s v pr t := by
  unfold step at taken
  split at taken
  next => cases taken
  next => cases taken
  next place =>
    obtain rfl := Option.some.inj taken
    exact .inr (start_takes fits inv.tree place)
  next place => exact .inl (fork_cases fits inv.tree place taken)
  next place => exact .inr (send_takes fits inv place taken)
  next place => exact .inr (receive_takes fits inv place taken)
  next place => exact .inr (sem_zero_takes fits inv.tree place taken)
  next place => exact .inr (lock_takes fits inv.tree place taken)
  next place =>
    obtain rfl := Option.some.inj taken
    exact .inr (getval_takes inv.tree place)
  next place =>
    obtain rfl := Option.some.inj taken
    exact .inr (setval_takes inv.tree place)
  next place => exact .inr (unlock_takes inv.tree place taken)
  next place =>
    obtain rfl := Option.some.inj taken
    exact .inr (doit_takes inv.tree place)

end cases
end Handshake
