import Vte.Sched.HandshakeTree

/-!
What the semaphores, the counters and the message queue have to do with the places of the processes.
-/
namespace Handshake
open Function HeapTree Process

section places

def Pc.holds : Pc → Option Nat
  | .getval n | .setval n _ | .unlock n => some n
  | _ => none

def Pc.done : Pc → Bool
  | .unlock _ | .doit | .exited => true
  | _ => false

def Pc.past : Pc → Bool
  | .lock _ | .getval _ | .setval _ _ | .unlock _ | .doit | .exited => true
  | _ => false

def Pc.semval : Pc → Option (Nat × Int)
  | .setval n semval => some (n, semval)
  | _ => none

def Pc.started : Pc → Bool
  | .absent | .start => false
  | _ => true

def Pc.sent (b : Nat) : Pc → Nat
  | .send i => i
  | .receive _ | .lock _ | .getval _ | .setval _ _ | .unlock _ | .doit | .exited => b
  | _ => 1

def Pc.cldcnt (b : Nat) : Pc → Nat
  | .receive cldcnt => cldcnt
  | .lock _ | .getval _ | .setval _ _ | .unlock _ | .doit | .exited => b
  | _ => 1

end places

section invariant
variable (p : Params) (b d : Nat) (s : State)

def Leaf (v : Nat) : Prop := nodes b d ≤ v ∧ v < nodes b (d + 1)

structure Locks : Prop where
  le : ∀ n, s.sem_lock n ≤ 1
  holder : ∀ v n, (s.proc v).pc.holds = some n → s.sem_lock n = 0 ∧ ∀ w, (s.proc w).pc.holds = some n → w = v
  held : ∀ n, s.sem_lock n = 0 → ∃ v, (s.proc v).pc.holds = some n

structure Counts : Prop where
  count : ∀ n < nodes b d, s.sem_count n + (children b n).countP (fun c => (s.proc c).pc.done) = b
  semval : ∀ v n semval, (s.proc v).pc.semval = some (n, semval) → semval = (s.sem_count n : Int) - 1
  past : ∀ v < nodes b d, (s.proc v).pc.past = true → s.zero v = true ∧ ∀ c ∈ children b v, (s.proc c).pc.done = true
  decremented : ∀ n < nodes b d, (s.decremented n).Nodup ∧
    ∀ c, c ∈ s.decremented n ↔ c ∈ children b n ∧ (s.proc c).pc.done = true

/-- The message that `u` sends to the entry `i` of its list, which is `w`. -/
def message (u i w : Nat) : Msg := ⟨w, i, u, p.pid u⟩

def Entry (u i w : Nat) : Prop := 1 ≤ i ∧ (entries p.args u)[i]? = some (w : Int)

structure Messages : Prop where
  shm : ∀ v, (s.proc v).pc.started = true → (s.shm v).pid = p.pid v ∧ (v ≠ 0 → (s.shm v).list = entries p.args v)
  genuine : ∀ m ∈ s.queue, ∃ u i w, Leaf b d u ∧ Entry p u i w ∧ i < (s.proc u).pc.sent b ∧ m = message p u i w
  once : ∀ u i w, Leaf b d u → Entry p u i w →
    s.queue.count (message p u i w) + (s.got w).count u = if i < (s.proc u).pc.sent b then 1 else 0
  valid : ∀ w, ∀ u ∈ s.got w, Leaf b d u ∧ ∃ i, Entry p u i w
  received : ∀ w, Leaf b d w → (s.got w).length + 1 = (s.proc w).pc.cldcnt b

structure Inv : Prop where
  tree : Tree b d s
  locks : Locks s
  counts : Counts b d s
  messages : Messages p b d s
  success : s.success = true ↔ (s.proc 0).pc = .exited

end invariant

section entries
variable {p : Params} {b d u i w : Nat}

theorem leaf_pos (fits : Fits p b d) (leaf : Leaf b d u) : 0 < u := by
  have deep := fits.shape.deep
  have mono : nodes b (0 + 1) ≤ nodes b d := nodes_mono b (by omega)
  have some_node := nodes_pos b 0
  have low := leaf.1
  omega

theorem leaf_sibling (fits : Fits p b d) (leaf : Leaf b d u) (sibling : w ∈ siblingsOf b u) : Leaf b d w := by
  have wide := fits.shape.wide
  have deep := fits.shape.deep
  obtain ⟨l, rfl⟩ : ∃ l, d = l + 1 := ⟨d - 1, by omega⟩
  exact level_child (level_parent (by omega) leaf) (mem_siblings.mp sibling).1

theorem entry_nat {entry : Int} (fits : Fits p b d) (later : 0 < u) (found : (entries p.args u)[i]? = some entry) :
    ∃ w : Nat, entry = w := by
  rw [entries_siblings fits later, List.getElem?_map] at found
  obtain ⟨w, _, rfl⟩ := Option.map_eq_some_iff.mp found
  exact ⟨w, rfl⟩

theorem entry_iff (fits : Fits p b d) (later : 0 < u) :
    Entry p u i w ↔ ∃ k, i = k + 1 ∧ (siblingsOf b u)[k]? = some w := by
  have cast : Entry p u i w ↔ 1 ≤ i ∧ (parent b u :: siblingsOf b u)[i]? = some w := by
    rw [Entry, entries_siblings fits later, List.getElem?_map, Option.map_eq_some_iff]
    simp
  rw [cast]
  cases i with
  | zero => simp
  | succ k => simp

theorem entry_sibling (fits : Fits p b d) (later : 0 < u) (entry : Entry p u i w) : w ∈ siblingsOf b u := by
  obtain ⟨k, _, found⟩ := (entry_iff fits later).mp entry
  exact List.mem_of_getElem? found

theorem exists_entry (fits : Fits p b d) (later : 0 < u) (sibling : w ∈ siblingsOf b u) :
    ∃ i < b, Entry p u i w := by
  have wide := fits.shape.wide
  obtain ⟨k, found⟩ := List.mem_iff_getElem?.mp sibling
  have inside := (List.getElem?_eq_some_iff.mp found).1
  have count := siblings_length (b := b) (by omega) later
  exact ⟨k + 1, by omega, (entry_iff fits later).mpr ⟨k, rfl, found⟩⟩

theorem entry_unique {j : Nat} (fits : Fits p b d) (later : 0 < u) (entry : Entry p u i w)
    (entry' : Entry p u j w) : i = j := by
  obtain ⟨k, rfl, found⟩ := (entry_iff fits later).mp entry
  obtain ⟨k', rfl, found'⟩ := (entry_iff fits later).mp entry'
  have inside := (List.getElem?_eq_some_iff.mp found).1
  rw [(List.getElem?_inj inside (siblings_nodup b u)).mp (found.trans found'.symm)]

end entries

section keeps
variable {p : Params} {b d v : Nat} {s t : State} {pr : Proc}

def Same {α : Type} (φ : Pc → α) (s t : State) : Prop := ∀ w, φ (t.proc w).pc = φ (s.proc w).pc

theorem same_put {α : Type} {φ : Pc → α} (procs : t.proc = update s.proc v pr)
    (same : φ pr.pc = φ (s.proc v).pc) : Same φ s t := by
  intro w
  rw [procs]
  by_cases own : w = v
  · subst own
    rw [update_self]
    exact same
  · rw [update_of_ne own]

theorem put_other (procs : t.proc = update s.proc v pr) {w : Nat} (other : w ≠ v) : t.proc w = s.proc w := by
  rw [procs, update_of_ne other]

theorem put_own (procs : t.proc = update s.proc v pr) : t.proc v = pr := by
  rw [procs, update_self]

theorem Locks.keep (locks : Locks s) (holds : Same Pc.holds s t) (sem_lock : t.sem_lock = s.sem_lock) :
    Locks t := by
  constructor
  · rw [sem_lock]
    exact locks.le
  · intro v n has
    rw [holds v] at has
    obtain ⟨zero, only⟩ := locks.holder v n has
    rw [sem_lock]
    exact ⟨zero, fun w has' => only w (holds w ▸ has')⟩
  · intro n zero
    rw [sem_lock] at zero
    obtain ⟨v, has⟩ := locks.held n zero
    exact ⟨v, (holds v).trans has⟩

theorem Counts.keep (counts : Counts b d s) (done : ∀ w ≠ 0, (t.proc w).pc.done = (s.proc w).pc.done)
    (semval : ∀ v n semval, (t.proc v).pc.semval = some (n, semval) → semval = (s.sem_count n : Int) - 1)
    (past : ∀ v < nodes b d, (t.proc v).pc.past = (s.proc v).pc.past) (sem_count : t.sem_count = s.sem_count)
    (zero : t.zero = s.zero) (decremented : t.decremented = s.decremented) : Counts b d t := by
  have children_done : ∀ n, ∀ c ∈ children b n, (t.proc c).pc.done = (s.proc c).pc.done := by
    intro n c child
    have later := child_pos child
    exact done c (by omega)
  constructor
  · intro n inner
    have same : (children b n).countP (fun c => (t.proc c).pc.done) =
        (children b n).countP fun c => (s.proc c).pc.done :=
      List.countP_congr fun c child => by rw [children_done n c child]
    rw [sem_count, same]
    exact counts.count n inner
  · intro v n value sets
    rw [sem_count]
    exact semval v n value sets
  · intro v inner goes_on
    rw [past v inner] at goes_on
    obtain ⟨seen, all⟩ := counts.past v inner goes_on
    rw [zero]
    exact ⟨seen, fun c child => (children_done v c child).trans (all c child)⟩
  · intro n inner
    obtain ⟨nodup, mem⟩ := counts.decremented n inner
    rw [decremented]
    refine ⟨nodup, fun c => (mem c).trans (and_congr_right fun child => ?_)⟩
    rw [children_done n c child]

theorem Counts.semval_same (counts : Counts b d s) (same : Same Pc.semval s t) :
    ∀ v n semval, (t.proc v).pc.semval = some (n, semval) → semval = (s.sem_count n : Int) - 1 := by
  intro v n value sets
  rw [same v] at sets
  exact counts.semval v n value sets

theorem Messages.keep (messages : Messages p b d s)
    (shm : ∀ v, (t.proc v).pc.started = true → (t.shm v).pid = p.pid v ∧ (v ≠ 0 → (t.shm v).list = entries p.args v))
    (sent : ∀ w, Leaf b d w → (t.proc w).pc.sent b = (s.proc w).pc.sent b)
    (cldcnt : ∀ w, Leaf b d w → (t.proc w).pc.cldcnt b = (s.proc w).pc.cldcnt b)
    (queue : t.queue = s.queue) (got : t.got = s.got) : Messages p b d t := by
  constructor
  · exact shm
  · intro m member
    rw [queue] at member
    obtain ⟨u, i, w, leaf, entry, before, same⟩ := messages.genuine m member
    exact ⟨u, i, w, leaf, entry, by rw [sent u leaf]; exact before, same⟩
  · intro u i w leaf entry
    rw [queue, got, sent u leaf]
    exact messages.once u i w leaf entry
  · rw [got]
    exact messages.valid
  · intro w leaf
    rw [got, cldcnt w leaf]
    exact messages.received w leaf

theorem Messages.shm_same (messages : Messages p b d s) (started : Same Pc.started s t) (shm : t.shm = s.shm) :
    ∀ v, (t.proc v).pc.started = true → (t.shm v).pid = p.pid v ∧ (v ≠ 0 → (t.shm v).list = entries p.args v) := by
  intro v goes
  rw [started] at goes
  rw [shm]
  exact messages.shm v goes

end keeps
end Handshake
