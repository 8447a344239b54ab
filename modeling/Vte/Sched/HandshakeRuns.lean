import Mathlib.Algebra.Order.BigOperators.Group.Finset
import Vte.Sched.HandshakeKeep

/-!
Every run ends, with all processes gone and the first parent told so, and not before all messages have been
received and all counters are at zero.
-/
namespace Handshake
open Function HeapTree Machine Process

section rank
variable {p : Params} {b d v l c n : Nat} {s t : State} {pr : Proc}

def Pc.weight (b : Nat) : Pc → Nat
  | .absent => 2 * b + 9
  | .start => 2 * b + 8
  | .fork => 7
  | .send i => 2 * (b - i) + 7
  | .receive _ | .semZero => 6
  | .lock _ => 5
  | .getval _ => 4
  | .setval _ _ => 3
  | .unlock _ => 2
  | .doit => 1
  | .exited => 0

def weights (b n : Nat) (proc : Nat → Proc) : Nat := ∑ v ∈ Finset.range n, (proc v).pc.weight b

def rank (b n : Nat) (s : State) : Nat := weights b n s.proc + s.queue.length

theorem weights_put (proc : Nat → Proc) (pr : Proc) (inside : v < n) :
    weights b n (update proc v pr) + (proc v).pc.weight b = weights b n proc + pr.pc.weight b := by
  have member := Finset.mem_range.mpr inside
  have before := Finset.add_sum_erase (Finset.range n) (fun w => (proc w).pc.weight b) member
  have after := Finset.add_sum_erase (Finset.range n) (fun w => (update proc v pr w).pc.weight b) member
  have others : ∑ w ∈ (Finset.range n).erase v, (update proc v pr w).pc.weight b =
      ∑ w ∈ (Finset.range n).erase v, (proc w).pc.weight b :=
    Finset.sum_congr rfl fun w other => by rw [update_of_ne (Finset.ne_of_mem_erase other)]
  simp only [update_self, others] at after
  rw [weights, weights, ← before, ← after]
  omega

theorem inside_of_present (tree : Tree b d s) (present : (s.proc v).pc ≠ .absent) : v < nodes b (d + 1) := by
  by_contra outside
  exact present (tree.beyond v (by omega))

theorem Forks.rank {f : Frame} {rest : List Frame} (fits : Fits p b d) (tree : Tree b d s)
    (forks : Forks p b d s t v l c f rest pr) : rank b (nodes b (d + 1)) t < rank b (nodes b (d + 1)) s := by
  have wide := fits.shape.wide
  have absent := forks.absent tree
  have here := inside_of_present tree (v := v) (by rw [forks.place]; decide)
  have there : c < nodes b (d + 1) := by
    have inner := forks.inner
    exact (level_lt_iff (level_child forks.level forks.child) (d + 1)).mpr (by omega)
  have different : v ≠ c := by
    have later := child_gt (by omega) forks.child
    omega
  have first := weights_put (b := b) s.proc ⟨l + 1, c, f :: rest, .start⟩ there
  have second := weights_put (b := b) (update s.proc c ⟨l + 1, c, f :: rest, .start⟩) pr here
  rw [update_of_ne different, forks.place] at second
  rw [absent] at first
  have queue : t.queue = s.queue := by rw [forks.others]
  rw [Handshake.rank, Handshake.rank, forks.procs, queue]
  simp only [Pc.weight] at first second
  rcases forks.goes_on with next | next <;> rw [next] at second <;> simp only at second <;> omega

theorem Takes.rank (tree : Tree b d s) (goes : Goes b d s v pr l) (takes : Takes p b d s v pr t) :
    rank b (nodes b (d + 1)) t < rank b (nodes b (d + 1)) s := by
  have moved := weights_put (b := b) s.proc pr (inside_of_present tree goes.present)
  rw [← takes.procs] at moved
  rw [Handshake.rank, Handshake.rank]
  cases takes with
  | start place next =>
    rcases next with next | next <;> simp only [place, next, Pc.weight, State.put] at moved ⊢ <;> omega
  | send i w place leaf more entry next =>
    rw [place, next] at moved
    simp only [State.put, List.length_append, List.length_singleton] at moved ⊢
    split at moved <;> simp only [Pc.weight] at moved <;> omega
  | receive cldcnt u i place leaf more sender entry member next =>
    have some_message := List.length_pos_of_mem member
    rw [place, next] at moved
    simp only [State.put, List.length_erase_of_mem member] at moved ⊢
    split at moved <;> simp only [Pc.weight] at moved <;> omega
  | setval semval place next =>
    have queue : (State.put (if 0 ≤ semval then
        { s with
          sem_count := update s.sem_count (parent b v) semval.toNat
          decremented := update s.decremented (parent b v) (s.decremented (parent b v) ++ [v]) }
        else s) v pr).queue = s.queue := by
      rw [State.put]
      split <;> rfl
    rw [queue]
    simp only [place, next, Pc.weight] at moved
    omega
  | semZero place inner count next => simp only [place, next, Pc.weight, State.put] at moved ⊢; omega
  | lock place free next => simp only [place, next, Pc.weight, State.put] at moved ⊢; omega
  | getval place next => simp only [place, next, Pc.weight, State.put] at moved ⊢; omega
  | unlock place next => simp only [place, next, Pc.weight, State.put] at moved ⊢; omega
  | doit place next => simp only [place, next, Pc.weight, State.put] at moved ⊢; omega

theorem step_rank (fits : Fits p b d) (inv : Inv p b d s) (taken : step p v s = some t) :
    rank b (nodes b (d + 1)) t < rank b (nodes b (d + 1)) s := by
  rcases step_cases fits inv taken with ⟨l, c, f, rest, pr, forks⟩ | ⟨l, pr, goes, takes⟩
  · exact forks.rank fits inv.tree
  · exact takes.rank inv.tree goes

theorem rank_init : rank b n (init p) ≤ n * (2 * b + 9) := by
  have each : ∀ v ∈ Finset.range n, ((init p).proc v).pc.weight b ≤ 2 * b + 9 := by
    intro v _
    rw [init_pc]
    split <;> simp [Pc.weight]
  have total := Finset.sum_le_card_nsmul (Finset.range n) _ _ each
  rw [Finset.card_range] at total
  exact total

end rank

section stuck
variable {p : Params} {b d v : Nat} {s : State}

theorem holder_goes {n : Nat} (tree : Tree b d s) (holds : (s.proc v).pc.holds = some n) : step p v s ≠ none := by
  cases place : (s.proc v).pc with
  | getval n' => simp [step, place]
  | setval n' semval => simp [step, place]
  | unlock n' =>
    obtain ⟨l, _, _, here⟩ := tree.here (v := v) (by simp [place])
    rw [Place, place] at here
    obtain ⟨f, rest, frames⟩ := List.exists_cons_of_ne_nil here.2
    simp [step, place, unlock, frames]
  | _ =>
    rw [place] at holds
    cases holds

theorem waits_at (fits : Fits p b d) (inv : Inv p b d s) (stuck : ∀ w, step p w s = none)
    (present : (s.proc v).pc ≠ .absent) :
    (∃ cldcnt < b, (s.proc v).pc = .receive cldcnt ∧ Leaf b d v) ∨
      (s.proc v).pc = .semZero ∧ v < nodes b d ∨ (s.proc v).pc = .exited := by
  have wide := fits.shape.wide
  obtain ⟨l, small, level, here⟩ := inv.tree.here present
  have own := stuck v
  cases place : (s.proc v).pc with
  | absent => exact absurd place present
  | exited => exact .inr (.inr rfl)
  | start => simp [step, place] at own
  | getval n => simp [step, place] at own
  | setval n semval => simp [step, place] at own
  | doit => simp [step, place] at own
  | unlock n => exact absurd own (holder_goes inv.tree (n := n) (by rw [place]; rfl))
  | fork =>
    rw [Place, place] at here
    obtain ⟨_, _, f, rest, frames, _⟩ := here
    simp only [step, place, fork, frames] at own
    split at own <;> cases own
  | send i =>
    rw [Place, place] at here
    obtain ⟨rfl, _, _, low, more⟩ := here
    have later := leaf_pos fits level
    have count := siblings_length (b := b) (by omega) later
    have list := (inv.messages.shm v (by rw [place]; rfl)).2 (by omega)
    rw [entries_siblings fits later] at list
    have inside : i < (s.shm v).list.length := by
      rw [list, List.length_map, List.length_cons]
      omega
    simp [step, place, send, List.getElem?_eq_getElem inside] at own
  | receive cldcnt =>
    rw [Place, place] at here
    obtain ⟨rfl, _, _, _, more⟩ := here
    exact .inl ⟨cldcnt, more, rfl, level⟩
  | semZero =>
    rw [Place, place] at here
    exact .inr (.inl ⟨rfl, (level_lt_iff level d).mpr here.1⟩)
  | lock slot =>
    by_cases free : 0 < s.sem_lock (semNum p slot)
    · simp [step, place, lock, free] at own
    · -- somebody holds the lock, who can go on
      obtain ⟨w, holds⟩ := inv.locks.held (semNum p slot) (by omega)
      exact absurd (stuck w) (holder_goes inv.tree holds)

theorem all_present (fits : Fits p b d) (inv : Inv p b d s) (stuck : ∀ w, step p w s = none)
    (inside : v < nodes b (d + 1)) : (s.proc v).pc ≠ .absent := by
  have wide := fits.shape.wide
  induction v using Nat.strongRecOn with
  | ind v ih =>
    by_cases first : v = 0
    · subst first
      exact inv.tree.root
    · obtain ⟨l, small, level⟩ := exists_level inside
      have child := child_of_parent (b := b) (t := v) (by omega) (by omega)
      have above := child_gt (by omega) child
      have inner : parent b v < nodes b d := parent_inner (by omega) level (by omega) (by omega)
      have present := ih (parent b v) above (by omega)
      have forked : made b d (parent b v) (s.proc (parent b v)) = b := by
        rcases waits_at fits inv stuck present with ⟨_, _, _, leaf⟩ | ⟨place, _⟩ | place
        · have low := leaf.1
          omega
        · rw [made, if_pos inner, place]
        · rw [made, if_pos inner, place]
      rw [inv.tree.forked (parent b v) v child, forked]
      exact (mem_children.mp child).2

theorem queue_empty_of_stuck {cldcnt : Nat} (place : (s.proc v).pc = .receive cldcnt) (stuck : step p v s = none) :
    ∀ m ∈ s.queue, m.mtyp ≠ (v : Int) := by
  simp only [step, place, receive] at stuck
  cases found : s.queue.find? fun m => m.mtyp = (v : Int) with
  | none =>
    intro m member
    simpa using List.find?_eq_none.mp found m member
  | some m =>
    rw [found] at stuck
    simp only [Option.bind_eq_bind, Option.bind_some] at stuck
    split at stuck <;> cases stuck

theorem leaf_exited (fits : Fits p b d) (inv : Inv p b d s) (stuck : ∀ w, step p w s = none)
    (leaf : Leaf b d v) : (s.proc v).pc = .exited := by
  have wide := fits.shape.wide
  have later := leaf_pos fits leaf
  rcases waits_at fits inv stuck (all_present fits inv stuck leaf.2) with
    ⟨cldcnt, more, place, _⟩ | ⟨_, inner⟩ | place
  · have received := inv.messages.received v leaf
    have all_received : siblingsOf b v ⊆ s.got v := by
      intro u sibling
      have other := leaf_sibling fits leaf sibling
      obtain ⟨i, short, entry⟩ := exists_entry fits (leaf_pos fits other) (siblings_comm (by omega) later sibling)
      have once := inv.messages.once u i v other entry
      have sent : (s.proc u).pc.sent b = b := by
        rcases waits_at fits inv stuck (all_present fits inv stuck other.2) with ⟨_, _, at_u, _⟩ | ⟨_, inner⟩ | at_u
        · rw [at_u]
          rfl
        · have low := other.1
          omega
        · rw [at_u]
          rfl
      have none_left : s.queue.count (message p u i v) = 0 :=
        List.count_eq_zero_of_not_mem fun member => queue_empty_of_stuck place (stuck v) _ member rfl
      rw [none_left, sent, if_pos short] at once
      exact List.count_pos_iff.mp (by omega)
    have count := (siblings_nodup b v).length_le_of_subset all_received
    have siblings := siblings_length (b := b) (by omega) later
    rw [place] at received
    simp only [Pc.cldcnt] at received
    omega
  · have low := leaf.1
    omega
  · exact place

theorem children_inside {c : Nat} (inner : v < nodes b d) (child : c ∈ children b v) : c < nodes b (d + 1) := by
  have high := (mem_children.mp child).2
  have product : (v + 1) * b ≤ nodes b d * b := Nat.mul_le_mul_right b inner
  rw [Nat.succ_mul] at product
  rw [nodes_children]
  omega

theorem all_exited (fits : Fits p b d) (inv : Inv p b d s) (stuck : ∀ w, step p w s = none)
    (inside : v < nodes b (d + 1)) : (s.proc v).pc = .exited := by
  have wide := fits.shape.wide
  induction left : nodes b (d + 1) - v using Nat.strongRecOn generalizing v with
  | ind left' ih =>
    by_cases leaf : nodes b d ≤ v
    · exact leaf_exited fits inv stuck ⟨leaf, inside⟩
    · rcases waits_at fits inv stuck (all_present fits inv stuck inside) with ⟨_, _, _, last⟩ | ⟨place, inner⟩ | place
      · exact absurd last.1 leaf
      · have done : ∀ c ∈ children b v, (s.proc c).pc.done = true := by
          intro c child
          have later := child_gt (by omega) child
          have exited := ih (nodes b (d + 1) - c) (by omega) (children_inside inner child) rfl
          rw [exited]
          rfl
        have count := inv.counts.count v inner
        rw [List.countP_eq_length.mpr done, children_length] at count
        obtain ⟨l, _, _, here⟩ := inv.tree.here (v := v) (by simp [place])
        rw [Place, place] at here
        have own : semNum p (s.proc v).tval = v := by
          rw [here.2.1, sem_num_eq fits, last_child (by omega)]
        have goes_on : s.sem_count (semNum p (s.proc v).tval) = 0 := by
          rw [own]
          omega
        have stays := stuck v
        simp only [step, place, semZero, if_pos goes_on] at stays
        cases stays
      · exact place

end stuck

section finish
variable {p : Params} {b d v : Nat} {s : State}

theorem past_of_done {pc : Pc} (done : pc.done = true) : pc.past = true := by
  cases pc <;> simp_all [Pc.done, Pc.past]

theorem all_past (fits : Fits p b d) (inv : Inv p b d s) (root : (s.proc 0).pc.past = true)
    (inside : v < nodes b (d + 1)) : (s.proc v).pc.past = true := by
  have wide := fits.shape.wide
  induction v using Nat.strongRecOn with
  | ind v ih =>
    by_cases first : v = 0
    · subst first
      exact root
    · obtain ⟨l, small, level⟩ := exists_level inside
      have child := child_of_parent (b := b) (t := v) (by omega) (by omega)
      have above := child_gt (by omega) child
      have inner : parent b v < nodes b d := parent_inner (by omega) level (by omega) (by omega)
      have past := ih (parent b v) above (by omega)
      exact past_of_done ((inv.counts.past (parent b v) inner past).2 v child)

theorem got_siblings (fits : Fits p b d) (inv : Inv p b d s) (leaf : Leaf b d v)
    (past : (s.proc v).pc.past = true) : (s.got v).Perm (siblingsOf b v) := by
  have wide := fits.shape.wide
  have later := leaf_pos fits leaf
  have nodup : (s.got v).Nodup := by
    rw [List.nodup_iff_count_le_one]
    intro u
    by_cases member : u ∈ s.got v
    · obtain ⟨sender, i, entry⟩ := inv.messages.valid v u member
      have once := inv.messages.once u i v sender entry
      split at once <;> omega
    · rw [List.count_eq_zero_of_not_mem member]
      exact Nat.zero_le 1
  have subset : s.got v ⊆ siblingsOf b v := by
    intro u member
    obtain ⟨sender, i, entry⟩ := inv.messages.valid v u member
    have other := leaf_pos fits sender
    exact siblings_comm (by omega) other (entry_sibling fits other entry)
  have cldcnt : (s.proc v).pc.cldcnt b = b := by
    obtain ⟨l, _, level, here⟩ := inv.tree.here (v := v) (by
      intro absent
      rw [absent] at past
      cases past)
    cases place : (s.proc v).pc <;> simp_all [Pc.past, Pc.cldcnt]
  have received := inv.messages.received v leaf
  have siblings := siblings_length (b := b) (by omega) later
  exact (List.subperm_of_subset nodup subset).perm_of_length_le (by omega)

theorem decremented_perm {n : Nat} (counts : Counts b d s) (inner : n < nodes b d) :
    (s.decremented n).Perm ((children b n).filter fun c => (s.proc c).pc.done) := by
  obtain ⟨nodup, mem⟩ := counts.decremented n inner
  refine (List.perm_ext_iff_of_nodup nodup ((children_nodup b n).filter _)).mpr fun c => ?_
  rw [mem c, List.mem_filter]

/-- All processes have exited, the first parent has been told, and each child has decremented the counter of
its parent. -/
structure Finished (b d : Nat) (s : State) : Prop where
  exited : ∀ v < nodes b (d + 1), (s.proc v).pc = .exited
  success : s.success = true
  decremented : ∀ n < nodes b d, (s.decremented n).Perm (children b n)

theorem finished_of_stuck (fits : Fits p b d) (inv : Inv p b d s) (stuck : ∀ w, step p w s = none) :
    Finished b d s := by
  have exited : ∀ v < nodes b (d + 1), (s.proc v).pc = .exited := fun v => all_exited fits inv stuck
  refine ⟨exited, inv.success.mpr (exited 0 (nodes_pos b d)), ?_⟩
  intro n inner
  have perm := decremented_perm inv.counts inner
  have all : ((children b n).filter fun c => (s.proc c).pc.done) = children b n := by
    rw [List.filter_eq_self]
    intro c child
    rw [exited c (children_inside inner child)]
    rfl
  rw [all] at perm
  exact perm

theorem can_finish (fits : Fits p b d) (inv : Inv p b d s) :
    ∃ acts t, run (step p) acts s = some t ∧ Finished b d t := by
  induction steps : rank b (nodes b (d + 1)) s using Nat.strongRecOn generalizing s with
  | ind steps' ih =>
    by_cases stuck : ∀ w, step p w s = none
    · exact ⟨[], s, rfl, finished_of_stuck fits inv stuck⟩
    · obtain ⟨w, goes⟩ := not_forall.mp stuck
      obtain ⟨u, taken⟩ := Option.ne_none_iff_exists'.mp goes
      have less := step_rank fits inv taken
      obtain ⟨acts, t, ran, finished⟩ := ih _ (by omega) (step_inv fits inv taken) rfl
      exact ⟨w :: acts, t, by rw [run, taken, Option.bind_some, ran], finished⟩

end finish

structure Handshakes (p : Params) (b d : Nat) (s : State) : Prop where
  leaves : s.success = true → ∀ v, Leaf b d v → (s.got v).Perm (siblingsOf b v)
  inner : s.success = true → ∀ n < nodes b d, s.zero n = true
  /-- no update of a counter is lost -/
  counters : ∀ n < nodes b d, s.sem_count n + (s.decremented n).length = b
  /-- only its children decrement a counter, each of them once -/
  once : ∀ n < nodes b d, (s.decremented n).Nodup ∧ s.decremented n ⊆ children b n
  goes_on : (∃ slot, step p slot s ≠ none) ∨ Finished b d s

section main
variable {p : Params} {b d : Nat} {s : State}

theorem Inv.handshakes (fits : Fits p b d) (inv : Inv p b d s) : Handshakes p b d s := by
  have past : s.success = true → ∀ v < nodes b (d + 1), (s.proc v).pc.past = true := by
    intro success v inside
    have exited := inv.success.mp success
    exact all_past fits inv (by rw [exited]; rfl) inside
  constructor
  · exact fun success v leaf => got_siblings fits inv leaf (past success v leaf.2)
  · intro success n inner
    have mono : nodes b d ≤ nodes b (d + 1) := nodes_mono b (Nat.le_succ d)
    exact (inv.counts.past n inner (past success n (by omega))).1
  · intro n inner
    rw [(decremented_perm inv.counts inner).length_eq, ← List.countP_eq_length_filter]
    exact inv.counts.count n inner
  · intro n inner
    obtain ⟨nodup, mem⟩ := inv.counts.decremented n inner
    exact ⟨nodup, fun c member => ((mem c).mp member).1⟩
  · by_cases stuck : ∀ w, step p w s = none
    · exact .inr (finished_of_stuck fits inv stuck)
    · exact .inl (not_forall.mp stuck)

/-- In a tree that there is room for, the processes shake hands as they should in every order of their steps,
and after so many steps all have exited. -/
theorem handshake {argc : Nat} {env : Args} {opts : List Opt} {st : Setup} {acts : List Nat}
    (accepted : main argc env opts = some (p.args, st)) (small : nodes p.BVAL (p.DVAL + 1) ≤ 250)
    (ran : run (step p) acts (init p) = some s) :
    Sound p.args st ∧ Handshakes p p.BVAL p.DVAL s ∧ acts.length ≤ nodes p.BVAL (p.DVAL + 1) * (2 * p.BVAL + 9) := by
  obtain ⟨shape, set⟩ := main_gives accepted
  have fits : Fits p p.BVAL p.DVAL := ⟨shape, rfl, rfl⟩
  have start := init_inv fits
  have preserves : ∀ slot s t, Inv p p.BVAL p.DVAL s → step p slot s = some t → Inv p p.BVAL p.DVAL t :=
    fun slot s t inv taken => step_inv fits inv taken
  have falls : ∀ slot s t, Inv p p.BVAL p.DVAL s → step p slot s = some t →
      rank p.BVAL (nodes p.BVAL (p.DVAL + 1)) t < rank p.BVAL (nodes p.BVAL (p.DVAL + 1)) s :=
    fun slot s t inv taken => step_rank fits inv taken
  have bound := run_bounded_of _ preserves falls start ran
  have most := rank_init (p := p) (b := p.BVAL) (n := nodes p.BVAL (p.DVAL + 1))
  exact ⟨sound_small shape set small, (run_invariant preserves start ran).handshakes fits, by omega⟩

end main

def binary : Params := ⟨⟨0, 2, 2, 1⟩, fun slot => slot, fun slot later => by omega⟩

theorem handshake_binary :
    ∃ acts s, run (step binary) acts (init binary) = some s ∧ s.success = true ∧
      (s.got 3).Perm [4] ∧ s.zero 1 = true ∧ acts.length ≤ 91 := by
  have accepted : main 4 ⟨0, 3, 2, 1⟩ [.b 2 false] = some (⟨0, 2, 2, 1⟩, ⟨7, 224, 6⟩) := by decide
  have fits : Fits binary 2 2 := fits_of_shape ⟨rfl, rfl, by decide, by decide⟩
  have seven : nodes 2 3 = 7 := rfl
  obtain ⟨acts, s, ran, finished⟩ := can_finish fits (init_inv fits)
  obtain ⟨_, handshakes, bound⟩ := handshake (p := binary) accepted (by decide) ran
  have success := finished.success
  exact ⟨acts, s, ran, success, handshakes.leaves success 3 ⟨by decide, by decide⟩,
    handshakes.inner success 1 (by decide), bound⟩

end Handshake
