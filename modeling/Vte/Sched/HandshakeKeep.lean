import Vte.Sched.HandshakeSemaphores

/-!
The invariant holds as the first process starts, and every step keeps it.
-/
namespace Handshake
open Function HeapTree Process

section init
variable {p : Params} {b d : Nat}

theorem init_pc (v : Nat) : ((init p).proc v).pc = if v = 0 then .start else .absent := by
  simp only [init]
  split <;> rfl

theorem init_tree : Tree b d (init p) := by
  constructor
  · simp [init_pc]
  · intro v outside
    have some_node := nodes_pos b d
    rw [init_pc, if_neg (by omega)]
  · intro v l level small
    by_cases first : v = 0
    · subst first
      rw [level_unique level level_zero]
      exact ⟨rfl, rfl, fun other => absurd rfl other⟩
    · rw [Place, init_pc, if_neg first]
      trivial
  · intro v f member
    by_cases first : v = 0 <;> simp [init, first] at member
  · intro v c child
    have later := (mem_children.mp child).1
    have none_made : made b d v ((init p).proc v) = 0 := by
      rw [made, init_pc]
      by_cases first : v = 0 <;> simp [first]
    rw [init_pc, if_neg (by omega), none_made]
    simp
    omega

theorem init_inv (fits : Fits p b d) : Inv p b d (init p) := by
  have idle : ∀ {α : Type} {φ : Pc → α}, φ .start = φ .absent → ∀ v, φ ((init p).proc v).pc = φ .absent := by
    intro α φ same v
    rw [init_pc]
    split
    · exact same
    · rfl
  refine ⟨init_tree, ⟨?_, ?_, ?_⟩, ⟨?_, ?_, ?_, ?_⟩, ⟨?_, ?_, ?_, ?_, ?_⟩, ?_⟩
  · exact fun n => Nat.le_refl 1
  · intro v n holds
    rw [idle (φ := Pc.holds) rfl] at holds
    cases holds
  · intro n zero
    exact absurd zero Nat.one_ne_zero
  · intro n inner
    simp only [idle (φ := Pc.done) rfl]
    simp [init, Pc.done, fits.breadth]
  · intro v n semval sets
    rw [idle (φ := Pc.semval) rfl] at sets
    cases sets
  · intro v inner past
    rw [idle (φ := Pc.past) rfl] at past
    cases past
  · intro n inner
    simp only [idle (φ := Pc.done) rfl]
    simp [init, Pc.done]
  · intro v started
    rw [idle (φ := Pc.started) rfl] at started
    cases started
  · intro m member
    cases member
  · intro u i w leaf entry
    have low := entry.1
    rw [idle (φ := Pc.sent b) rfl, if_neg (by simp only [Pc.sent]; omega)]
    rfl
  · intro w u member
    cases member
  · intro w leaf
    rw [idle (φ := Pc.cldcnt b) rfl]
    rfl
  · rw [init_pc]
    simp [init]

end init

section forks
variable {p : Params} {b d v l c : Nat} {s t : State} {f : Frame} {rest : List Frame} {pr : Proc}

theorem Forks.same {α : Type} {φ : Pc → α} (tree : Tree b d s) (forks : Forks p b d s t v l c f rest pr)
    (new : φ .start = φ .absent) (forked : φ .semZero = φ .fork) : Same φ s t := by
  have absent := forks.absent tree
  intro w
  rw [forks.procs]
  by_cases own : w = v
  · subst own
    rw [update_self, forks.place]
    rcases forks.goes_on with next | next
    · rw [next]
    · rw [next, forked]
  · rw [update_of_ne own]
    by_cases child : w = c
    · subst child
      rw [update_self, absent]
      exact new
    · rw [update_of_ne child]

theorem Forks.inv (fits : Fits p b d) (inv : Inv p b d s) (forks : Forks p b d s t v l c f rest pr) :
    Inv p b d t := by
  have same : ∀ {α : Type} {φ : Pc → α}, φ .start = φ .absent → φ .semZero = φ .fork → Same φ s t :=
    forks.same inv.tree
  have others := forks.others
  have shm : t.shm = s.shm := by rw [others]
  have sem_lock : t.sem_lock = s.sem_lock := by rw [others]
  have sem_count : t.sem_count = s.sem_count := by rw [others]
  have queue : t.queue = s.queue := by rw [others]
  have got : t.got = s.got := by rw [others]
  have zero : t.zero = s.zero := by rw [others]
  have decremented : t.decremented = s.decremented := by rw [others]
  have success : t.success = s.success := by rw [others]
  refine ⟨forks.tree fits inv.tree, inv.locks.keep (same rfl rfl) sem_lock, ?_, ?_, ?_⟩
  · exact inv.counts.keep (fun w _ => same (φ := Pc.done) rfl rfl w) (inv.counts.semval_same (same rfl rfl))
      (fun w _ => same (φ := Pc.past) rfl rfl w) sem_count zero decremented
  · exact inv.messages.keep (inv.messages.shm_same (same rfl rfl) shm) (fun w _ => same (φ := Pc.sent b) rfl rfl w)
      (fun w _ => same (φ := Pc.cldcnt b) rfl rfl w) queue got
  · have exited : ((t.proc 0).pc = .exited) = ((s.proc 0).pc = .exited) :=
      same (φ := fun pc => pc = .exited) (by simp) (by simp) 0
    rw [success, exited]
    exact inv.success

end forks

section messages
variable {p : Params} {b d v l : Nat} {s t : State} {pr : Proc}

theorem message_inj {u i w u' i' w' : Nat} (same : message p u i w = message p u' i' w') :
    u = u' ∧ i = i' ∧ w = w' := by
  simp only [message, Msg.mk.injEq] at same
  omega

theorem Messages.start (messages : Messages p b d s) (procs : t.proc = update s.proc v pr)
    (place : (s.proc v).pc = .start) (next : pr.pc = .fork ∨ pr.pc = .send 1)
    (shm : t.shm = update s.shm v ⟨p.pid v, if v = 0 then (s.shm v).list else entries p.args v⟩)
    (queue : t.queue = s.queue) (got : t.got = s.got) : Messages p b d t := by
  have sent : Same (Pc.sent b) s t := by
    refine same_put procs ?_
    rcases next with next | next <;> rw [place, next] <;> rfl
  have cldcnt : Same (Pc.cldcnt b) s t := by
    refine same_put procs ?_
    rcases next with next | next <;> rw [place, next] <;> rfl
  refine messages.keep ?_ (fun w _ => sent w) (fun w _ => cldcnt w) queue got
  intro w goes
  rw [shm]
  by_cases own : w = v
  · subst own
    rw [update_self]
    exact ⟨rfl, fun later => if_neg later⟩
  · rw [put_other procs own] at goes
    rw [update_of_ne own]
    exact messages.shm w goes

theorem Messages.send {i w : Nat} (messages : Messages p b d s) (procs : t.proc = update s.proc v pr)
    (started : Same Pc.started s t) (cldcnt : Same (Pc.cldcnt b) s t) (leaf : Leaf b d v) (entry : Entry p v i w)
    (before : (s.proc v).pc.sent b = i) (after : pr.pc.sent b = i + 1) (shm : t.shm = s.shm)
    (queue : t.queue = s.queue ++ [message p v i w]) (got : t.got = s.got) : Messages p b d t := by
  constructor
  · exact messages.shm_same started shm
  · intro m member
    rw [queue, List.mem_append, List.mem_singleton] at member
    rcases member with old | rfl
    · obtain ⟨u, j, x, leaf', entry', sent, rfl⟩ := messages.genuine m old
      refine ⟨u, j, x, leaf', entry', ?_, rfl⟩
      by_cases own : u = v
      · subst own
        rw [put_own procs, after]
        omega
      · rw [put_other procs own]
        exact sent
    · exact ⟨v, i, w, leaf, entry, by rw [put_own procs, after]; exact Nat.lt_succ_self i, rfl⟩
  · intro u j x leaf' entry'
    have once := messages.once u j x leaf' entry'
    rw [queue, got, List.count_append]
    by_cases this_one : u = v ∧ j = i
    · obtain ⟨rfl, rfl⟩ := this_one
      have same : (x : Int) = w := Option.some.inj (entry'.2.symm.trans entry.2)
      obtain rfl : x = w := by omega
      rw [before, if_neg (Nat.lt_irrefl j)] at once
      rw [put_own procs, after, List.count_singleton_self, if_pos (Nat.lt_succ_self j)]
      omega
    · have different : message p u j x ∉ [message p v i w] := by
        intro member
        obtain ⟨same_sender, same_entry, _⟩ := message_inj (List.mem_singleton.mp member)
        exact this_one ⟨same_sender, same_entry⟩
      rw [List.count_eq_zero_of_not_mem different, Nat.add_zero, once]
      by_cases own : u = v
      · subst own
        have other : j ≠ i := fun same => this_one ⟨rfl, same⟩
        rw [put_own procs, before, after]
        split <;> split <;> omega
      · rw [put_other procs own]
  · rw [got]
    exact messages.valid
  · intro x leaf'
    rw [got, cldcnt x]
    exact messages.received x leaf'

theorem Messages.receive {u i : Nat} (fits : Fits p b d) (messages : Messages p b d s)
    (procs : t.proc = update s.proc v pr) (started : Same Pc.started s t) (sent : Same (Pc.sent b) s t)
    (sender : Leaf b d u) (entry : Entry p u i v) (member : message p u i v ∈ s.queue)
    (count : pr.pc.cldcnt b = (s.proc v).pc.cldcnt b + 1) (shm : t.shm = s.shm)
    (queue : t.queue = s.queue.erase (message p u i v)) (got : t.got = update s.got v (s.got v ++ [u])) :
    Messages p b d t := by
  constructor
  · exact messages.shm_same started shm
  · intro m inside
    rw [queue] at inside
    obtain ⟨u', j, x, leaf, entry', before, rfl⟩ := messages.genuine m (List.mem_of_mem_erase inside)
    exact ⟨u', j, x, leaf, entry', by rw [sent u']; exact before, rfl⟩
  · intro u' j x leaf entry'
    have once := messages.once u' j x leaf entry'
    have later := leaf_pos fits leaf
    rw [queue, got, sent u']
    by_cases this_one : u' = u ∧ x = v
    · obtain ⟨rfl, rfl⟩ := this_one
      obtain rfl := entry_unique fits later entry entry'
      have there := List.count_pos_iff.mpr member
      rw [List.count_erase_self, update_self, List.count_append, List.count_singleton_self]
      omega
    · have different : message p u' j x ≠ message p u i v := by
        intro same
        obtain ⟨same_sender, _, same_receiver⟩ := message_inj same
        exact this_one ⟨same_sender, same_receiver⟩
      rw [List.count_erase_of_ne different]
      by_cases own : x = v
      · subst own
        have other : u' ∉ [u] := fun inside => this_one ⟨List.mem_singleton.mp inside, rfl⟩
        rw [update_self, List.count_append, List.count_eq_zero_of_not_mem other, Nat.add_zero]
        exact once
      · rw [update_of_ne own]
        exact once
  · intro x u' inside
    rw [got] at inside
    by_cases own : x = v
    · subst own
      rw [update_self, List.mem_append, List.mem_singleton] at inside
      rcases inside with old | rfl
      · exact messages.valid x u' old
      · exact ⟨sender, i, entry⟩
    · rw [update_of_ne own] at inside
      exact messages.valid x u' inside
  · intro x leaf
    have received := messages.received x leaf
    rw [got]
    by_cases own : x = v
    · subst own
      rw [update_self, List.length_append, List.length_singleton, put_own procs, count]
      omega
    · rw [update_of_ne own, put_other procs own]
      exact received

theorem Messages.takes (fits : Fits p b d) (messages : Messages p b d s) (takes : Takes p b d s v pr t) :
    Messages p b d t := by
  have procs := takes.procs
  -- what sends and receives nothing, with what follows from where the process is and where it goes
  have keep : Same Pc.started s t → t.shm = s.shm → (Leaf b d v → pr.pc.sent b = (s.proc v).pc.sent b) →
      (Leaf b d v → pr.pc.cldcnt b = (s.proc v).pc.cldcnt b) → t.queue = s.queue → t.got = s.got →
      Messages p b d t := by
    intro started shm sent cldcnt
    refine messages.keep (messages.shm_same started shm) (fun w leaf => ?_) (fun w leaf => ?_)
    · by_cases own : w = v
      · subst own
        rw [put_own procs]
        exact sent leaf
      · rw [put_other procs own]
    · by_cases own : w = v
      · subst own
        rw [put_own procs]
        exact cldcnt leaf
      · rw [put_other procs own]
  cases takes with
  | start place next => exact messages.start procs place next rfl rfl rfl
  | send i w place leaf more entry next =>
    refine messages.send procs (same_put procs ?_) (same_put procs ?_) leaf entry ?_ ?_ rfl rfl rfl
    · rw [place, next]
      split <;> rfl
    · rw [place, next]
      split <;> rfl
    · rw [place]
      rfl
    · rw [next]
      split
      · rfl
      · simp only [Pc.sent]
        omega
  | receive cldcnt u i place leaf more sender entry member next =>
    refine messages.receive fits procs (same_put procs ?_) (same_put procs ?_) sender entry member ?_ rfl rfl rfl
    · rw [place, next]
      split <;> rfl
    · rw [place, next]
      split <;> rfl
    · rw [place, next]
      split
      · rfl
      · simp only [Pc.cldcnt]
        omega
  | semZero place inner count next =>
    have not_leaf : ¬ Leaf b d v := fun leaf => absurd leaf.1 (by omega)
    exact keep (same_put procs (by rw [place, next]; rfl)) rfl (fun leaf => absurd leaf not_leaf)
      (fun leaf => absurd leaf not_leaf) rfl rfl
  | lock place free next =>
    refine keep (same_put procs ?_) rfl (fun _ => ?_) (fun _ => ?_) rfl rfl <;> rw [place, next] <;> rfl
  | getval place next =>
    refine keep (same_put procs ?_) rfl (fun _ => ?_) (fun _ => ?_) rfl rfl <;> rw [place, next] <;> rfl
  | setval semval place next =>
    refine keep (same_put procs ?_) ?_ (fun _ => ?_) (fun _ => ?_) ?_ ?_
    · rw [place, next]
      rfl
    · rw [State.put]
      split <;> rfl
    · rw [place, next]
      rfl
    · rw [place, next]
      rfl
    · rw [State.put]
      split <;> rfl
    · rw [State.put]
      split <;> rfl
  | unlock place next =>
    refine keep (same_put procs ?_) rfl (fun _ => ?_) (fun _ => ?_) rfl rfl <;> rw [place, next] <;> rfl
  | doit place next =>
    refine keep (same_put procs ?_) rfl (fun _ => ?_) (fun _ => ?_) rfl rfl <;> rw [place, next] <;> rfl

end messages

section step
variable {p : Params} {b d v l : Nat} {s t : State} {pr : Proc}

theorem started_of_made (some_child : 0 < made b d v pr) : pr.pc.started = true := by
  unfold made at some_child
  split at some_child
  · cases place : pr.pc <;> simp_all [Pc.started]
  · omega

theorem Tree.root_started (tree : Tree b d s) (wide : 0 < b) (later : 0 < v) (present : (s.proc v).pc ≠ .absent) :
    (s.proc 0).pc.started = true := by
  induction v using Nat.strongRecOn with
  | ind v ih =>
    have child := child_of_parent wide later
    have before := (tree.forked (parent b v) v child).mp present
    have low := (mem_children.mp child).1
    have some_child : 0 < made b d (parent b v) (s.proc (parent b v)) := by omega
    have started := started_of_made some_child
    by_cases first : parent b v = 0
    · rw [← first]
      exact started
    · have above := child_gt wide child
      refine ih (parent b v) above (by omega) ?_
      intro absent
      rw [absent] at started
      cases started

theorem success_takes (fits : Fits p b d) (inv : Inv p b d s) (takes : Takes p b d s v pr t) :
    t.success = true ↔ (t.proc 0).pc = .exited := by
  have procs := takes.procs
  have wide := fits.shape.wide
  have keep : (s.proc v).pc ≠ .exited → pr.pc ≠ .exited → t.success = s.success →
      (t.success = true ↔ (t.proc 0).pc = .exited) := by
    intro before after same
    have exited : ((t.proc 0).pc = .exited) = ((s.proc 0).pc = .exited) :=
      same_put (φ := fun pc => pc = .exited) procs (by simp only [before, after]) 0
    rw [same, exited]
    exact inv.success
  cases takes with
  | start place next =>
    refine keep (by simp [place]) ?_ rfl
    rcases next with next | next <;> simp [next]
  | send i w place leaf more entry next =>
    refine keep (by simp [place]) ?_ rfl
    rw [next]
    split <;> simp
  | receive cldcnt u i place leaf more sender entry member next =>
    refine keep (by simp [place]) ?_ rfl
    rw [next]
    split <;> simp
  | semZero place inner count next => exact keep (by simp [place]) (by simp [next]) rfl
  | lock place free next => exact keep (by simp [place]) (by simp [next]) rfl
  | getval place next => exact keep (by simp [place]) (by simp [next]) rfl
  | setval semval place next =>
    refine keep (by simp [place]) (by simp [next]) ?_
    rw [State.put]
    split <;> rfl
  | unlock place next => exact keep (by simp [place]) (by simp [next]) rfl
  | doit place next =>
    simp only [State.put, Bool.or_eq_true, decide_eq_true_eq]
    by_cases first : v = 0
    · subst first
      have pid := (inv.messages.shm 0 (by rw [place]; rfl)).1
      rw [update_self]
      exact iff_of_true (.inr pid) next
    · -- only the first process finds its own id in its slot
      have started := inv.tree.root_started (by omega) (Nat.pos_of_ne_zero first) (by simp [place])
      have pid := (inv.messages.shm 0 started).1
      have other : (s.shm 0).pid ≠ p.pid v := by
        rw [pid]
        exact (p.pid_first v first).symm
      rw [update_of_ne (Ne.symm first), or_iff_left other]
      exact inv.success

theorem step_inv (fits : Fits p b d) (inv : Inv p b d s) (taken : step p v s = some t) : Inv p b d t := by
  rcases step_cases fits inv taken with ⟨l, c, f, rest, pr, forks⟩ | ⟨l, pr, goes, takes⟩
  · exact forks.inv fits inv
  · exact ⟨inv.tree.put goes.level goes.present goes.there goes.place goes.pslot goes.made takes.procs,
      inv.locks.takes takes, inv.counts.takes fits inv.locks goes takes, inv.messages.takes fits takes,
      success_takes fits inv takes⟩

end step
end Handshake
