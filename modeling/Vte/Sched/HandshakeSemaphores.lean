import Vte.Base.Occurrences
import Vte.Sched.HandshakeSteps

/-!
The steps of the semaphores: a lock has one holder at most, and a counter is the number of the children that have
not decremented it yet.
-/
namespace Handshake
open Function HeapTree Occurrences Process

section takes
variable {p : Params} {b d v l : Nat} {s t : State} {pr : Proc}

theorem Takes.procs (takes : Takes p b d s v pr t) : t.proc = update s.proc v pr := by
  cases takes with
  | setval semval place next =>
    rw [State.put]
    split <;> rfl
  | _ => rfl

theorem Locks.acquire {n : Nat} (locks : Locks s) (procs : t.proc = update s.proc v pr)
    (idle : (s.proc v).pc.holds = none) (own : pr.pc.holds = some n) (free : 0 < s.sem_lock n)
    (sem_lock : t.sem_lock = update s.sem_lock n (s.sem_lock n - 1)) : Locks t := by
  -- nobody has held this lock
  have other : ∀ w m, (s.proc w).pc.holds = some m → m ≠ n := by
    rintro w m holds rfl
    have zero := (locks.holder w m holds).1
    omega
  constructor
  · intro m
    have le := locks.le m
    rw [sem_lock, update_apply]
    split
    · rename_i same
      subst same
      omega
    · exact le
  · intro w m holds
    by_cases is_own : w = v
    · subst is_own
      rw [put_own procs, own] at holds
      obtain rfl := Option.some.inj holds
      refine ⟨?_, ?_⟩
      · have le := locks.le n
        rw [sem_lock, update_self]
        omega
      · intro w' holds'
        by_contra different
        rw [put_other procs different] at holds'
        exact other w' n holds' rfl
    · rw [put_other procs is_own] at holds
      obtain ⟨zero, only⟩ := locks.holder w m holds
      have different := other w m holds
      refine ⟨?_, ?_⟩
      · rw [sem_lock, update_of_ne different]
        exact zero
      · intro w' holds'
        by_cases is_own' : w' = v
        · subst is_own'
          rw [put_own procs, own] at holds'
          exact absurd (Option.some.inj holds').symm different
        · rw [put_other procs is_own'] at holds'
          exact only w' holds'
  · intro m zero
    by_cases same : m = n
    · subst same
      refine ⟨v, ?_⟩
      rw [put_own procs]
      exact own
    · rw [sem_lock, update_of_ne same] at zero
      obtain ⟨w, holds⟩ := locks.held m zero
      have different : w ≠ v := by
        rintro rfl
        rw [idle] at holds
        cases holds
      refine ⟨w, ?_⟩
      rw [put_other procs different]
      exact holds

theorem Locks.release {n : Nat} (locks : Locks s) (procs : t.proc = update s.proc v pr)
    (held : (s.proc v).pc.holds = some n) (idle : pr.pc.holds = none)
    (sem_lock : t.sem_lock = update s.sem_lock n 1) : Locks t := by
  have only := (locks.holder v n held).2
  have is_other : ∀ {w m}, (t.proc w).pc.holds = some m → w ≠ v := by
    rintro w m holds rfl
    rw [put_own procs, idle] at holds
    cases holds
  constructor
  · intro m
    have le := locks.le m
    rw [sem_lock, update_apply]
    split
    · exact Nat.le_refl 1
    · exact le
  · intro w m holds
    have not_own := is_other holds
    rw [put_other procs not_own] at holds
    obtain ⟨zero, only'⟩ := locks.holder w m holds
    have different : m ≠ n := by
      rintro rfl
      exact not_own (only w holds)
    refine ⟨?_, ?_⟩
    · rw [sem_lock, update_of_ne different]
      exact zero
    · intro w' holds'
      rw [put_other procs (is_other holds')] at holds'
      exact only' w' holds'
  · intro m zero
    have different : m ≠ n := by
      rintro rfl
      rw [sem_lock, update_self] at zero
      cases zero
    rw [sem_lock, update_of_ne different] at zero
    obtain ⟨w, holds⟩ := locks.held m zero
    have not_own : w ≠ v := by
      rintro rfl
      rw [held] at holds
      exact different (Option.some.inj holds).symm
    refine ⟨w, ?_⟩
    rw [put_other procs not_own]
    exact holds

theorem Locks.takes (locks : Locks s) (takes : Takes p b d s v pr t) : Locks t := by
  have procs := takes.procs
  cases takes with
  | start place next =>
    refine locks.keep (same_put procs ?_) rfl
    rcases next with next | next <;> rw [place, next] <;> rfl
  | send i w place leaf more entry next =>
    refine locks.keep (same_put procs ?_) rfl
    rw [place, next]
    split <;> rfl
  | receive cldcnt u i place leaf more sender entry member next =>
    refine locks.keep (same_put procs ?_) rfl
    rw [place, next]
    split <;> rfl
  | semZero place inner count next => exact locks.keep (same_put procs (by rw [place, next]; rfl)) rfl
  | lock place free next =>
    exact locks.acquire procs (by rw [place]; rfl) (by rw [next]; rfl) free rfl
  | getval place next => exact locks.keep (same_put procs (by rw [place, next]; rfl)) rfl
  | setval semval place next =>
    refine locks.keep (same_put procs (by rw [place, next]; rfl)) ?_
    rw [State.put]
    split <;> rfl
  | unlock place next => exact locks.release procs (by rw [place]; rfl) (by rw [next]; rfl) rfl
  | doit place next => exact locks.keep (same_put procs (by rw [place, next]; rfl)) rfl

theorem Counts.sem_zero (counts : Counts b d s) (procs : t.proc = update s.proc v pr)
    (place : (s.proc v).pc = .semZero) (next : pr.pc = .lock v) (inner : v < nodes b d) (none_left : s.sem_count v = 0)
    (sem_count : t.sem_count = s.sem_count) (zero : t.zero = update s.zero v true)
    (decremented : t.decremented = s.decremented) : Counts b d t := by
  have done : Same Pc.done s t := same_put procs (by rw [place, next]; rfl)
  have semval : Same Pc.semval s t := same_put procs (by rw [place, next]; rfl)
  have all : ∀ c ∈ children b v, (s.proc c).pc.done = true := by
    have count := counts.count v inner
    rw [none_left, Nat.zero_add] at count
    exact List.countP_eq_length.mp (count.trans (children_length b v).symm)
  have rest : ∀ w < nodes b d, (t.proc w).pc.past = true →
      t.zero w = true ∧ ∀ c ∈ children b w, (t.proc c).pc.done = true := by
    intro w inside goes_on
    simp only [done _, zero]
    by_cases own : w = v
    · subst own
      exact ⟨update_self w true s.zero, all⟩
    · rw [put_other procs own] at goes_on
      rw [update_of_ne own]
      exact counts.past w inside goes_on
  constructor
  · simp only [done _, sem_count]
    exact counts.count
  · rw [sem_count]
    exact counts.semval_same semval
  · exact rest
  · simp only [done _, decremented]
    exact counts.decremented

theorem root_semval {n : Nat} {semval : Int} (fits : Fits p b d) (counts : Counts b d s)
    (own : n = parent b 0) (place : (s.proc 0).pc = .setval n semval) : semval < 0 := by
  have deep := fits.shape.deep
  have some_node := nodes_pos b 0
  have mono : nodes b (0 + 1) ≤ nodes b d := nodes_mono b (by omega)
  have first : parent b 0 = 0 := by rw [parent, Nat.zero_sub, Nat.zero_div]
  rw [first] at own
  subst own
  obtain ⟨_, all⟩ := counts.past 0 (by omega) (by rw [place]; rfl)
  have count := counts.count 0 (by omega)
  rw [List.countP_eq_length.mpr all, children_length] at count
  have value := counts.semval 0 0 semval (by rw [place]; rfl)
  omega

theorem parent_inner (wide : 0 < b) (level : Level b l v) (within : l ≤ d) (later : 0 < v) :
    parent b v < nodes b d := by
  cases l with
  | zero =>
    have high := level.2
    rw [nodes_succ, nodes_zero, Nat.pow_zero] at high
    omega
  | succ l => exact (level_lt_iff (level_parent wide level) d).mpr (by omega)

theorem Counts.positive {n : Nat} (counts : Counts b d s) (inner : n < nodes b d) (child : v ∈ children b n)
    (not_done : (s.proc v).pc.done = false) : 0 < s.sem_count n := by
  have count := counts.count n inner
  by_contra none_left
  have all := List.countP_eq_length.mp
    ((show (children b n).countP (fun c => (s.proc c).pc.done) = b by omega).trans (children_length b n).symm)
  have done := all v child
  rw [not_done] at done
  cases done

theorem Counts.decrement {n : Nat} (counts : Counts b d s) (procs : t.proc = update s.proc v pr)
    (inner : n < nodes b d) (child : v ∈ children b n) (before : (s.proc v).pc.done = false)
    (after : pr.pc.done = true) (past : pr.pc.past = (s.proc v).pc.past)
    (alone : ∀ w m value, (t.proc w).pc.semval = some (m, value) → w ≠ v ∧ m ≠ n)
    (sem_count : t.sem_count = update s.sem_count n (s.sem_count n - 1)) (zero : t.zero = s.zero)
    (decremented : t.decremented = update s.decremented n (s.decremented n ++ [v])) : Counts b d t := by
  have done : ∀ c, (t.proc c).pc.done = true ↔ c = v ∨ (s.proc c).pc.done = true := by
    intro c
    by_cases own : c = v
    · subst own
      rw [put_own procs]
      exact iff_of_true after (.inl rfl)
    · rw [put_other procs own]
      exact ⟨.inr, fun either => either.resolve_left own⟩
  have elsewhere : ∀ m ≠ n, ∀ c ∈ children b m, c ≠ v := by
    rintro m different c child' rfl
    exact different ((parent_child child').symm.trans (parent_child child))
  constructor
  · intro m inner'
    have count := counts.count m inner'
    by_cases own : m = n
    · subst own
      have positive := counts.positive inner child before
      have more := countP_succ (Q := fun c => (t.proc c).pc.done) (children_nodup b m) child before
        (by rw [put_own procs]; exact after) fun c _ other => by rw [put_other procs other]
      rw [sem_count, update_self, more]
      omega
    · have same : (children b m).countP (fun c => (t.proc c).pc.done) =
          (children b m).countP fun c => (s.proc c).pc.done :=
        List.countP_congr fun c child' => by rw [put_other procs (elsewhere m own c child')]
      rw [sem_count, update_of_ne own, same]
      exact count
  · intro w m value sets
    obtain ⟨other, different⟩ := alone w m value sets
    rw [put_other procs other] at sets
    rw [sem_count, update_of_ne different]
    exact counts.semval w m value sets
  · intro w inside goes_on
    have so_far : (s.proc w).pc.past = true := by
      by_cases own : w = v
      · subst own
        rw [put_own procs] at goes_on
        rw [← past]
        exact goes_on
      · rw [put_other procs own] at goes_on
        exact goes_on
    obtain ⟨seen, all⟩ := counts.past w inside so_far
    rw [zero]
    exact ⟨seen, fun c child' => (done c).mpr (.inr (all c child'))⟩
  · intro m inner'
    obtain ⟨nodup, mem⟩ := counts.decremented m inner'
    rw [decremented]
    by_cases own : m = n
    · subst own
      rw [update_self]
      have fresh : v ∉ s.decremented m := by
        intro member
        have already := ((mem v).mp member).2
        rw [before] at already
        cases already
      refine ⟨nodup.append (List.nodup_singleton v) (List.disjoint_singleton.mpr fresh), ?_⟩
      intro c
      rw [List.mem_append, List.mem_singleton, mem c, done]
      constructor
      · rintro (⟨child', already⟩ | rfl)
        · exact ⟨child', .inr already⟩
        · exact ⟨child, .inl rfl⟩
      · rintro ⟨child', rfl | already⟩
        · exact .inr rfl
        · exact .inl ⟨child', already⟩
    · rw [update_of_ne own]
      refine ⟨nodup, fun c => (mem c).trans (and_congr_right fun child' => ?_)⟩
      rw [put_other procs (elsewhere m own c child')]

theorem holds_of_semval {pc : Pc} {n : Nat} {semval : Int} (sets : pc.semval = some (n, semval)) :
    pc.holds = some n := by
  cases pc <;> simp_all [Pc.semval, Pc.holds]

theorem Counts.setval {semval : Int} (fits : Fits p b d) (counts : Counts b d s) (locks : Locks s)
    (goes : Goes b d s v pr l) (place : (s.proc v).pc = .setval (parent b v) semval)
    (next : pr.pc = .unlock (parent b v)) :
    Counts b d (State.put (if 0 ≤ semval then
      { s with
        sem_count := update s.sem_count (parent b v) semval.toNat
        decremented := update s.decremented (parent b v) (s.decremented (parent b v) ++ [v]) }
      else s) v pr) := by
  have wide := fits.shape.wide
  by_cases first : v = 0
  · subst first
    have refused := root_semval fits counts rfl place
    rw [if_neg (by omega)]
    have procs : (s.put 0 pr).proc = update s.proc 0 pr := rfl
    refine counts.keep (fun w other => by rw [put_other procs other]) ?_ ?_ rfl rfl rfl
    · intro w n value sets
      have other : w ≠ 0 := by
        rintro rfl
        rw [put_own procs, next] at sets
        cases sets
      rw [put_other procs other] at sets
      exact counts.semval w n value sets
    · have past : Same Pc.past s (s.put 0 pr) := same_put procs (by rw [place, next]; rfl)
      exact fun w _ => past w
  · have child := child_of_parent (b := b) (t := v) (by omega) (by omega)
    have inner : parent b v < nodes b d := parent_inner (by omega) goes.level goes.within (by omega)
    have not_done : (s.proc v).pc.done = false := by
      rw [place]
      rfl
    have positive := counts.positive inner child not_done
    have value := counts.semval v (parent b v) semval (by rw [place]; rfl)
    have less : semval.toNat = s.sem_count (parent b v) - 1 := by omega
    rw [if_pos (by omega), less]
    refine counts.decrement rfl inner child not_done (by rw [next]; rfl) (by rw [place, next]; rfl) ?_ rfl rfl rfl
    intro w m value' sets
    have own : w ≠ v := by
      rintro rfl
      rw [put_own rfl, next] at sets
      cases sets
    rw [put_other rfl own] at sets
    refine ⟨own, ?_⟩
    rintro rfl
    -- it would hold the lock of this counter too
    exact own ((locks.holder v _ (by rw [place]; rfl)).2 w (holds_of_semval sets))

theorem Counts.takes (fits : Fits p b d) (counts : Counts b d s) (locks : Locks s) (goes : Goes b d s v pr l)
    (takes : Takes p b d s v pr t) : Counts b d t := by
  have procs := takes.procs
  -- what does not touch the counters, with what follows from where the process is and where it goes
  have keep : Same Pc.done s t → Same Pc.semval s t → (∀ w < nodes b d, (t.proc w).pc.past = (s.proc w).pc.past) →
      t.sem_count = s.sem_count → t.zero = s.zero → t.decremented = s.decremented → Counts b d t :=
    fun done semval => counts.keep (fun w _ => done w) (counts.semval_same semval)
  cases takes with
  | start place next =>
    refine keep (same_put procs ?_) (same_put procs ?_) (fun w _ => same_put procs ?_ w) rfl rfl rfl <;>
      rcases next with next | next <;> rw [place, next] <;> rfl
  | send i w place leaf more entry next =>
    refine keep (same_put procs ?_) (same_put procs ?_) (fun w _ => same_put procs ?_ w) rfl rfl rfl <;>
      rw [place, next] <;> split <;> rfl
  | receive cldcnt u i place leaf more sender entry member next =>
    refine keep (same_put procs ?_) (same_put procs ?_) ?_ rfl rfl rfl
    · rw [place, next]
      split <;> rfl
    · rw [place, next]
      split <;> rfl
    · intro w inner
      have low := leaf.1
      rw [put_other procs (by omega)]
  | semZero place inner count next => exact counts.sem_zero procs place next inner count rfl rfl rfl
  | lock place free next =>
    refine keep (same_put procs ?_) (same_put procs ?_) (fun w _ => same_put procs ?_ w) rfl rfl rfl <;>
      rw [place, next] <;> rfl
  | getval place next =>
    refine counts.keep (fun w _ => same_put procs ?_ w) ?_ (fun w _ => same_put procs ?_ w) rfl rfl rfl
    · rw [place, next]
      rfl
    · intro w n semval sets
      by_cases own : w = v
      · subst own
        rw [put_own procs, next] at sets
        obtain ⟨rfl, rfl⟩ := Prod.mk.inj (Option.some.inj sets)
        rfl
      · rw [put_other procs own] at sets
        exact counts.semval w n semval sets
    · rw [place, next]
      rfl
  | setval semval place next => exact counts.setval fits locks goes place next
  | unlock place next =>
    refine keep (same_put procs ?_) (same_put procs ?_) (fun w _ => same_put procs ?_ w) rfl rfl rfl <;>
      rw [place, next] <;> rfl
  | doit place next =>
    refine keep (same_put procs ?_) (same_put procs ?_) (fun w _ => same_put procs ?_ w) rfl rfl rfl <;>
      rw [place, next] <;> rfl

end takes
end Handshake
