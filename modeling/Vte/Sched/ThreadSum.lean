import Vte.Sched.ThreadTreeRuns

/-!
The sum of pth_str03: a thread joins its children in the order in which it created them, and adds what it finds
in the order in which they have registered.
-/
namespace ThreadTree
open Function HeapTree Machine

section invariant
variable (p : Params)

def Pc.added (level : Nat) : Pc → Nat
  | .joining child => child
  | .exited => if level < p.depth then p.breadth else 0
  | _ => 0

variable (s : State)

def added (q : Nat) : Nat := (s.thread q).pc.added p (s.thread q).level

def live (j : Nat) : Bool :=
  match (s.thread j).parent with
  | none => true
  | some q => added p s q ≤ (s.child_info q).child_ptrs.idxOf j

def share (j : Nat) : Nat := if live p s j then (s.child_info j).sum else 0

structure SumInv : Prop where
  sum : ∑ j ∈ Finset.range s.node_count, share p s j = ∑ j ∈ Finset.range s.node_count, j
  merged : ∀ j < s.node_count, live p s j = false → (s.thread j).pc = .exited ∨ (s.thread j).level = p.depth
  bound : ∀ q < s.node_count, added p s q ≤ kids s q

def Act.index : Act → Option Nat
  | .next i => some i
  | _ => none

def Pc.joins : Pc → Option Nat
  | .joining child => some child
  | _ => none

def AddsFinished (act : Act) (s : State) : Prop :=
  ∀ i ∈ act.index, ∀ child ∈ (s.thread i).pc.joins, ∀ ptr ∈ (s.child_info i).child_ptrs[child]?,
    (s.child_info i).threads[child]? = some (some ptr) ∨ (s.thread ptr).level = p.depth ∨ (s.thread ptr).pc = .exited

instance (act : Act) (s : State) : Decidable (AddsFinished p act s) :=
  inferInstanceAs (Decidable (∀ i ∈ act.index, ∀ child ∈ (s.thread i).pc.joins,
    ∀ ptr ∈ (s.child_info i).child_ptrs[child]?, (s.child_info i).threads[child]? = some (some ptr) ∨
      (s.thread ptr).level = p.depth ∨ (s.thread ptr).pc = .exited))

end invariant

section steps
variable {p : Params} {s t : State} {total i : Nat}

theorem SumInv.keep (sums : SumInv p s) (count : t.node_count = s.node_count)
    (parents : ∀ j, (t.thread j).parent = (s.thread j).parent)
    (levels : ∀ j, (t.thread j).level = (s.thread j).level)
    (ptrs : ∀ j, (t.child_info j).child_ptrs = (s.child_info j).child_ptrs)
    (same_sum : ∀ j, (t.child_info j).sum = (s.child_info j).sum)
    (same_added : ∀ j, added p t j = added p s j)
    (exits : ∀ j, (s.thread j).pc = .exited → (t.thread j).pc = .exited) : SumInv p t := by
  have lives : ∀ j, live p t j = live p s j := by
    intro j
    rw [live, live, parents]
    cases (s.thread j).parent with
    | none => rfl
    | some q => simp only [same_added, ptrs]
  constructor
  · simp only [share, lives, same_sum, count]
    exact sums.sum
  · intro j index merged
    rw [count] at index
    rw [lives] at merged
    rw [levels]
    exact (sums.merged j index merged).imp (exits j) id
  · intro q index
    rw [count] at index
    rw [same_added, kids, ptrs]
    exact sums.bound q index

theorem SumInv.go_to (sums : SumInv p s) {pc : Pc}
    (same_added : pc.added p (s.thread i).level = (s.thread i).pc.added p (s.thread i).level)
    (goes_on : (s.thread i).pc ≠ .exited) : SumInv p (s.goTo i pc) := by
  apply sums.keep <;> try simp only [go_to_node_count, go_to_parent, go_to_level, go_to_child_info, implies_true]
  · intro j
    by_cases own : j = i
    · subst own
      rw [added, added, go_to_pc, go_to_level]
      exact same_added
    · rw [added, added, go_to_other s pc own]
  · intro j exited
    have other : j ≠ i := by
      rintro rfl
      exact goes_on exited
    rw [go_to_other s pc other]
    exact exited

theorem start_sum (started : start init = some t) : SumInv p t := by
  obtain rfl := Option.some.inj started
  constructor
  · simp [share, live, init]
  · intro j index merged
    obtain rfl : j = 0 := by
      simp only at index
      omega
    cases merged
  · intro q index
    obtain rfl : q = 0 := by
      simp only at index
      omega
    exact Nat.zero_le _

theorem SumInv.set_info (sums : SumInv p s) (info : Info)
    (ptrs : info.child_ptrs = (s.child_info i).child_ptrs) (sum : info.sum = (s.child_info i).sum) :
    SumInv p { s with child_info := update s.child_info i info } := by
  apply sums.keep <;> try exact fun _ => rfl
  · rfl
  · intro j
    by_cases own : j = i <;> simp [own, ptrs]
  · intro j
    by_cases own : j = i <;> simp [own, sum]
  · exact fun _ exited => exited

theorem create_sum (sums : SumInv p s) {child : Nat} (place : (s.thread i).pc = .creating child) :
    SumInv p (create p s i child) := by
  have created := sums.set_info (i := i)
    { s.child_info i with threads := (s.child_info i).threads ++ [none] } rfl rfl
  refine created.go_to ?_ ?_
  · simp only [place]
    split_ifs <;> rfl
  · simp only [place]
    exact fun wrong => by cases wrong

theorem contact_sum (sums : SumInv p s) {sibling : Nat} : SumInv p (contact p s sibling) := by
  have counted := sums.set_info (i := sibling)
    { s.child_info sibling with talk_count := (s.child_info sibling).talk_count + 1 } rfl rfl
  unfold contact
  dsimp only
  split_ifs with wakes
  · refine counted.go_to ?_ ?_
    · simp only [wakes.2]
      rfl
    · simp only [wakes.2]
      exact fun wrong => by cases wrong
  · exact counted

theorem talk_sum (sums : SumInv p s) {child : Nat} (place : (s.thread i).pc = .talking child)
    (talked : talk p s i child = some t) : SumInv p t := by
  obtain ⟨parent, _, talked⟩ := Option.bind_eq_some_iff.mp talked
  obtain ⟨sibling, _, talked⟩ := Option.bind_eq_some_iff.mp talked
  obtain rfl := Option.some.inj talked
  have between : ∀ u, u = (if sibling ≠ i then contact p s sibling else s) → SumInv p u ∧ u.thread i = s.thread i := by
    rintro u rfl
    split_ifs with other
    · exact ⟨contact_sum sums, ((contact_frame p s sibling).2.2 i).2.2 (Ne.symm other)⟩
    · exact ⟨sums, rfl⟩
  obtain ⟨sums', thread⟩ := between _ rfl
  refine sums'.go_to ?_ ?_
  · rw [thread, place]
    split_ifs <;> rfl
  · rw [thread, place]
    exact fun wrong => by cases wrong

theorem heart_sum (inv : Inv p s) (sums : SumInv p s) (index : i < s.node_count)
    (place : (s.thread i).pc = .ready) : SumInv p (heart p s i) := by
  have fits := (inv.thread i index).fits
  rw [place, Pc.Fits] at fits
  have goes_on : (s.thread i).pc ≠ .exited := by
    rw [place]
    exact fun wrong => by cases wrong
  unfold heart
  split_ifs with inner talks
  · exact sums.go_to (by rw [place]; rfl) goes_on
  · exact sums.go_to (by rw [place]; rfl) goes_on
  · have leaf : ¬ (s.thread i).level < p.depth := by omega
    exact sums.go_to (by simp [place, Pc.added, leaf]) goes_on

theorem check_sum (inv : Inv p s) (sums : SumInv p s) (index : i < s.node_count)
    (place : (s.thread i).pc = .checking) : SumInv p (check p s i) := by
  have fits := (inv.thread i index).fits
  rw [place] at fits
  have leaf := fits.1
  have goes_on : (s.thread i).pc ≠ .exited := by
    rw [place]
    exact fun wrong => by cases wrong
  unfold check
  split_ifs
  · exact sums.go_to (by rw [place]; rfl) goes_on
  · exact sums.go_to (by simp [place, Pc.added, leaf]) goes_on

end steps

section register
variable {p : Params} {s t : State} {parent child : Nat}

theorem Registers.sum (reg : Registers p s t parent child) (str03 : p.prog = .str03) (inv : Inv p s)
    (sums : SumInv p s) (new : (t.thread s.node_count).pc = .waiting ∨ (t.thread s.node_count).pc = .ready)
    (old : ∀ i < s.node_count, (t.thread i).pc.added p (s.thread i).level = added p s i)
    (exits : ∀ i < s.node_count, (s.thread i).pc = .exited → (t.thread i).pc = .exited) : SumInv p t := by
  have known := reg.known
  have infos := registered_eq p s child known
  have same_added : ∀ q < s.node_count, added p t q = added p s q := by
    intro q index
    rw [added, reg.levels q index]
    exact old q index
  have same_index : ∀ q < s.node_count, ∀ j ∈ (s.child_info q).child_ptrs,
      (t.child_info q).child_ptrs.idxOf j = (s.child_info q).child_ptrs.idxOf j := by
    intro q index j member
    rw [reg.info, (infos q).2.1]
    split_ifs
    · exact List.idxOf_append_of_mem member
    · rfl
  have lives : ∀ j < s.node_count, live p t j = live p s j := by
    intro j index
    rw [live, live, reg.parents j index]
    cases up : (s.thread j).parent with
    | none => rfl
    | some q =>
      obtain ⟨small, member⟩ := inv.parent_lt index up
      simp only [same_added q small, same_index q small j member]
  have live_new : live p t s.node_count = true := by
    rw [live, reg.new_parent]
    have fresh : s.node_count ∉ (s.child_info parent).child_ptrs :=
      fun member => Nat.lt_irrefl _ ((inv.thread parent known).child _ member).1
    have bound := sums.bound parent known
    rw [kids] at bound
    simp only [same_added parent known, reg.info, (infos parent).2.1, if_pos, decide_eq_true_eq]
    rw [List.idxOf_append_of_notMem fresh]
    omega
  have sums_old : ∀ j < s.node_count, (t.child_info j).sum = (s.child_info j).sum := by
    intro j index
    have other : j ≠ s.node_count := by omega
    rw [reg.info, registered, update_of_ne other]
    by_cases own : j = parent <;> simp [own]
  have sum_new : (t.child_info s.node_count).sum = s.node_count := by
    rw [reg.info, registered, update_self]
    simp [str03]
  constructor
  · have shares : ∀ j ∈ Finset.range s.node_count, share p t j = share p s j := by
      intro j member
      have index := Finset.mem_range.mp member
      rw [share, share, lives j index, sums_old j index]
    rw [reg.count, Finset.sum_range_succ, Finset.sum_range_succ, Finset.sum_congr rfl shares, sums.sum,
      share, if_pos live_new, sum_new]
  · intro j index merged
    rw [reg.count] at index
    by_cases own : j = s.node_count
    · subst own
      rw [live_new] at merged
      cases merged
    · have small : j < s.node_count := by omega
      rw [lives j small] at merged
      rw [reg.levels j small]
      exact (sums.merged j small merged).imp (exits j small) id
  · intro q index
    rw [reg.count] at index
    by_cases own : q = s.node_count
    · subst own
      rcases new with place | place <;> simp [added, place, Pc.added]
    · have small : q < s.node_count := by omega
      rw [same_added q small, reg.kids_eq]
      exact Nat.le_trans (sums.bound q small) (Nat.le_add_right _ _)

end register

section join
variable {p : Params} {s t : State} {i child ptr : Nat}

theorem sum_two {f g : Nat → Nat} {n a b : Nat} (first : a < n) (second : b < n) (different : a ≠ b)
    (both : f a + f b = g a + g b) (others : ∀ j < n, j ≠ a → j ≠ b → f j = g j) :
    ∑ j ∈ Finset.range n, f j = ∑ j ∈ Finset.range n, g j := by
  have at_b : b ∈ (Finset.range n).erase a := Finset.mem_erase.mpr ⟨Ne.symm different, Finset.mem_range.mpr second⟩
  have rest : ∑ j ∈ ((Finset.range n).erase a).erase b, f j = ∑ j ∈ ((Finset.range n).erase a).erase b, g j := by
    apply Finset.sum_congr rfl
    intro j member
    obtain ⟨not_b, member⟩ := Finset.mem_erase.mp member
    obtain ⟨not_a, member⟩ := Finset.mem_erase.mp member
    exact others j (Finset.mem_range.mp member) not_a not_b
  rw [← Finset.add_sum_erase _ f (Finset.mem_range.mpr first), ← Finset.add_sum_erase _ f at_b,
    ← Finset.add_sum_erase _ g (Finset.mem_range.mpr first), ← Finset.add_sum_erase _ g at_b, rest]
  omega

structure Adds (p : Params) (s t : State) (i child ptr : Nat) : Prop where
  place : (s.thread i).pc = .joining child
  listed : (s.child_info i).child_ptrs[child]? = some ptr
  node_count : t.node_count = s.node_count
  parents : ∀ j, (t.thread j).parent = (s.thread j).parent
  levels : ∀ j, (t.thread j).level = (s.thread j).level
  ptrs : ∀ j, (t.child_info j).child_ptrs = (s.child_info j).child_ptrs
  own_sum : (t.child_info i).sum = (s.child_info i).sum + (s.child_info ptr).sum
  sums : ∀ j ≠ i, (t.child_info j).sum = (s.child_info j).sum
  own_added : added p t i = child + 1
  threads : ∀ j ≠ i, t.thread j = s.thread j
  finished : (s.thread ptr).pc = .exited ∨ (s.thread ptr).level = p.depth

theorem join_cases (str03 : p.prog = .str03) (inv : Inv p s) (index : i < s.node_count)
    (place : (s.thread i).pc = .joining child) (adds : AddsFinished p (.next i) s)
    (joined : join p s i child = some t) : ∃ ptr, Adds p s t i child ptr := by
  have fits := (inv.thread i index).fits
  rw [place] at fits
  obtain ⟨_, inner, small⟩ := fits
  obtain ⟨slot, found, joined⟩ := Option.bind_eq_some_iff.mp joined
  obtain ⟨j, registered, joined⟩ := Option.bind_eq_some_iff.mp joined
  split at joined
  swap
  · cases joined
  rename_i exited
  obtain ⟨u, added, joined⟩ := Option.bind_eq_some_iff.mp joined
  obtain rfl := Option.some.inj joined
  rw [addSum, if_pos str03] at added
  obtain ⟨ptr, listed, added⟩ := Option.bind_eq_some_iff.mp added
  obtain rfl := Option.some.inj added
  refine ⟨ptr, place, listed, rfl, by simp, by simp, ?_, by simp, ?_, ?_, ?_, ?_⟩
  · intro k
    by_cases own : k = i <;> simp [own]
  · intro k other
    simp [other]
  · rw [ThreadTree.added, go_to_pc, go_to_level]
    split_ifs
    · rfl
    · simp only [Pc.added, inner, if_true]
      omega
  · intro k other
    rw [go_to_other _ _ other]
  · rcases adds i rfl child (by rw [place]; rfl) ptr listed with same | leaf | exits
    · rw [found, registered] at same
      obtain rfl := Option.some.inj (Option.some.inj same)
      exact .inl exited
    · exact .inr leaf
    · exact .inl exits

theorem Adds.sum (adds : Adds p s t i child ptr) (inv : Inv p s) (sums : SumInv p s)
    (index : i < s.node_count) : SumInv p t := by
  have here := inv.thread i index
  have fits := here.fits
  rw [adds.place] at fits
  have inner := fits.2.1
  have member := List.mem_of_getElem? adds.listed
  obtain ⟨known, up, deeper⟩ := here.child ptr member
  have different : i ≠ ptr := by
    rintro rfl
    omega
  have inside := (List.getElem?_eq_some_iff.mp adds.listed).1
  have at_child : (s.child_info i).child_ptrs.idxOf ptr = child := by
    obtain ⟨_, same⟩ := List.getElem?_eq_some_iff.mp adds.listed
    rw [← same]
    exact here.nodup.idxOf_getElem child inside
  have own_before : added p s i = child := by rw [added, adds.place, Pc.added]
  have other_added : ∀ q ≠ i, added p t q = added p s q := by
    intro q other
    rw [added, added, adds.threads q other]
  have lives : ∀ j < s.node_count, j ≠ ptr → live p t j = live p s j := by
    intro j small other
    rw [live, live, adds.parents]
    cases up_j : (s.thread j).parent with
    | none => rfl
    | some q =>
      by_cases own : q = i
      · subst own
        have found := (inv.parent_lt small up_j).2
        have not_child : (s.child_info q).child_ptrs.idxOf j ≠ child := by
          intro same
          have listed := List.getElem?_idxOf found
          rw [same, adds.listed] at listed
          exact other (Option.some.inj listed).symm
        simp only [adds.ptrs, adds.own_added, own_before]
        exact decide_eq_decide.mpr (by omega)
      · simp only [adds.ptrs, other_added q own]
  have ptr_before : live p s ptr = true := by
    simp only [live, up, own_before, at_child, decide_eq_true_eq]
    exact Nat.le_refl _
  have ptr_after : live p t ptr = false := by
    simp only [live, adds.parents, up, adds.own_added, adds.ptrs, at_child, decide_eq_false_iff_not]
    omega
  have own_live : live p s i = true := by
    by_contra merged
    rcases sums.merged i index (Bool.eq_false_iff.mpr merged) with exits | leaf
    · rw [adds.place] at exits
      cases exits
    · omega
  constructor
  · rw [adds.node_count, ← sums.sum]
    apply sum_two index known different
    · simp only [share, lives i index different, own_live, ptr_before, ptr_after, adds.own_sum, if_true,
        Bool.false_eq_true, if_false]
      omega
    · intro j small not_own not_ptr
      rw [share, share, lives j small not_ptr, adds.sums j not_own]
  · intro j small merged
    rw [adds.node_count] at small
    rw [adds.levels]
    by_cases contacted : j = ptr
    · subst contacted
      rw [adds.threads j (Ne.symm different)]
      exact adds.finished
    · rw [lives j small contacted] at merged
      by_cases own : j = i
      · subst own
        rw [own_live] at merged
        cases merged
      · rw [adds.threads j own]
        exact sums.merged j small merged
  · intro q small
    rw [adds.node_count] at small
    rw [kids, adds.ptrs]
    by_cases own : q = i
    · subst own
      rw [adds.own_added]
      exact inside
    · rw [other_added q own]
      exact sums.bound q small

end join

section runs
variable {p : Params} {s t : State} {total i : Nat}

theorem doit_sum (str03 : p.prog = .str03) (inv : Inv p s) (sums : SumInv p s) (index : i < s.node_count)
    (adds : AddsFinished p (.next i) s) (taken : doit p s i = some t) : SumInv p t := by
  have fits := (inv.thread i index).fits
  unfold doit at taken
  cases place : (s.thread i).pc with
  | waiting | talkWaiting | exited =>
    rw [place] at taken
    cases taken
  | woken =>
    rw [place] at taken
    obtain rfl := Option.some.inj taken
    exact sums.go_to (by rw [place]; rfl) (by rw [place]; exact fun wrong => by cases wrong)
  | ready =>
    rw [place] at taken
    obtain rfl := Option.some.inj taken
    exact heart_sum inv sums index place
  | creating child =>
    rw [place] at taken
    obtain rfl := Option.some.inj taken
    exact create_sum sums place
  | joining child =>
    rw [place] at taken
    obtain ⟨ptr, step⟩ := join_cases str03 inv index place adds taken
    exact step.sum inv sums index
  | talking child =>
    rw [place] at taken
    exact talk_sum sums place taken
  | checking =>
    rw [place] at taken
    obtain rfl := Option.some.inj taken
    exact check_sum inv sums index place
  | talkWoken =>
    rw [place] at taken fits
    obtain rfl := Option.some.inj taken
    have leaf := fits.1
    exact sums.go_to (by simp [place, Pc.added, leaf]) (by rw [place]; exact fun wrong => by cases wrong)

theorem synchronize_children_sum {parent child : Nat} (accepted : Accepted p total) (str03 : p.prog = .str03)
    (inv : Inv p s) (sums : SumInv p s) (registers : synchronize_children p s parent child = some t) :
    SumInv p t := by
  obtain ⟨reg, ⟨_, _, new, old⟩ | ⟨_, _, new, old⟩⟩ := synchronize_children_cases accepted inv registers
  · refine reg.sum str03 inv sums (.inl new) ?_ ?_
    · intro i index
      rw [old i index, added]
    · intro i index exited
      rw [old i index, exited]
  · refine reg.sum str03 inv sums (.inr new) ?_ ?_
    · intro i index
      rw [old i index, added]
      cases (s.thread i).pc <;> rfl
    · intro i index exited
      rw [old i index, exited]
      rfl

theorem step_sum (accepted : Accepted p total) (str03 : p.prog = .str03) {act : Act} (inv : Inv p s)
    (sums : SumInv p s) (adds : AddsFinished p act s) (taken : step p act s = some t) : SumInv p t := by
  cases act with
  | start =>
    have known := inv.some_node
    rw [step, start, if_neg (by omega)] at taken
    cases taken
  | register parent child => exact synchronize_children_sum accepted str03 inv sums taken
  | next i =>
    rw [step] at taken
    split at taken
    · rename_i index
      exact doit_sum str03 inv sums index adds taken
    · cases taken

theorem run_sums (accepted : Accepted p total) (str03 : p.prog = .str03) {acts : List Act}
    (along : Along (step p) (AddsFinished p) acts init) (ran : run (step p) acts init = some s) :
    s = init ∨ (Inv p s ∧ SumInv p s) := by
  have preserves : ∀ act s t, (s = init ∨ (Inv p s ∧ SumInv p s)) → AddsFinished p act s →
      step p act s = some t → (t = init ∨ (Inv p t ∧ SumInv p t)) := by
    rintro act s t (rfl | ⟨inv, sums⟩) adds taken
    · cases act with
      | start => exact .inr ⟨start_inv accepted taken, start_sum taken⟩
      | register parent child => simp [step, synchronize_children, init] at taken
      | next i => simp [step, init] at taken
    · exact .inr ⟨step_inv accepted inv taken, step_sum accepted str03 inv sums adds taken⟩
  exact run_along preserves (.inl rfl) along ran

theorem SumInv.all_added (sums : SumInv p s) (inv : Inv p s)
    (root : (s.thread 0).pc = .exited) (index : i < s.node_count) :
    ((s.thread i).level < p.depth → (s.thread i).pc = .exited) ∧ (i ≠ 0 → live p s i = false) := by
  induction i using Nat.strong_induction_on with
  | _ i ih =>
    by_cases first : i = 0
    · subst first
      exact ⟨fun _ => root, fun later => absurd rfl later⟩
    · have here := inv.thread i index
      obtain ⟨q, known, up, member⟩ := here.parent first
      have above := (inv.thread q known).child i member
      have earlier : q < i := by
        have high := (inv.thread q known).high
        have low := here.low
        rw [above.2.2] at low
        omega
      have shallow : (s.thread i).level ≤ p.depth := by
        have some_level := inv.level_le index
        have depth := inv.depth
        by_cases last : s.cdepth = p.depth + 1
        · have low := here.low
          rw [inv.last last] at index
          exact Nat.lt_succ_iff.mp (level_lt low index)
        · omega
      have exited := (ih q earlier known).1 (by omega)
      have all : added p s q = p.breadth := by
        rw [added, exited, Pc.added, if_pos (by omega)]
      have merged : live p s i = false := by
        have inside := List.idxOf_lt_length_of_mem member
        have most := (inv.thread q known).kids_le
        rw [kids] at most
        simp only [live, up, all, decide_eq_false_iff_not]
        omega
      refine ⟨fun inner => ?_, fun _ => merged⟩
      rcases sums.merged i index merged with exits | leaf
      · exact exits
      · omega

theorem SumInv.complete (sums : SumInv p s) (accepted : Accepted p total) (inv : Inv p s)
    (root : (s.thread 0).pc = .exited) : s.node_count = total := by
  rw [accepted.total]
  by_cases last : s.cdepth = p.depth + 1
  · exact inv.last last
  · have depth := inv.depth
    have all : ∀ i ∈ Finset.range (nodes p.breadth s.cdepth), kids s i = p.breadth := by
      intro i member
      have early := Finset.mem_range.mp member
      have index := Nat.lt_of_lt_of_le early inv.low
      have level := (inv.level_iff index).mp early
      have exited := (sums.all_added inv root index).1 (by omega)
      have some_kids := sums.bound i index
      rw [added, exited, Pc.added, if_pos (by omega)] at some_kids
      exact Nat.le_antisymm (inv.thread i index).kids_le some_kids
    have count := inv.count_parents
    have high := inv.high (by omega)
    rw [Finset.sum_congr rfl all, Finset.sum_const, Finset.card_range, nsmul_eq_mul, Nat.cast_id,
      ← nodes_children] at count
    omega

end runs

/-- If every sum is added that is complete, the first thread ends with the sum of all indices. -/
theorem sum_of_indices {p : Params} {total : Nat} (accepted : accepts p = some total) (str03 : p.prog = .str03)
    {acts : List Act} {s : State} (along : Along (step p) (AddsFinished p) acts init)
    (ran : run (step p) acts init = some s) (exited : (s.thread 0).pc = .exited) :
    (s.child_info 0).sum = ∑ i ∈ Finset.range total, i := by
  have acc := accepts_some accepted
  rcases run_sums acc str03 along ran with rfl | ⟨inv, sums⟩
  · cases exited
  · have others : ∀ j ∈ Finset.range s.node_count, j ≠ 0 → share p s j = 0 := by
      intro j member later
      rw [share, (sums.all_added inv exited (Finset.mem_range.mp member)).2 later]
      rfl
    have first : share p s 0 = (s.child_info 0).sum := by
      rw [share, live, inv.root]
      rfl
    have total_sum := sums.sum
    rw [Finset.sum_eq_single_of_mem 0 (Finset.mem_range.mpr inv.some_node) others, first,
      sums.complete acc inv exited] at total_sum
    exact total_sum

theorem sum_of_indices_two : ∃ s, run (step ⟨.str03, 1, 1⟩)
    [.start, .next 0, .next 0, .register 0 0, .next 1, .next 0] init = some s ∧
      (s.child_info 0).sum = ∑ i ∈ Finset.range 2, i := by
  have accepted : accepts ⟨.str03, 1, 1⟩ = some 2 := by decide
  have ran : run (step ⟨.str03, 1, 1⟩)
    [.start, .next 0, .next 0, .register 0 0, .next 1, .next 0] init = some _ := rfl
  exact ⟨_, ran, sum_of_indices accepted rfl (by decide) ran rfl⟩

/-- The second child that was created registers first and is still at work when the other one is joined. -/
theorem sum_lost : accepts ⟨.str03, 2, 2⟩ = some 7 ∧ ∃ acts s, run (step ⟨.str03, 2, 2⟩) acts init = some s ∧
    (s.thread 0).pc = .exited ∧ (s.child_info 0).sum ≠ ∑ i ∈ Finset.range 7, i := by
  refine ⟨by decide, [.start, .next 0, .next 0, .next 0, .register 0 1, .register 0 0,
    .next 1, .next 1, .next 1, .next 1, .next 2, .next 2, .next 2,
    .register 2 0, .register 2 1, .register 1 0, .register 1 1,
    .next 3, .next 3, .next 3, .next 3, .next 3, .next 4, .next 4, .next 4, .next 4, .next 4, .next 3,
    .next 2, .next 2, .next 0,
    .next 5, .next 5, .next 5, .next 5, .next 5, .next 6, .next 6, .next 6, .next 6, .next 5,
    .next 1, .next 1, .next 0], _, rfl, rfl, by decide⟩

end ThreadTree
