import Mathlib.Algebra.Order.BigOperators.Group.Finset
import Vte.Base.HeapTree
import Vte.Sched.ThreadTree

/-!
What holds of the tree of threads in every state: each level has registered before the next one is created, the
indices of a level follow those of the levels above, and every thread that has registered is in the list of its
parent.
-/
namespace ThreadTree
open Function HeapTree

section params
variable {b d total : Nat}

theorem int_some {n m : Nat} (fits : int n = some m) : m = n ∧ n < 2147483648 := by
  unfold int at fits
  split_ifs at fits
  exact ⟨(Option.some.inj fits).symm, by assumption⟩

theorem num_nodes_loop {left i : Nat} (summed : numNodesLoop b left (b ^ i) (nodes b (i + 1)) = some total) :
    total = nodes b (i + left + 1) ∧
      ∀ k ≤ left, numNodesLoop b k (b ^ i) (nodes b (i + 1)) = some (nodes b (i + k + 1)) := by
  induction left generalizing i with
  | zero =>
    rw [numNodesLoop] at summed
    refine ⟨(Option.some.inj summed).symm, fun k none_left => ?_⟩
    obtain rfl : k = 0 := by omega
    rfl
  | succ left ih =>
    rw [numNodesLoop] at summed
    obtain ⟨exp, power, rest⟩ := Option.bind_eq_some_iff.mp summed
    obtain ⟨sum, added, rest⟩ := Option.bind_eq_some_iff.mp rest
    obtain ⟨rfl, _⟩ := int_some power
    obtain ⟨rfl, _⟩ := int_some added
    rw [← Nat.pow_succ, ← nodes_succ] at rest
    obtain ⟨value, fewer⟩ := ih rest
    have turns : i + 1 + left = i + (left + 1) := by omega
    refine ⟨turns ▸ value, fun k within => ?_⟩
    cases k with
    | zero => rfl
    | succ k =>
      have levels : i + 1 + k = i + (k + 1) := by omega
      simp only [numNodesLoop, power, added, Option.bind_eq_bind, Option.bind_some]
      rw [← Nat.pow_succ, ← nodes_succ, fewer k (by omega), ← levels]

theorem num_nodes_eq (summed : num_nodes b d = some total) :
    total = nodes b (d + 1) ∧ ∀ k ≤ d, num_nodes b k = some (nodes b (k + 1)) := by
  have start : nodes b 1 = 1 := by simp [nodes]
  have loop : numNodesLoop b d (b ^ 0) (nodes b 1) = some total := by
    rw [start, Nat.pow_zero]
    exact summed
  obtain ⟨value, fewer⟩ := num_nodes_loop loop
  simp only [Nat.zero_add, start, Nat.pow_zero] at value fewer
  exact ⟨value, fewer⟩

structure Accepted (p : Params) (total : Nat) : Prop where
  breadth : 0 < p.breadth
  depth : 0 < p.depth
  total : total = nodes p.breadth (p.depth + 1)
  expected : ∀ k ≤ p.depth, num_nodes p.breadth k = some (nodes p.breadth (k + 1))

theorem accepts_some {p : Params} (accepted : accepts p = some total) : Accepted p total := by
  unfold accepts at accepted
  split at accepted
  · cases accepted
  · rename_i positive
    obtain ⟨n, summed, accepted⟩ := Option.bind_eq_some_iff.mp accepted
    split at accepted
    · cases accepted
    · obtain rfl := Option.some.inj accepted
      obtain ⟨value, expected⟩ := num_nodes_eq summed
      exact ⟨by omega, by omega, value, expected⟩

end params

section invariant
variable (p : Params)

def Pc.Fits (cdepth level : Nat) : Pc → Prop
  | .waiting => level = cdepth
  | .woken | .ready => level + 1 = cdepth
  | .creating child => level + 1 = cdepth ∧ level < p.depth ∧ child < p.breadth
  | .joining child => level + 1 ≤ cdepth ∧ level < p.depth ∧ child < p.breadth
  | .talking child => level = p.depth ∧ cdepth = p.depth + 1 ∧ child < p.breadth ∧ 1 < p.breadth
  | .checking | .talkWaiting | .talkWoken => level = p.depth ∧ cdepth = p.depth + 1 ∧ 1 < p.breadth
  | .exited => level + 1 ≤ cdepth

def Pc.made (level : Nat) : Pc → Nat
  | .creating child => child
  | .joining _ => p.breadth
  | .exited => if level < p.depth then p.breadth else 0
  | _ => 0

variable (s : State)

def kids (i : Nat) : Nat := (s.child_info i).child_ptrs.length

structure ThreadInv (i : Nat) : Prop where
  low : nodes p.breadth (s.thread i).level ≤ i
  high : i < nodes p.breadth ((s.thread i).level + 1)
  fits : (s.thread i).pc.Fits p s.cdepth (s.thread i).level
  made : (s.child_info i).threads.length = (s.thread i).pc.made p (s.thread i).level
  ptrs : (s.child_info i).child_ptrs.Perm ((s.child_info i).threads.filterMap id)
  child : ∀ j ∈ (s.child_info i).child_ptrs, j < s.node_count ∧ (s.thread j).parent = some i ∧
    (s.thread j).level = (s.thread i).level + 1
  nodup : (s.child_info i).child_ptrs.Nodup
  parent : i ≠ 0 → ∃ q < s.node_count, (s.thread i).parent = some q ∧ i ∈ (s.child_info q).child_ptrs
  full : (s.thread i).level + 1 < s.cdepth → kids s i = p.breadth

structure Inv : Prop where
  started : 1 ≤ s.cdepth
  depth : s.cdepth ≤ p.depth + 1
  low : nodes p.breadth s.cdepth ≤ s.node_count
  high : s.cdepth ≤ p.depth → s.node_count < nodes p.breadth (s.cdepth + 1)
  last : s.cdepth = p.depth + 1 → s.node_count = nodes p.breadth (p.depth + 1)
  root : (s.thread 0).parent = none
  thread : ∀ i < s.node_count, ThreadInv p s i
  count : ∑ i ∈ Finset.range s.node_count, kids s i + 1 = s.node_count
  fresh : ∀ i, s.node_count ≤ i → s.child_info i = ⟨[], [], 0, 0⟩

end invariant

section goTo
variable (s : State) (i j : Nat) (pc : Pc)

@[simp] theorem go_to_node_count : (s.goTo i pc).node_count = s.node_count := rfl

@[simp] theorem go_to_cdepth : (s.goTo i pc).cdepth = s.cdepth := rfl

@[simp] theorem go_to_child_info : (s.goTo i pc).child_info = s.child_info := rfl

@[simp] theorem go_to_parent : ((s.goTo i pc).thread j).parent = (s.thread j).parent := by
  by_cases same : j = i <;> simp [State.goTo, same]

@[simp] theorem go_to_level : ((s.goTo i pc).thread j).level = (s.thread j).level := by
  by_cases same : j = i <;> simp [State.goTo, same]

@[simp] theorem go_to_pc : ((s.goTo i pc).thread i).pc = pc := by simp [State.goTo]

theorem go_to_other {i j : Nat} (other : j ≠ i) : (s.goTo i pc).thread j = s.thread j := by
  simp [State.goTo, other]

end goTo

section counting
variable {p : Params} {s : State} {i : Nat}

theorem Pc.made_zero {cdepth level : Nat} {pc : Pc} (fits : pc.Fits p cdepth level)
    (late : cdepth ≤ level) : pc.made p level = 0 := by
  cases pc with
  | creating child | joining child | exited =>
    simp only [Pc.Fits] at fits
    omega
  | _ => rfl

theorem Pc.made_le (pc : Pc) {cdepth level : Nat} (fits : pc.Fits p cdepth level) :
    pc.made p level ≤ p.breadth := by
  cases pc with
  | creating child =>
    obtain ⟨_, _, small⟩ := fits
    exact Nat.le_of_lt small
  | joining child => exact Nat.le_refl _
  | exited =>
    rw [Pc.made]
    split <;> omega
  | _ => exact Nat.zero_le _

theorem ThreadInv.kids_le_threads (inv : ThreadInv p s i) : kids s i ≤ (s.child_info i).threads.length := by
  rw [kids, inv.ptrs.length_eq]
  exact List.length_filterMap_le id _

theorem ThreadInv.kids_le (inv : ThreadInv p s i) : kids s i ≤ p.breadth := by
  have created := inv.kids_le_threads
  rw [inv.made] at created
  exact Nat.le_trans created ((s.thread i).pc.made_le inv.fits)

theorem level_lt {b level level' : Nat} (low : nodes b level ≤ i) (high : i < nodes b level') : level < level' := by
  by_contra deep
  have mono := nodes_mono b (show level' ≤ level by omega)
  omega

theorem Inv.level_le (inv : Inv p s) (index : i < s.node_count) : (s.thread i).level ≤ s.cdepth := by
  have low := (inv.thread i index).low
  by_cases last : s.cdepth ≤ p.depth
  · exact Nat.lt_succ_iff.mp (level_lt low (Nat.lt_trans index (inv.high last)))
  · have done : s.cdepth = p.depth + 1 := by
      have depth := inv.depth
      omega
    rw [inv.last done, ← done] at index
    exact Nat.le_of_lt (level_lt low index)

theorem Inv.level_iff (inv : Inv p s) (index : i < s.node_count) :
    i < nodes p.breadth s.cdepth ↔ (s.thread i).level < s.cdepth := by
  constructor
  · exact level_lt (inv.thread i index).low
  · intro early
    exact Nat.lt_of_lt_of_le (inv.thread i index).high (nodes_mono _ early)

theorem Inv.no_kids (inv : Inv p s) (index : i < s.node_count) (late : nodes p.breadth s.cdepth ≤ i) :
    kids s i = 0 := by
  have here := inv.thread i index
  have level : s.cdepth ≤ (s.thread i).level := by
    by_contra early
    have small := (inv.level_iff index).mpr (by omega)
    omega
  have created := here.kids_le_threads
  rw [here.made, Pc.made_zero here.fits level] at created
  exact Nat.le_zero.mp created

theorem Inv.count_parents (inv : Inv p s) :
    ∑ i ∈ Finset.range (nodes p.breadth s.cdepth), kids s i + 1 = s.node_count := by
  have rest : ∑ i ∈ Finset.range (nodes p.breadth s.cdepth), kids s i = ∑ i ∈ Finset.range s.node_count, kids s i := by
    apply Finset.sum_subset (Finset.range_subset_range.mpr inv.low)
    intro i index late
    rw [Finset.mem_range] at index late
    exact inv.no_kids index (by omega)
  rw [rest]
  exact inv.count

end counting

section steps
variable {p : Params} {s t : State} {total : Nat}

theorem start_inv (accepted : Accepted p total) (started : start init = some t) : Inv p t := by
  obtain rfl := Option.some.inj started
  have two : nodes p.breadth 1 = 1 := by simp [nodes]
  have three : nodes p.breadth 2 = p.breadth + 1 := by rw [nodes_children, two, Nat.one_mul]
  have positive := accepted.breadth
  have deep := accepted.depth
  constructor
  · exact Nat.le_refl 1
  · simp only
    omega
  · exact Nat.le_of_eq two
  · intro _
    simp only [Nat.reduceAdd, three]
    omega
  · intro last
    simp only at last
    omega
  · rfl
  · intro i index
    obtain rfl : i = 0 := by
      simp only at index
      omega
    constructor
    · exact Nat.le_refl 0
    · simp [two]
    · simp [Pc.Fits]
    · simp [init, Pc.made]
    · simp [init]
    · simp [init]
    · simp [init]
    · simp
    · simp
  · simp [kids, init]
  · intro i _
    rfl

theorem Inv.keep (inv : Inv p s) (count : t.node_count = s.node_count) (cdepth : t.cdepth = s.cdepth)
    (parents : ∀ j, (t.thread j).parent = (s.thread j).parent)
    (levels : ∀ j, (t.thread j).level = (s.thread j).level)
    (ptrs : ∀ j, (t.child_info j).child_ptrs = (s.child_info j).child_ptrs)
    (slots : ∀ j, (t.child_info j).threads.filterMap id = (s.child_info j).threads.filterMap id)
    (places : ∀ j < s.node_count, (t.thread j).pc.Fits p s.cdepth (s.thread j).level ∧
      (t.child_info j).threads.length = (t.thread j).pc.made p (s.thread j).level)
    (fresh : ∀ j, s.node_count ≤ j → t.child_info j = s.child_info j) : Inv p t := by
  have same : ∀ j, kids t j = kids s j := fun j => by rw [kids, kids, ptrs]
  constructor
  · rw [cdepth]
    exact inv.started
  · rw [cdepth]
    exact inv.depth
  · rw [cdepth, count]
    exact inv.low
  · rw [cdepth, count]
    exact inv.high
  · rw [cdepth, count]
    exact inv.last
  · rw [parents]
    exact inv.root
  · intro i index
    rw [count] at index
    have here := inv.thread i index
    obtain ⟨fits, made⟩ := places i index
    constructor
    · rw [levels]
      exact here.low
    · rw [levels]
      exact here.high
    · rw [levels, cdepth]
      exact fits
    · rw [levels]
      exact made
    · rw [ptrs, slots]
      exact here.ptrs
    · simp only [ptrs, count, parents, levels]
      exact here.child
    · rw [ptrs]
      exact here.nodup
    · simp only [parents, ptrs, count]
      exact here.parent
    · rw [levels, cdepth, same]
      exact here.full
  · simp only [count, same]
    exact inv.count
  · intro j late
    rw [count] at late
    rw [fresh j late]
    exact inv.fresh j late

variable {i : Nat}

theorem Inv.go_to (inv : Inv p s) {pc : Pc} (fits : pc.Fits p s.cdepth (s.thread i).level)
    (made : pc.made p (s.thread i).level = (s.thread i).pc.made p (s.thread i).level) : Inv p (s.goTo i pc) := by
  apply inv.keep <;> simp only [go_to_node_count, go_to_cdepth, go_to_parent, go_to_level, go_to_child_info,
    implies_true]
  intro j index
  have there := inv.thread j index
  by_cases same : j = i
  · subst same
    rw [go_to_pc, there.made]
    exact ⟨fits, made.symm⟩
  · rw [go_to_other s pc same]
    exact ⟨there.fits, there.made⟩

theorem Inv.set_info (inv : Inv p s) (index : i < s.node_count) (info : Info)
    (threads : info.threads = (s.child_info i).threads)
    (ptrs : info.child_ptrs = (s.child_info i).child_ptrs) :
    Inv p { s with child_info := update s.child_info i info } := by
  have all : ∀ j, (update s.child_info i info j).threads = (s.child_info j).threads ∧
      (update s.child_info i info j).child_ptrs = (s.child_info j).child_ptrs := by
    intro j
    by_cases same : j = i
    · subst same
      rw [update_self]
      exact ⟨threads, ptrs⟩
    · rw [update_of_ne same]
      exact ⟨rfl, rfl⟩
  apply inv.keep <;> try exact fun _ => rfl
  · rfl
  · rfl
  · exact fun j => (all j).2
  · exact fun j => congrArg _ (all j).1
  · intro j known
    have there := inv.thread j known
    exact ⟨there.fits, (congrArg _ (all j).1).trans there.made⟩
  · intro j late
    exact update_of_ne (by omega) _ _

theorem create_inv (inv : Inv p s) {child : Nat} (index : i < s.node_count)
    (place : (s.thread i).pc = .creating child) : Inv p (create p s i child) := by
  have here := inv.thread i index
  have fits := here.fits
  have made := here.made
  rw [place] at fits made
  obtain ⟨level, inner, small⟩ := fits
  apply inv.keep <;> simp only [create, go_to_node_count, go_to_cdepth, go_to_parent, go_to_level,
    go_to_child_info, implies_true]
  · intro j
    by_cases same : j = i <;> simp [same]
  · intro j
    by_cases same : j = i <;> simp [same]
  · intro j known
    by_cases same : j = i
    · subst same
      rw [go_to_pc, update_self, List.length_append, made]
      by_cases more : child + 1 < p.breadth
      · rw [if_pos more]
        exact ⟨⟨level, inner, more⟩, rfl⟩
      · rw [if_neg more]
        have all : child + 1 = p.breadth := by omega
        exact ⟨⟨Nat.le_of_eq level, inner, Nat.zero_lt_of_lt small⟩, all⟩
    · have there := inv.thread j known
      rw [go_to_other _ _ same, update_of_ne same]
      exact ⟨there.fits, there.made⟩
  · intro j late
    exact update_of_ne (by omega) _ _

theorem heart_inv (accepted : Accepted p total) (inv : Inv p s) (index : i < s.node_count)
    (place : (s.thread i).pc = .ready) : Inv p (heart p s i) := by
  have fits := (inv.thread i index).fits
  rw [place, Pc.Fits] at fits
  have none_made : (s.thread i).pc.made p (s.thread i).level = 0 := by rw [place]; rfl
  have depth := inv.depth
  unfold heart
  split_ifs with inner talks
  · exact inv.go_to ⟨fits, by omega, accepted.breadth⟩ none_made.symm
  · exact inv.go_to ⟨by omega, by omega, Nat.zero_lt_of_lt talks, talks⟩ none_made.symm
  · have leaf : ¬ (s.thread i).level < p.depth := by omega
    exact inv.go_to (Nat.le_of_eq fits) (by simp [place, Pc.made, leaf])

theorem join_inv (inv : Inv p s) {child : Nat} (index : i < s.node_count)
    (place : (s.thread i).pc = .joining child) (joined : join p s i child = some t) : Inv p t := by
  have fits := (inv.thread i index).fits
  rw [place] at fits
  obtain ⟨level, inner, small⟩ := fits
  obtain ⟨slot, _, joined⟩ := Option.bind_eq_some_iff.mp joined
  obtain ⟨j, _, joined⟩ := Option.bind_eq_some_iff.mp joined
  split at joined
  swap
  · cases joined
  obtain ⟨u, added, joined⟩ := Option.bind_eq_some_iff.mp joined
  obtain rfl := Option.some.inj joined
  have between : Inv p u ∧ u.cdepth = s.cdepth ∧ u.thread = s.thread := by
    unfold addSum at added
    split at added
    · obtain ⟨ptr, _, added⟩ := Option.bind_eq_some_iff.mp added
      obtain rfl := Option.some.inj added
      exact ⟨inv.set_info index _ rfl rfl, rfl, rfl⟩
    · obtain rfl := Option.some.inj added
      exact ⟨inv, rfl, rfl⟩
  obtain ⟨inv', cdepth, thread⟩ := between
  apply inv'.go_to
  · rw [cdepth, thread]
    split_ifs with more
    · exact ⟨level, inner, more⟩
    · exact level
  · rw [thread, place]
    split_ifs
    · rfl
    · simp [Pc.made, inner]

theorem check_inv (inv : Inv p s) (index : i < s.node_count) (place : (s.thread i).pc = .checking) :
    Inv p (check p s i) := by
  have fits := (inv.thread i index).fits
  rw [place] at fits
  have leaf := fits.1
  have complete := fits.2.1
  unfold check
  split_ifs
  · exact inv.go_to fits (by rw [place]; rfl)
  · have reached : (s.thread i).level + 1 ≤ s.cdepth := by omega
    exact inv.go_to reached (by simp [place, Pc.made, leaf])

theorem contact_inv (inv : Inv p s) {sibling : Nat} (index : sibling < s.node_count) :
    Inv p (contact p s sibling) := by
  have counted := inv.set_info index
    { s.child_info sibling with talk_count := (s.child_info sibling).talk_count + 1 } rfl rfl
  unfold contact
  dsimp only
  split_ifs with wakes
  · have fits := (inv.thread sibling index).fits
    rw [wakes.2] at fits
    refine counted.go_to fits ?_
    simp only [wakes.2]
    rfl
  · exact counted

theorem contact_frame (p : Params) (s : State) (sibling : Nat) :
    (contact p s sibling).node_count = s.node_count ∧ (contact p s sibling).cdepth = s.cdepth ∧
      ∀ j, ((contact p s sibling).thread j).parent = (s.thread j).parent ∧
        ((contact p s sibling).thread j).level = (s.thread j).level ∧
          (j ≠ sibling → (contact p s sibling).thread j = s.thread j) := by
  unfold contact
  dsimp only
  split_ifs
  · refine ⟨rfl, rfl, fun j => ⟨?_, ?_, fun other => ?_⟩⟩
    · rw [go_to_parent]
    · rw [go_to_level]
    · rw [go_to_other _ _ other]
  · exact ⟨rfl, rfl, fun _ => ⟨rfl, rfl, fun _ => rfl⟩⟩

theorem Inv.parent_lt (inv : Inv p s) {parent : Nat} (index : i < s.node_count)
    (up : (s.thread i).parent = some parent) :
    parent < s.node_count ∧ i ∈ (s.child_info parent).child_ptrs := by
  by_cases root : i = 0
  · rw [root, inv.root] at up
    cases up
  · obtain ⟨q, known, same, member⟩ := (inv.thread i index).parent root
    rw [up] at same
    obtain rfl := Option.some.inj same
    exact ⟨known, member⟩

theorem talk_inv (inv : Inv p s) {child : Nat} (index : i < s.node_count)
    (place : (s.thread i).pc = .talking child) (talked : talk p s i child = some t) : Inv p t := by
  have fits := (inv.thread i index).fits
  rw [place] at fits
  obtain ⟨leaf, complete, small, talks⟩ := fits
  obtain ⟨parent, up, talked⟩ := Option.bind_eq_some_iff.mp talked
  obtain ⟨sibling, listed, talked⟩ := Option.bind_eq_some_iff.mp talked
  obtain rfl := Option.some.inj talked
  obtain ⟨known, _⟩ := inv.parent_lt index up
  have sibling_index := ((inv.thread parent known).child sibling (List.mem_of_getElem? listed)).1
  have between : ∀ u, u = (if sibling ≠ i then contact p s sibling else s) →
      Inv p u ∧ u.cdepth = s.cdepth ∧ u.thread i = s.thread i := by
    rintro u rfl
    split_ifs with other
    · obtain ⟨_, cdepth, thread⟩ := contact_frame p s sibling
      exact ⟨contact_inv inv sibling_index, cdepth, (thread i).2.2 (Ne.symm other)⟩
    · exact ⟨inv, rfl, rfl⟩
  obtain ⟨inv', cdepth, thread⟩ := between _ rfl
  refine inv'.go_to ?_ ?_
  · rw [cdepth, thread]
    split_ifs with more
    · exact ⟨leaf, complete, more, talks⟩
    · exact ⟨leaf, complete, talks⟩
  · rw [thread, place]
    split_ifs <;> rfl

end steps

end ThreadTree
