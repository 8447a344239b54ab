import Vte.Sched.ThreadTreeTalk

/-!
Runs of the tree of threads: whatever the order of the steps, a level begins when the one above is complete,
and there is a next step until all threads have exited.
-/
namespace ThreadTree
open Function HeapTree Machine

section invariant
variable {p : Params} {s t : State} {total i : Nat}

structure TreeInv (p : Params) (s : State) : Prop where
  tree : Inv p s
  talk : 1 < p.breadth → TalkInv p s

theorem doit_talk (several : 1 < p.breadth) (inv : Inv p s) (talk : TalkInv p s) (index : i < s.node_count)
    (taken : doit p s i = some t) : TalkInv p t := by
  have fits := (inv.thread i index).fits
  unfold doit at taken
  cases place : (s.thread i).pc with
  | waiting | talkWaiting | exited =>
    rw [place] at taken
    cases taken
  | woken =>
    rw [place] at taken
    obtain rfl := Option.some.inj taken
    exact talk.go_to inv (by rw [place]; intro _; rfl) (by intro waits; cases waits)
  | ready =>
    rw [place] at taken
    obtain rfl := Option.some.inj taken
    exact heart_talk inv talk several index place
  | creating child =>
    rw [place] at taken
    obtain rfl := Option.some.inj taken
    exact create_talk inv talk index place
  | joining child =>
    rw [place] at taken
    exact join_talk inv talk index place taken
  | talking child =>
    rw [place] at taken fits
    obtain ⟨parent, sibling, talks⟩ := talk_cases fits.2.2.1 taken
    exact talks.talk inv talk index (by rw [place]; rfl)
  | checking =>
    rw [place] at taken
    obtain rfl := Option.some.inj taken
    exact check_talk inv talk place
  | talkWoken =>
    rw [place] at taken
    obtain rfl := Option.some.inj taken
    exact talk.go_to inv (by rw [place]; intro _; rfl) (by intro waits; cases waits)

theorem synchronize_children_talk {parent child : Nat} (accepted : Accepted p total) (inv : Inv p s)
    (talk : TalkInv p s) (registers : synchronize_children p s parent child = some t) : TalkInv p t := by
  obtain ⟨reg, ⟨_, _, new, old⟩ | ⟨_, _, new, old⟩⟩ := synchronize_children_cases accepted inv registers
  · refine reg.talk inv talk (by rw [new]; rfl) (by rw [new]; intro waits; cases waits) ?_ ?_
    · intro i index
      rw [old i index]
    · intro i index waits
      rw [old i index] at waits
      exact waits
  · refine reg.talk inv talk (by rw [new]; rfl) (by rw [new]; intro waits; cases waits) ?_ ?_
    · intro i index
      rw [old i index, Pc.progress_wake]
    · intro i index waits
      rw [old i index, Pc.wake] at waits
      split at waits
      · cases waits
      · exact waits

theorem step_tree (accepted : Accepted p total) {act : Act} (inv : TreeInv p s)
    (taken : step p act s = some t) : TreeInv p t := by
  refine ⟨step_inv accepted inv.tree taken, fun several => ?_⟩
  cases act with
  | start =>
    have known := inv.tree.some_node
    rw [step, start, if_neg (by omega)] at taken
    cases taken
  | register parent child =>
    exact synchronize_children_talk accepted inv.tree (inv.talk several) taken
  | next i =>
    rw [step] at taken
    split at taken
    · rename_i index
      exact doit_talk several inv.tree (inv.talk several) index taken
    · cases taken

theorem run_tree (accepted : Accepted p total) {acts : List Act} (ran : run (step p) acts init = some s) :
    s = init ∨ TreeInv p s := by
  have preserves : ∀ act s t, (s = init ∨ TreeInv p s) → step p act s = some t → (t = init ∨ TreeInv p t) := by
    rintro act s t (rfl | inv) taken
    · cases act with
      | start => exact .inr ⟨start_inv accepted taken, fun _ => start_talk taken⟩
      | register parent child => simp [step, synchronize_children, init] at taken
      | next i => simp [step, init] at taken
    · exact .inr (step_tree accepted inv taken)
  exact run_invariant preserves (.inl rfl) ran

end invariant

section stuck
variable {p : Params} {s : State} {total i : Nat}

def Stuck (p : Params) (s : State) : Prop := ∀ act, step p act s = none

theorem Stuck.doit (stuck : Stuck p s) (index : i < s.node_count) : doit p s i = none := by
  have none := stuck (.next i)
  rw [step, if_pos index] at none
  exact none

theorem Stuck.no_slot (stuck : Stuck p s) (accepted : Accepted p total) (inv : Inv p s) {child : Nat}
    (index : i < s.node_count) : (s.child_info i).threads[child]? ≠ some none := by
  intro slot
  obtain ⟨level, inner⟩ := inv.register_level index slot
  have none := stuck (.register i child)
  rw [step, synchronize_children, if_pos ⟨index, slot⟩, accepted.expected s.cdepth (by omega)] at none
  simp only [Option.bind_eq_bind, Option.bind_some] at none
  split at none <;> cases none

theorem Stuck.kids_eq (stuck : Stuck p s) (accepted : Accepted p total) (inv : Inv p s)
    (index : i < s.node_count) : kids s i = (s.thread i).pc.made p (s.thread i).level := by
  have here := inv.thread i index
  rw [← here.made]
  by_contra fewer
  have most := here.kids_le_threads
  have missing : kids s i < (s.child_info i).threads.length := by omega
  rw [kids, here.ptrs.length_eq] at missing
  obtain ⟨slot, member, empty⟩ := List.length_filterMap_lt_length_iff_exists.mp missing
  obtain ⟨child, found⟩ := List.getElem?_of_mem member
  rw [id] at empty
  rw [empty] at found
  exact stuck.no_slot accepted inv index found

theorem Stuck.complete (stuck : Stuck p s) (accepted : Accepted p total) (inv : Inv p s) :
    s.cdepth = p.depth + 1 := by
  by_contra growing
  have depth := inv.depth
  have all : ∀ i ∈ Finset.range (nodes p.breadth s.cdepth), kids s i = p.breadth := by
    intro i member
    have early := Finset.mem_range.mp member
    have index := Nat.lt_of_lt_of_le early inv.low
    have level := (inv.level_iff index).mp early
    have fits := (inv.thread i index).fits
    have no_step := stuck.doit index
    rw [stuck.kids_eq accepted inv index]
    unfold ThreadTree.doit at no_step
    cases place : (s.thread i).pc with
    | waiting =>
      rw [place] at fits
      exact absurd fits (Nat.ne_of_lt level)
    | woken | ready | creating child =>
      rw [place] at no_step
      cases no_step
    | joining child => rfl
    | talking child | checking | talkWaiting | talkWoken =>
      rw [place] at fits
      have last := fits.2.1
      omega
    | exited =>
      rw [Pc.made, if_pos (by omega)]
  have sum := Finset.sum_congr rfl all
  have count := inv.count_parents
  have high := inv.high (by omega)
  rw [sum, Finset.sum_const, Finset.card_range, nsmul_eq_mul, Nat.cast_id, ← nodes_children] at count
  omega

theorem Stuck.level_le (stuck : Stuck p s) (accepted : Accepted p total) (inv : Inv p s)
    (index : i < s.node_count) : (s.thread i).level ≤ p.depth := by
  have low := (inv.thread i index).low
  rw [inv.last (stuck.complete accepted inv)] at index
  exact Nat.lt_succ_iff.mp (level_lt low index)

theorem Inv.leaf_siblings (inv : Inv p s) (complete : s.cdepth = p.depth + 1) {q : Nat} (index : i < s.node_count)
    (leaf : (s.thread i).level = p.depth) (up : (s.thread i).parent = some q) :
    (s.child_info q).child_ptrs.length = p.breadth := by
  obtain ⟨known, member⟩ := inv.parent_lt index up
  have level := ((inv.thread q known).child i member).2.2
  exact (inv.thread q known).full (by omega)

theorem Inv.has_parent (inv : Inv p s) (index : i < s.node_count) (deep : 0 < (s.thread i).level) :
    ∃ q, (s.thread i).parent = some q := by
  have low := (inv.thread i index).low
  have mono : nodes p.breadth 1 ≤ nodes p.breadth (s.thread i).level := nodes_mono _ deep
  have positive : 0 < nodes p.breadth 1 := nodes_pos p.breadth 0
  obtain ⟨q, _, up, _⟩ := (inv.thread i index).parent (by omega)
  exact ⟨q, up⟩

theorem Stuck.place (stuck : Stuck p s) (accepted : Accepted p total) (inv : Inv p s)
    (index : i < s.node_count) :
    (∃ child, (s.thread i).pc = .joining child) ∨ (s.thread i).pc = .talkWaiting ∨ (s.thread i).pc = .exited := by
  have complete := stuck.complete accepted inv
  have fits := (inv.thread i index).fits
  have no_step := stuck.doit index
  unfold ThreadTree.doit at no_step
  cases place : (s.thread i).pc with
  | joining child => exact .inl ⟨child, rfl⟩
  | talkWaiting => exact .inr (.inl rfl)
  | exited => exact .inr (.inr rfl)
  | waiting =>
    rw [place] at fits
    have level := stuck.level_le accepted inv index
    simp only [Pc.Fits] at fits
    omega
  | woken | ready | creating child | checking | talkWoken =>
    rw [place] at no_step
    cases no_step
  | talking child =>
    rw [place] at no_step fits
    obtain ⟨leaf, _, small, _⟩ := fits
    have deep := accepted.depth
    obtain ⟨q, up⟩ := inv.has_parent index (by omega)
    have siblings := inv.leaf_siblings complete index leaf up
    have listed := List.getElem?_eq_getElem (l := (s.child_info q).child_ptrs) (i := child) (by omega)
    simp [talk, up, listed] at no_step

theorem count_others {l : List Nat} (nodup : l.Nodup) (member : i ∈ l) :
    l.countP (fun j => j ≠ i) + 1 = l.length := by
  have single := List.count_eq_one_of_mem nodup member
  have split := List.length_eq_countP_add_countP (fun j => decide (j ≠ i)) (l := l)
  have rest : l.countP (fun j => ¬ decide (j ≠ i) = true) = l.count i := by
    rw [List.count]
    exact List.countP_congr fun j _ => by simp
  omega

theorem Stuck.no_wait (stuck : Stuck p s) (accepted : Accepted p total) (inv : TreeInv p s)
    (index : i < s.node_count) : (s.thread i).pc ≠ .talkWaiting := by
  intro place
  have complete := stuck.complete accepted inv.tree
  have fits := (inv.tree.thread i index).fits
  rw [place] at fits
  obtain ⟨leaf, _, several⟩ := fits
  have talk := inv.talk several
  have deep := accepted.depth
  obtain ⟨q, up⟩ := inv.tree.has_parent index (by omega)
  obtain ⟨known, member⟩ := inv.tree.parent_lt index up
  have siblings := inv.tree.leaf_siblings complete index leaf up
  have few := talk.waits i index place
  have others := count_others (inv.tree.thread q known).nodup member
  have all : contacts p s q i = (s.child_info q).child_ptrs.countP fun j => j ≠ i := by
    rw [contacts]
    apply List.countP_congr
    intro j sibling
    obtain ⟨small, _, level⟩ := (inv.tree.thread q known).child j sibling
    have own_level := ((inv.tree.thread q known).child i member).2.2
    have through : (s.thread j).pc.progress p = p.breadth := by
      have fits := (inv.tree.thread j small).fits
      rcases stuck.place accepted inv.tree small with ⟨child, joins⟩ | waits | exits
      · rw [joins] at fits
        have inner := fits.2.1
        omega
      · rw [waits]
        rfl
      · rw [exits]
        rfl
    have inside := List.idxOf_lt_length_of_mem member
    rw [siblings] at inside
    simp [through, inside]
  rw [talk.count i index leaf q up, all] at few
  omega

theorem Stuck.exited (stuck : Stuck p s) (accepted : Accepted p total) (inv : TreeInv p s)
    (index : i < s.node_count) : (s.thread i).pc = .exited := by
  -- from the leaves up
  induction rank : p.depth - (s.thread i).level using Nat.strong_induction_on generalizing i with
  | _ rank' ih =>
    rcases stuck.place accepted inv.tree index with ⟨child, joins⟩ | waits | exits
    · have here := inv.tree.thread i index
      have fits := here.fits
      have made := here.made
      have no_step := stuck.doit index
      rw [joins] at fits made
      obtain ⟨_, inner, small⟩ := fits
      have all := stuck.kids_eq accepted inv.tree index
      rw [joins, kids] at all
      simp only [Pc.made] at all made
      obtain ⟨slot, found⟩ : ∃ slot, (s.child_info i).threads[child]? = some slot :=
        ⟨_, List.getElem?_eq_getElem (by omega)⟩
      obtain ⟨ptr, listed⟩ : ∃ ptr, (s.child_info i).child_ptrs[child]? = some ptr :=
        ⟨_, List.getElem?_eq_getElem (by omega)⟩
      cases slot with
      | none => exact absurd found (stuck.no_slot accepted inv.tree index)
      | some j =>
        have member : j ∈ (s.child_info i).child_ptrs :=
          here.ptrs.mem_iff.mpr (List.mem_filterMap.mpr ⟨some j, List.mem_of_getElem? found, rfl⟩)
        obtain ⟨known, _, level⟩ := here.child j member
        have exits := ih _ (by omega) known rfl
        unfold ThreadTree.doit at no_step
        rw [joins] at no_step
        simp only [join, found, Option.bind_eq_bind, Option.bind_some, exits, if_true, addSum, listed] at no_step
        split at no_step <;> cases no_step
    · exact absurd waits (stuck.no_wait accepted inv index)
    · exact exits

end stuck

section disciplined
variable {p : Params} {s : State} {total : Nat}

def onLevel (s : State) (level : Nat) : Nat :=
  ((Finset.range s.node_count).filter fun i => (s.thread i).level = level).card

def existing (s : State) : Nat := ∑ i ∈ Finset.range s.node_count, (s.child_info i).threads.length + 1

/-- What is to hold in every state: nobody creates a thread before its level is complete, the indices are
distinct, all arrays have room, `cdepth` tells the level to whoever reads it, and there is a next step or all
threads have been there and exited. -/
structure Disciplined (p : Params) (total : Nat) (s : State) : Prop where
  creates : ∀ i < s.node_count, ∀ child, (s.thread i).pc = .creating child →
    onLevel s (s.thread i).level = p.breadth ^ (s.thread i).level
  distinct : ∀ i < s.node_count, ∀ i' < s.node_count, ∀ child child' j : Nat,
    (s.child_info i).threads[child]? = some (some j) → (s.child_info i').threads[child']? = some (some j) →
      i = i' ∧ child = child' ∧ j ≠ 0
  nodes : s.node_count ≤ total
  arrays : ∀ i < s.node_count, (s.child_info i).threads.length ≤ p.breadth ∧
    (s.child_info i).child_ptrs.length ≤ p.breadth
  threads : existing s ≤ total
  decides : ∀ i < s.node_count, (s.thread i).pc = .ready → s.cdepth = (s.thread i).level + 1
  goes_on : (∃ act t, step p act s = some t) ∨
    (∀ i < s.node_count, (s.thread i).pc = .exited) ∧ s.node_count = total ∧ existing s = total

theorem Inv.on_level (inv : Inv p s) {level : Nat} (complete : nodes p.breadth (level + 1) ≤ s.node_count) :
    onLevel s level = p.breadth ^ level := by
  have members : ((Finset.range s.node_count).filter fun i => (s.thread i).level = level) =
      Finset.Ico (nodes p.breadth level) (nodes p.breadth (level + 1)) := by
    ext i
    rw [Finset.mem_filter, Finset.mem_range, Finset.mem_Ico]
    constructor
    · rintro ⟨known, rfl⟩
      have here := inv.thread i known
      exact ⟨here.low, here.high⟩
    · rintro ⟨low, high⟩
      have known : i < s.node_count := by omega
      have here := inv.thread i known
      have below := level_lt here.low high
      have above := level_lt low here.high
      exact ⟨known, by omega⟩
  rw [onLevel, members, Nat.card_Ico, nodes_succ]
  omega

theorem filter_map_slot {l : List (Option Nat)} (nodup : (l.filterMap id).Nodup) {k k' j : Nat}
    (slot : l[k]? = some (some j)) (slot' : l[k']? = some (some j)) : k = k' := by
  induction l generalizing k k' with
  | nil => cases slot
  | cons a l ih =>
    have later : ∀ m : Nat, l[m]? = some (some j) → j ∈ l.filterMap id := fun m found =>
      List.mem_filterMap.mpr ⟨some j, List.mem_of_getElem? found, rfl⟩
    cases a with
    | none =>
      cases k with
      | zero => cases slot
      | succ k =>
        cases k' with
        | zero => cases slot'
        | succ k' => exact congrArg Nat.succ (ih nodup slot slot')
    | some first =>
      obtain ⟨new, rest⟩ := List.nodup_cons.mp nodup
      cases k with
      | zero =>
        obtain rfl := Option.some.inj (Option.some.inj slot)
        cases k' with
        | zero => rfl
        | succ k' => exact absurd (later k' slot') new
      | succ k =>
        cases k' with
        | zero =>
          obtain rfl := Option.some.inj (Option.some.inj slot')
          exact absurd (later k slot) new
        | succ k' => exact congrArg Nat.succ (ih rest slot slot')

theorem Inv.slots_distinct (inv : Inv p s) {i i' child child' j : Nat} (index : i < s.node_count)
    (index' : i' < s.node_count) (slot : (s.child_info i).threads[child]? = some (some j))
    (slot' : (s.child_info i').threads[child']? = some (some j)) : i = i' ∧ child = child' ∧ j ≠ 0 := by
  have here := inv.thread i index
  have member : ∀ q, q < s.node_count → ∀ k : Nat, (s.child_info q).threads[k]? = some (some j) →
      j ∈ (s.child_info q).child_ptrs := fun q known k found =>
    (inv.thread q known).ptrs.mem_iff.mpr
      (List.mem_filterMap.mpr ⟨some j, List.mem_of_getElem? found, rfl⟩)
  have up := (here.child j (member i index child slot)).2.1
  have up' := ((inv.thread i' index').child j (member i' index' child' slot')).2.1
  obtain rfl : i = i' := Option.some.inj (up.symm.trans up')
  refine ⟨rfl, filter_map_slot (here.ptrs.nodup_iff.mp here.nodup) slot slot', ?_⟩
  rintro rfl
  rw [inv.root] at up
  cases up

theorem existing_le (inv : Inv p s) : existing s ≤ nodes p.breadth (p.depth + 1) := by
  have each : ∀ i ∈ Finset.range s.node_count, (s.child_info i).threads.length ≤
      if i < nodes p.breadth p.depth then p.breadth else 0 := by
    intro i member
    have here := inv.thread i (Finset.mem_range.mp member)
    rw [here.made]
    split_ifs with inner
    · exact (s.thread i).pc.made_le here.fits
    · by_contra some_made
      have level := (Pc.made_pos here.fits (by omega)).2
      have mono : nodes p.breadth ((s.thread i).level + 1) ≤ nodes p.breadth p.depth := nodes_mono _ level
      have high := here.high
      omega
  have few : ((Finset.range s.node_count).filter fun i => i < nodes p.breadth p.depth).card ≤
      nodes p.breadth p.depth := by
    have inside : ((Finset.range s.node_count).filter fun i => i < nodes p.breadth p.depth) ⊆
        Finset.range (nodes p.breadth p.depth) := by
      intro i member
      exact Finset.mem_range.mpr (Finset.mem_filter.mp member).2
    have card := Finset.card_le_card inside
    rwa [Finset.card_range] at card
  have sum := Finset.sum_le_sum each
  rw [← Finset.sum_filter, Finset.sum_const, nsmul_eq_mul, Nat.cast_id] at sum
  have product := Nat.mul_le_mul_right p.breadth few
  rw [existing, nodes_children]
  omega

theorem Stuck.existing_eq (stuck : Stuck p s) (accepted : Accepted p total) (inv : Inv p s) :
    existing s = s.node_count := by
  have all : ∀ i ∈ Finset.range s.node_count, (s.child_info i).threads.length = kids s i := by
    intro i member
    have index := Finset.mem_range.mp member
    rw [stuck.kids_eq accepted inv index, (inv.thread i index).made]
  rw [existing, Finset.sum_congr rfl all]
  exact inv.count

theorem TreeInv.disciplined (inv : TreeInv p s) (accepted : Accepted p total) : Disciplined p total s := by
  have tree := inv.tree
  constructor
  · intro i index child place
    have fits := (tree.thread i index).fits
    rw [place] at fits
    apply tree.on_level
    rw [fits.1]
    exact tree.low
  · intro i index i' index' child child' j slot slot'
    exact tree.slots_distinct index index' slot slot'
  · rw [accepted.total]
    by_cases last : s.cdepth = p.depth + 1
    · exact Nat.le_of_eq (tree.last last)
    · have depth := tree.depth
      have high := tree.high (by omega)
      have mono := nodes_mono p.breadth (show s.cdepth + 1 ≤ p.depth + 1 by omega)
      omega
  · intro i index
    have here := tree.thread i index
    refine ⟨?_, here.kids_le⟩
    rw [here.made]
    exact (s.thread i).pc.made_le here.fits
  · rw [accepted.total]
    exact existing_le tree
  · intro i index place
    have fits := (tree.thread i index).fits
    rw [place] at fits
    exact fits.symm
  · by_cases some_step : ∃ act t, step p act s = some t
    · exact .inl some_step
    · have stuck : Stuck p s := by
        intro act
        by_contra taken
        obtain ⟨t, next⟩ := Option.ne_none_iff_exists'.mp taken
        exact some_step ⟨act, t, next⟩
      have all := (tree.last (stuck.complete accepted tree)).trans accepted.total.symm
      refine .inr ⟨fun i index => stuck.exited accepted inv index, all, ?_⟩
      rw [stuck.existing_eq accepted tree]
      exact all

theorem init_disciplined (accepted : Accepted p total) : Disciplined p total init := by
  have nobody : ∀ i, ¬ i < init.node_count := fun i => Nat.not_lt_zero i
  have positive : 1 ≤ total := by
    have some_node := nodes_pos p.breadth p.depth
    rw [accepted.total]
    exact some_node
  constructor
  · exact fun i index => absurd index (nobody i)
  · exact fun i index => absurd index (nobody i)
  · exact Nat.zero_le total
  · exact fun i index => absurd index (nobody i)
  · exact positive
  · exact fun i index => absurd index (nobody i)
  · exact .inl ⟨.start, _, rfl⟩

end disciplined

end ThreadTree
