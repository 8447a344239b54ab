import Vte.Sched.ThreadTreeInv

/-!
What a thread that registers with its parent changes, and that with this every step keeps the invariant.
-/
namespace ThreadTree
open Function HeapTree

section register
variable {p : Params} {s t : State} {total parent child : Nat}

theorem Pc.made_pos {cdepth level : Nat} {pc : Pc} (fits : pc.Fits p cdepth level) (some_made : 0 < pc.made p level) :
    level + 1 ≤ cdepth ∧ level < p.depth := by
  cases pc with
  | creating child => exact ⟨Nat.le_of_eq fits.1, fits.2.1⟩
  | joining child => exact ⟨fits.1, fits.2.1⟩
  | exited =>
    rw [Pc.made] at some_made
    split at some_made
    · exact ⟨fits, by assumption⟩
    · exact absurd some_made (Nat.lt_irrefl 0)
  | _ => exact absurd some_made (Nat.lt_irrefl 0)

theorem ThreadInv.slot_missing {i : Nat} (inv : ThreadInv p s i)
    (slot : (s.child_info i).threads[child]? = some none) : kids s i < (s.child_info i).threads.length := by
  rw [kids, inv.ptrs.length_eq]
  exact List.length_filterMap_lt_length_iff_exists.mpr ⟨none, List.mem_of_getElem? slot, rfl⟩

theorem Inv.register_level (inv : Inv p s) (known : parent < s.node_count)
    (slot : (s.child_info parent).threads[child]? = some none) :
    (s.thread parent).level + 1 = s.cdepth ∧ (s.thread parent).level < p.depth := by
  have there := inv.thread parent known
  have missing := there.slot_missing slot
  have most := (s.thread parent).pc.made_le there.fits
  rw [there.made] at missing
  obtain ⟨level, inner⟩ := Pc.made_pos there.fits (Nat.zero_lt_of_lt missing)
  refine ⟨?_, inner⟩
  by_contra other
  have full := there.full (by omega)
  omega

theorem filter_map_set {l : List (Option Nat)} {k n : Nat} (slot : l[k]? = some none) :
    ((l.filterMap id) ++ [n]).Perm ((l.set k (some n)).filterMap id) := by
  induction l generalizing k with
  | nil => cases slot
  | cons a l ih =>
    cases k with
    | zero =>
      obtain rfl := Option.some.inj slot
      exact List.perm_append_singleton n _
    | succ k =>
      have rest := ih (k := k) slot
      cases a with
      | none => exact rest
      | some m => exact rest.cons m

variable (p s child) in
theorem registered_eq (known : parent < s.node_count) (i : Nat) :
    (registered p s parent child i).threads = (if i = parent then (s.child_info i).threads.set child (some s.node_count)
        else (s.child_info i).threads) ∧
      (registered p s parent child i).child_ptrs =
        (if i = parent then (s.child_info i).child_ptrs ++ [s.node_count] else (s.child_info i).child_ptrs) ∧
      (registered p s parent child i).talk_count = (s.child_info i).talk_count := by
  by_cases own : i = parent
  · subst own
    have other : i ≠ s.node_count := by omega
    simp [registered, other]
  · by_cases new : i = s.node_count <;> simp [registered, own, new]
    subst new
    simp [own]

theorem terms_full {f : Nat → Nat} {m b i : Nat} (bound : ∀ j < m, f j ≤ b)
    (sum : m * b ≤ ∑ j ∈ Finset.range m, f j) (inside : i < m) : f i = b := by
  by_contra missing
  have most : ∀ j ∈ Finset.range m, f j ≤ b := fun j member => bound j (Finset.mem_range.mp member)
  have small : f i < b := by
    have here := bound i inside
    omega
  have fewer := Finset.sum_lt_sum most ⟨i, Finset.mem_range.mpr inside, small⟩
  rw [Finset.sum_const, Finset.card_range, nsmul_eq_mul, Nat.cast_id] at fewer
  omega

/-- The state after a thread has registered, as far as its place and the level do not matter. -/
structure Registers (p : Params) (s t : State) (parent child : Nat) : Prop where
  known : parent < s.node_count
  slot : (s.child_info parent).threads[child]? = some none
  count : t.node_count = s.node_count + 1
  info : t.child_info = registered p s parent child
  new_parent : (t.thread s.node_count).parent = some parent
  new_level : (t.thread s.node_count).level = s.cdepth
  new_made : (t.thread s.node_count).pc.made p s.cdepth = 0
  parents : ∀ i < s.node_count, (t.thread i).parent = (s.thread i).parent
  levels : ∀ i < s.node_count, (t.thread i).level = (s.thread i).level
  made : ∀ i < s.node_count, (t.thread i).pc.made p (s.thread i).level = (s.thread i).pc.made p (s.thread i).level

theorem Registers.kids_eq (reg : Registers p s t parent child) (i : Nat) :
    kids t i = kids s i + if i = parent then 1 else 0 := by
  rw [kids, kids, reg.info, (registered_eq p s child reg.known i).2.1]
  split_ifs with own
  · rw [List.length_append, List.length_singleton]
  · rfl

theorem Registers.kids_le (reg : Registers p s t parent child) (inv : Inv p s) {i : Nat}
    (index : i < s.node_count) : kids t i ≤ (s.thread i).pc.made p (s.thread i).level := by
  have here := inv.thread i index
  rw [reg.kids_eq, ← here.made]
  split_ifs with own
  · subst own
    exact here.slot_missing reg.slot
  · exact here.kids_le_threads

theorem Registers.count_parents (reg : Registers p s t parent child) (inv : Inv p s) :
    ∑ i ∈ Finset.range (nodes p.breadth s.cdepth), kids t i = s.node_count := by
  obtain ⟨level, _⟩ := inv.register_level reg.known reg.slot
  have inside := (inv.level_iff reg.known).mpr (by omega)
  have single : ∑ i ∈ Finset.range (nodes p.breadth s.cdepth), (if i = parent then 1 else 0) = 1 := by
    simp [inside]
  simp only [reg.kids_eq, Finset.sum_add_distrib, single]
  exact inv.count_parents

theorem Registers.all_kids (reg : Registers p s t parent child) (inv : Inv p s)
    (complete : s.node_count + 1 = nodes p.breadth (s.cdepth + 1)) {i : Nat}
    (early : i < nodes p.breadth s.cdepth) : kids t i = p.breadth := by
  apply terms_full (m := nodes p.breadth s.cdepth) _ _ early
  · intro j inside
    have index := Nat.lt_of_lt_of_le inside inv.low
    exact Nat.le_trans (reg.kids_le inv index) ((s.thread j).pc.made_le (inv.thread j index).fits)
  · rw [reg.count_parents inv]
    rw [nodes_children] at complete
    omega

theorem Registers.thread_new (reg : Registers p s t parent child) (inv : Inv p s)
    (fits : (t.thread s.node_count).pc.Fits p t.cdepth s.cdepth) (next : t.cdepth ≤ s.cdepth + 1) :
    ThreadInv p t s.node_count := by
  obtain ⟨level, inner⟩ := inv.register_level reg.known reg.slot
  obtain ⟨threads, ptrs, _⟩ := registered_eq p s child reg.known s.node_count
  have known := reg.known
  have other : s.node_count ≠ parent := by omega
  rw [if_neg other, inv.fresh s.node_count (Nat.le_refl _)] at threads ptrs
  rw [← reg.info] at threads ptrs
  constructor
  · rw [reg.new_level]
    exact inv.low
  · rw [reg.new_level]
    exact inv.high (by omega)
  · rw [reg.new_level]
    exact fits
  · rw [reg.new_level, reg.new_made, threads]
    rfl
  · rw [ptrs, threads]
    exact List.Perm.refl _
  · rw [ptrs]
    simp
  · rw [ptrs]
    exact List.nodup_nil
  · intro _
    refine ⟨parent, by rw [reg.count]; omega, reg.new_parent, ?_⟩
    rw [reg.info, (registered_eq p s child reg.known parent).2.1, if_pos rfl]
    simp
  · rw [reg.new_level]
    omega

theorem Registers.thread_old (reg : Registers p s t parent child) (inv : Inv p s) {i : Nat}
    (index : i < s.node_count) (fits : (t.thread i).pc.Fits p t.cdepth (s.thread i).level)
    (full : (s.thread i).level + 1 < t.cdepth → kids t i = p.breadth) : ThreadInv p t i := by
  have here := inv.thread i index
  obtain ⟨level, _⟩ := inv.register_level reg.known reg.slot
  obtain ⟨threads, ptrs, _⟩ := registered_eq p s child reg.known i
  rw [← reg.info] at threads ptrs
  have members : ∀ j ∈ (t.child_info i).child_ptrs, j ∈ (s.child_info i).child_ptrs ∨
      (j = s.node_count ∧ i = parent) := by
    intro j member
    rw [ptrs] at member
    split_ifs at member with own
    · rcases List.mem_append.mp member with old | new
      · exact .inl old
      · exact .inr ⟨List.mem_singleton.mp new, own⟩
    · exact .inl member
  constructor
  · rw [reg.levels i index]
    exact here.low
  · rw [reg.levels i index]
    exact here.high
  · rw [reg.levels i index]
    exact fits
  · rw [reg.levels i index, reg.made i index, ← here.made, threads]
    split_ifs
    · exact List.length_set
    · rfl
  · rw [ptrs, threads]
    split_ifs with own
    · subst own
      exact (here.ptrs.append_right _).trans (filter_map_set reg.slot)
    · exact here.ptrs
  · intro j member
    rw [reg.levels i index]
    rcases members j member with old | ⟨rfl, rfl⟩
    · obtain ⟨small, up, deeper⟩ := here.child j old
      rw [reg.count, reg.parents j small, reg.levels j small]
      exact ⟨by omega, up, deeper⟩
    · rw [reg.count, reg.new_parent, reg.new_level]
      exact ⟨by omega, rfl, level.symm⟩
  · rw [ptrs]
    split_ifs with own
    · have new : s.node_count ∉ (s.child_info i).child_ptrs :=
        fun member => Nat.lt_irrefl _ (here.child _ member).1
      exact List.nodup_append.mpr ⟨here.nodup, List.nodup_singleton _, by simp; intro j member same; exact new (same ▸ member)⟩
    · exact here.nodup
  · intro later
    obtain ⟨q, small, up, member⟩ := here.parent later
    refine ⟨q, by rw [reg.count]; omega, by rw [reg.parents i index]; exact up, ?_⟩
    rw [reg.info, (registered_eq p s child reg.known q).2.1]
    split_ifs
    · exact List.mem_append_left _ member
    · exact member
  · rw [reg.levels i index]
    exact full

theorem Registers.count_all (reg : Registers p s t parent child) (inv : Inv p s) :
    ∑ i ∈ Finset.range t.node_count, kids t i + 1 = t.node_count := by
  have known := reg.known
  have new : kids t s.node_count = 0 := by
    have other : s.node_count ≠ parent := by omega
    rw [reg.kids_eq, if_neg other, kids, inv.fresh s.node_count (Nat.le_refl _)]
    rfl
  have single : ∑ i ∈ Finset.range s.node_count, (if i = parent then 1 else 0) = 1 := by
    simp [known]
  have old : ∑ i ∈ Finset.range s.node_count, kids t i = ∑ i ∈ Finset.range s.node_count, kids s i + 1 := by
    simp only [reg.kids_eq, Finset.sum_add_distrib, single]
  rw [reg.count, Finset.sum_range_succ, new, old, inv.count]

theorem Registers.fresh (reg : Registers p s t parent child) (inv : Inv p s) {i : Nat}
    (late : t.node_count ≤ i) : t.child_info i = ⟨[], [], 0, 0⟩ := by
  have known := reg.known
  rw [reg.count] at late
  have other : i ≠ parent := by omega
  have later : i ≠ s.node_count := by omega
  rw [← inv.fresh i (by omega), reg.info]
  simp [registered, other, later]

theorem Registers.root (reg : Registers p s t parent child) (inv : Inv p s) :
    (t.thread 0).parent = none := by
  have known := reg.known
  rw [reg.parents 0 (by omega)]
  exact inv.root

theorem Registers.inv_waits (reg : Registers p s t parent child) (inv : Inv p s)
    (cdepth : t.cdepth = s.cdepth) (more : s.node_count + 1 ≠ nodes p.breadth (s.cdepth + 1))
    (new : (t.thread s.node_count).pc = .waiting)
    (old : ∀ i < s.node_count, (t.thread i).pc = (s.thread i).pc) : Inv p t := by
  obtain ⟨level, inner⟩ := inv.register_level reg.known reg.slot
  have before := inv.high (by omega)
  constructor
  · rw [cdepth]
    exact inv.started
  · rw [cdepth]
    exact inv.depth
  · rw [cdepth, reg.count]
    exact Nat.le_succ_of_le inv.low
  · rw [cdepth, reg.count]
    omega
  · rw [cdepth]
    omega
  · exact reg.root inv
  · intro i index
    rw [reg.count] at index
    by_cases own : i = s.node_count
    · subst own
      apply reg.thread_new inv
      · rw [new, cdepth]
        rfl
      · omega
    · have known : i < s.node_count := by omega
      apply reg.thread_old inv known
      · rw [old i known, cdepth]
        exact (inv.thread i known).fits
      · intro early
        rw [cdepth] at early
        have other : i ≠ parent := by
          rintro rfl
          omega
        rw [reg.kids_eq, if_neg other]
        exact (inv.thread i known).full early
  · exact reg.count_all inv
  · exact fun i late => reg.fresh inv late

def Pc.wake (pc : Pc) : Pc := if pc = .waiting then .woken else pc

theorem Registers.inv_broadcasts (reg : Registers p s t parent child) (inv : Inv p s)
    (cdepth : t.cdepth = s.cdepth + 1) (complete : s.node_count + 1 = nodes p.breadth (s.cdepth + 1))
    (new : (t.thread s.node_count).pc = .ready)
    (old : ∀ i < s.node_count, (t.thread i).pc = (s.thread i).pc.wake) : Inv p t := by
  obtain ⟨level, inner⟩ := inv.register_level reg.known reg.slot
  have wide : 0 < p.breadth := by
    have there := inv.thread parent reg.known
    have missing := there.slot_missing reg.slot
    rw [there.made] at missing
    exact Nat.lt_of_lt_of_le (Nat.zero_lt_of_lt missing) ((s.thread parent).pc.made_le there.fits)
  constructor
  · omega
  · omega
  · rw [cdepth, reg.count, complete]
  · intro _
    have power : 0 < p.breadth ^ (s.cdepth + 1) := Nat.pow_pos wide
    rw [cdepth, reg.count, complete, nodes_succ p.breadth (s.cdepth + 1)]
    omega
  · intro last
    have depth : s.cdepth = p.depth := by omega
    rw [reg.count, complete, depth]
  · exact reg.root inv
  · intro i index
    rw [reg.count] at index
    by_cases own : i = s.node_count
    · subst own
      apply reg.thread_new inv
      · rw [new, cdepth]
        rfl
      · omega
    · have known : i < s.node_count := by omega
      have fits := (inv.thread i known).fits
      have made := reg.kids_le inv known
      apply reg.thread_old inv known
      · rw [old i known, cdepth]
        -- a thread of the levels above has created all its children
        have full : (s.thread i).level + 1 = s.cdepth → p.breadth ≤ (s.thread i).pc.made p (s.thread i).level := by
          intro above
          have early := (inv.level_iff known).mpr (by omega)
          rw [reg.all_kids inv complete early] at made
          exact made
        cases place : (s.thread i).pc with
        | waiting =>
          rw [place] at fits
          exact congrArg Nat.succ fits
        | woken | ready =>
          rw [place] at fits full
          have all := full fits
          simp only [Pc.made] at all
          omega
        | creating k =>
          rw [place] at fits full
          have all := full fits.1
          have small := fits.2.2
          simp only [Pc.made] at all
          omega
        | joining k =>
          rw [place] at fits
          exact ⟨Nat.le_succ_of_le fits.1, fits.2⟩
        | exited =>
          rw [place] at fits
          exact Nat.le_succ_of_le fits
        | talking k =>
          rw [place] at fits
          have late := fits.2.1
          omega
        | checking | talkWaiting | talkWoken =>
          rw [place] at fits
          have late := fits.2.1
          omega
      · intro early
        have above := (inv.level_iff known).mpr (by omega)
        exact reg.all_kids inv complete above
  · exact reg.count_all inv
  · exact fun i late => reg.fresh inv late

theorem broadcast_pc (thread : Nat → Thread) (i : Nat) :
    (broadcast thread i).parent = (thread i).parent ∧ (broadcast thread i).level = (thread i).level ∧
      (broadcast thread i).pc = (thread i).pc.wake := by
  unfold broadcast Pc.wake
  split_ifs <;> exact ⟨rfl, rfl, rfl⟩

theorem Pc.made_wake (pc : Pc) (level : Nat) : pc.wake.made p level = pc.made p level := by
  cases pc <;> rfl

theorem synchronize_children_cases (accepted : Accepted p total) (inv : Inv p s)
    (registers : synchronize_children p s parent child = some t) :
    Registers p s t parent child ∧ ((t.cdepth = s.cdepth ∧ s.node_count + 1 ≠ nodes p.breadth (s.cdepth + 1) ∧
        (t.thread s.node_count).pc = .waiting ∧ ∀ i < s.node_count, (t.thread i).pc = (s.thread i).pc) ∨
      (t.cdepth = s.cdepth + 1 ∧ s.node_count + 1 = nodes p.breadth (s.cdepth + 1) ∧
        (t.thread s.node_count).pc = .ready ∧ ∀ i < s.node_count, (t.thread i).pc = (s.thread i).pc.wake)) := by
  unfold synchronize_children at registers
  split at registers
  swap
  · cases registers
  rename_i guard
  obtain ⟨known, slot⟩ := guard
  obtain ⟨level, inner⟩ := inv.register_level known slot
  rw [accepted.expected s.cdepth (by omega)] at registers
  simp only [Option.bind_eq_bind, Option.bind_some] at registers
  split at registers
  · rename_i complete
    obtain rfl := Option.some.inj registers
    have old : ∀ i < s.node_count, update (broadcast s.thread) s.node_count
        ⟨some parent, (s.thread parent).level + 1, .ready⟩ i = broadcast s.thread i :=
      fun i index => update_of_ne (by omega) _ _
    refine ⟨⟨known, slot, rfl, rfl, by simp, by simpa using level, by simp [Pc.made], ?_, ?_, ?_⟩,
      .inr ⟨rfl, complete, by simp, ?_⟩⟩
    · intro i index
      simp only [old i index, (broadcast_pc s.thread i).1]
    · intro i index
      simp only [old i index, (broadcast_pc s.thread i).2.1]
    · intro i index
      simp only [old i index, (broadcast_pc s.thread i).2.2, Pc.made_wake]
    · intro i index
      simp only [old i index, (broadcast_pc s.thread i).2.2]
  · rename_i more
    obtain rfl := Option.some.inj registers
    have old : ∀ i < s.node_count, update s.thread s.node_count
        ⟨some parent, (s.thread parent).level + 1, .waiting⟩ i = s.thread i :=
      fun i index => update_of_ne (by omega) _ _
    refine ⟨⟨known, slot, rfl, rfl, by simp, by simpa using level, by simp [Pc.made], ?_, ?_, ?_⟩,
      .inl ⟨rfl, more, by simp, ?_⟩⟩
    all_goals
      intro i index
      simp only [old i index]

theorem synchronize_children_inv (accepted : Accepted p total) (inv : Inv p s)
    (registers : synchronize_children p s parent child = some t) : Inv p t := by
  obtain ⟨reg, ⟨cdepth, more, new, old⟩ | ⟨cdepth, complete, new, old⟩⟩ :=
    synchronize_children_cases accepted inv registers
  · exact reg.inv_waits inv cdepth more new old
  · exact reg.inv_broadcasts inv cdepth complete new old

end register

section runs
variable {p : Params} {s t : State} {total i : Nat}

theorem doit_inv (accepted : Accepted p total) (inv : Inv p s) (index : i < s.node_count)
    (taken : doit p s i = some t) : Inv p t := by
  have fits := (inv.thread i index).fits
  unfold doit at taken
  cases place : (s.thread i).pc with
  | waiting | talkWaiting | exited =>
    rw [place] at taken
    cases taken
  | woken =>
    rw [place] at taken fits
    obtain rfl := Option.some.inj taken
    exact inv.go_to fits (by rw [place]; rfl)
  | ready =>
    rw [place] at taken
    obtain rfl := Option.some.inj taken
    exact heart_inv accepted inv index place
  | creating child =>
    rw [place] at taken
    obtain rfl := Option.some.inj taken
    exact create_inv inv index place
  | joining child =>
    rw [place] at taken
    exact join_inv inv index place taken
  | talking child =>
    rw [place] at taken
    exact talk_inv inv index place taken
  | checking =>
    rw [place] at taken
    obtain rfl := Option.some.inj taken
    exact check_inv inv index place
  | talkWoken =>
    rw [place] at taken fits
    obtain rfl := Option.some.inj taken
    have leaf := fits.1
    have complete := fits.2.1
    have reached : (s.thread i).level + 1 ≤ s.cdepth := by omega
    exact inv.go_to reached (by simp [place, Pc.made, leaf])

theorem Inv.some_node (inv : Inv p s) : 0 < s.node_count := by
  have low := inv.low
  have mono := nodes_mono p.breadth inv.started
  have positive : 0 < nodes p.breadth 1 := nodes_pos p.breadth 0
  omega

theorem step_inv (accepted : Accepted p total) {act : Act} (inv : Inv p s) (taken : step p act s = some t) :
    Inv p t := by
  cases act with
  | start =>
    have known := inv.some_node
    rw [step, start, if_neg (by omega)] at taken
    cases taken
  | register parent child => exact synchronize_children_inv accepted inv taken
  | next i =>
    rw [step] at taken
    split at taken
    · rename_i index
      exact doit_inv accepted inv index taken
    · cases taken

end runs
end ThreadTree
