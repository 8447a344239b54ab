import Vte.Sched.Process

/-!
The slots that `spawn` gives out number the tree level by level. The segment has room for them just as long
as the tree has at most the 250 nodes that `main` allows for.
-/
namespace Process
open CInt HeapTree Multiples

/-- Arguments that `parse_args` lets through. -/
structure Shape (a : Args) (b d : Nat) : Prop where
  breadth : a.BVAL = b
  depth : a.DVAL = d
  wide : 2 ≤ b
  deep : 2 ≤ d

section setup

theorem check_args_some {a a' : Args} {fl : Flags} (accepted : checkArgs a fl = some a') :
    2 ≤ a'.BVAL ∧ 2 ≤ a'.DVAL := by
  unfold checkArgs at accepted
  split_ifs at accepted
  obtain rfl := Option.some.inj accepted
  omega

theorem parse_args_shape {env a : Args} {opts : List Opt} (accepted : parse_args env opts = some a) :
    Shape a a.BVAL.toNat a.DVAL.toNat := by
  obtain ⟨wide, deep⟩ := check_args_some accepted
  exact ⟨by omega, by omega, by omega, by omega⟩

theorem u64_nat {n : Nat} (fits : n < 18446744073709551616) : u64 n = n := by
  have same := u64_small (x := n) (by omega) (by omega)
  omega

theorem sumit_loop {b : Nat} (wide : 2 ≤ b) {left i sum : Nat} (small : b ^ i < 2147483648)
    (summed : sumitLoop b left ((b ^ i : Nat) : Int) (nodes b (i + 1)) = some sum) :
    sum = nodes b (i + left + 1) ∧ b ^ (i + left) < 2147483648 := by
  induction left generalizing i with
  | zero =>
    rw [sumitLoop] at summed
    exact ⟨(Option.some.inj summed).symm, small⟩
  | succ left ih =>
    rw [sumitLoop] at summed
    obtain ⟨power, checked, rest⟩ := Option.bind_eq_some_iff.mp summed
    obtain ⟨fits, rfl⟩ := checked32_iff.mp checked
    have next : (b : Int) * ((b ^ i : Nat) : Int) = ((b ^ (i + 1) : Nat) : Int) := by
      rw [Nat.pow_succ, Nat.mul_comm]
      exact (Int.natCast_mul _ _).symm
    rw [next] at fits rest
    have high : b ^ (i + 1) < 2147483648 := by
      have bound := fits.2
      omega
    have total := nodes_lt_twice wide i
    have sum_step : u64 ((nodes b (i + 1) : Nat) + ((b ^ (i + 1) : Nat) : Int)) = nodes b (i + 1 + 1) := by
      rw [nodes_succ b (i + 1)]
      exact u64_nat (by omega)
    rw [sum_step] at rest
    have turns : i + 1 + left = i + (left + 1) := by omega
    exact turns ▸ ih high rest

theorem sumit_some {a : Args} {b d sum : Nat} (shape : Shape a b d) (summed : sumit a.BVAL a.DVAL = some sum) :
    sum = nodes b (d + 1) ∧ sum < 4294967296 := by
  rw [sumit, shape.breadth, shape.depth, Int.toNat_natCast] at summed
  obtain ⟨total, power⟩ := sumit_loop (i := 0) shape.wide (by simp) summed
  rw [Nat.zero_add] at total power
  have bound := nodes_lt_twice shape.wide d
  exact ⟨total, by omega⟩

structure SetUp (b d : Nat) (st : Setup) : Prop where
  nodesum : st.nodesum = (min (nodes b (d + 1)) 250 : Nat)
  size : (st.size : Int) = 24 * st.nodesum + 4 * (st.nodesum * b)
  semaphores : st.semaphores = st.nodesum - 1

theorem setup_semaphores_some {nodesum sems : Int} (set : setup_semaphores nodesum = some sems) :
    1 < nodesum ∧ sems = nodesum - 1 := by
  unfold setup_semaphores at set
  split_ifs at set
  obtain rfl := Option.some.inj set
  omega

theorem setup_shm_some {a : Args} {b d size : Nat} (shape : Shape a b d) {nodesum : Int}
    (low : 0 ≤ nodesum) (high : nodesum ≤ 250) (sized : setup_shm a nodesum = some size) :
    (size : Int) = 24 * nodesum + 4 * (nodesum * b) := by
  obtain ⟨lists, checked, sized⟩ := Option.bind_eq_some_iff.mp sized
  obtain ⟨fits, rfl⟩ := checked32_iff.mp checked
  rw [shape.breadth] at fits sized
  have product : 0 ≤ nodesum * (b : Int) := Int.mul_nonneg low (Int.natCast_nonneg b)
  have bound := fits.2
  have whole := u64_small (x := 24 * nodesum + nodesum * b * 4) (by omega) (by omega)
  have bytes := Option.some.inj sized
  simp only [sizeofPinfo, sizeofInt, Nat.cast_ofNat] at bytes
  omega

theorem nodesum_capped {sum : Nat} (bound : sum < 4294967296)
    (some_node : 1 < (if int32 sum > 250 then 250 else int32 sum)) :
    (if int32 sum > 250 then 250 else int32 sum) = ((min sum 250 : Nat) : Int) := by
  have small : (sum : Int) < 2147483648 := by
    by_contra large
    rw [int32_wrapped (by omega) (by omega)] at some_node
    split at some_node <;> omega
  have whole : int32 sum = sum := int32_small (by omega) small
  rw [whole]
  split <;> omega

theorem main_gives {argc : Nat} {env a : Args} {opts : List Opt} {st : Setup}
    (accepted : main argc env opts = some (a, st)) :
    Shape a a.BVAL.toNat a.DVAL.toNat ∧ SetUp a.BVAL.toNat a.DVAL.toNat st := by
  unfold main at accepted
  split at accepted
  · cases accepted
  obtain ⟨a', parsed, accepted⟩ := Option.bind_eq_some_iff.mp accepted
  obtain ⟨sum, summed, accepted⟩ := Option.bind_eq_some_iff.mp accepted
  obtain ⟨size, sized, accepted⟩ := Option.bind_eq_some_iff.mp accepted
  obtain ⟨semaphores, set, accepted⟩ := Option.bind_eq_some_iff.mp accepted
  have shape := parse_args_shape parsed
  obtain ⟨total, bound⟩ := sumit_some shape summed
  obtain ⟨some_node, count⟩ := setup_semaphores_some set
  have capped := nodesum_capped bound some_node
  simp only [capped] at sized accepted count
  obtain ⟨rfl, rfl⟩ := Prod.mk.inj (Option.some.inj accepted)
  have high : ((min sum 250 : Nat) : Int) ≤ 250 := by omega
  exact ⟨shape, total ▸ rfl, setup_shm_some shape (Int.natCast_nonneg _) high sized, count⟩

end setup

section tree
variable {a : Args} {b d : Nat} (shape : Shape a b d)
include shape

theorem tvals_children (v : Nat) : tvals a v = (children b v).map Nat.cast := by
  rw [tvals, children, shape.breadth, Int.toNat_natCast, List.range'_eq_map_range, List.map_map]
  refine List.map_congr_left fun i _ => ?_
  simp only [Function.comp_apply]
  push_cast
  omega

/-- The process with the number `t` on a level. -/
def proc (b level t : Nat) : Proc := ⟨t, (parent b t : Nat), level⟩

theorem spawn_proc {n : Nat} (inner : n < d) (v : Nat) :
    spawn a (proc b n v) = (children b v).map (proc b (n + 1)) := by
  have spawns : Spawns a (proc b n v) := .inr (by rw [shape.depth]; exact Int.ofNat_lt.mpr inner)
  rw [spawn, if_pos spawns]
  simp only [proc]
  rw [tvals_children shape, List.map_map]
  refine List.map_congr_left fun t child => ?_
  have cast : (n : Int) + 1 = ((n + 1 : Nat) : Int) := rfl
  simp only [Function.comp_apply, proc, parent_child child, cast]

theorem generation_eq {n : Nat} (within : n ≤ d) : generation a n = (level b n).map (proc b n) := by
  induction n with
  | zero => simp [generation, level, first, proc, parent]
  | succ n ih =>
    rw [generation, ih (by omega), level, List.flatMap_map, List.map_flatMap]
    simp only [spawn_proc shape within]

theorem generation_past {n : Nat} (past : d < n) : generation a n = [] := by
  induction n with
  | zero => omega
  | succ n ih =>
    rw [generation]
    by_cases last : n = d
    · subst last
      have leaf : ∀ v, spawn a (proc b n v) = [] := by
        intro v
        have some_level := shape.deep
        have no_spawn : ¬ Spawns a (proc b n v) := by
          rintro (first | inner)
          · simp only [proc] at first
            omega
          · rw [shape.depth] at inner
            exact Int.lt_irrefl _ inner
        rw [spawn, if_neg no_spawn]
      rw [generation_eq shape (Nat.le_refl n), List.flatMap_map]
      simp [leaf]
    · rw [ih (by omega), List.flatMap_nil]

theorem created_proc {n : Nat} {p : Proc} (member : p ∈ created a n) :
    ∃ k t, 1 ≤ k ∧ k ≤ d ∧ t ∈ level b k ∧ p = proc b k t := by
  obtain ⟨i, _, inside⟩ := List.mem_flatMap.mp member
  by_cases within : i + 1 ≤ d
  · rw [generation_eq shape within] at inside
    obtain ⟨t, number, rfl⟩ := List.mem_map.mp inside
    exact ⟨i + 1, t, by omega, within, number, rfl⟩
  · rw [generation_past shape (by omega)] at inside
    cases inside

theorem created_slots (n : Nat) : (created a n).map Proc.slot =
    (List.range' 1 (nodes b (min n d + 1) - 1)).map Nat.cast := by
  induction n with
  | zero => simp [created, nodes]
  | succ n ih =>
    have snoc : created a (n + 1) = created a n ++ generation a (n + 1) := by
      rw [created, List.range_succ, List.flatMap_append, List.flatMap_singleton]
      rfl
    rw [snoc, List.map_append, ih]
    by_cases within : n + 1 ≤ d
    · have before : min n d = n := by omega
      have after : min (n + 1) d = n + 1 := by omega
      have positive := nodes_pos b n
      have slots : Proc.slot ∘ proc b (n + 1) = Nat.cast := rfl
      rw [generation_eq shape within, List.map_map, slots, level_eq, before, after, nodes_succ b (n + 1),
        ← List.map_append]
      have start : nodes b (n + 1) = 1 + (nodes b (n + 1) - 1) := by omega
      have count : nodes b (n + 1) + b ^ (n + 1) - 1 = nodes b (n + 1) - 1 + b ^ (n + 1) := by omega
      rw [count, ← List.range'_append_1, ← start]
    · have same : min (n + 1) d = min n d := by omega
      rw [generation_past shape (by omega), same, List.map_nil, List.append_nil]

theorem mem_created {n : Nat} {p : Proc} (member : p ∈ created a n) :
    ∃ k t, 1 ≤ k ∧ k ≤ d ∧ p = proc b k t ∧ nodes b k ≤ t ∧ t < nodes b (k + 1) := by
  obtain ⟨k, t, low, high, number, place⟩ := created_proc shape member
  rw [level_eq, List.mem_range'_1, ← nodes_succ] at number
  exact ⟨k, t, low, high, place, number.1, number.2⟩

end tree

section segment
variable {a : Args} {b d : Nat}

theorem siblings_past {t s : Nat} (n : Nat) (past : t < s) : siblings t n s = (List.range' s n).map Nat.cast := by
  induction n generalizing s with
  | zero => simp [siblings]
  | succ n ih =>
    have other : (t : Int) ≠ s := by omega
    rw [siblings, if_pos other, List.range'_succ, List.map_cons]
    exact congrArg _ (ih (by omega))

theorem siblings_eq {t s n : Nat} (low : s ≤ t) (high : t < s + (n + 1)) :
    siblings t n s = ((List.range' s (n + 1)).map Nat.cast).filter (· ≠ (t : Int)) := by
  induction n generalizing s with
  | zero =>
    have same : t = s := by omega
    simp [siblings, same]
  | succ n ih =>
    rw [List.range'_succ, List.map_cons, siblings]
    by_cases here : t = s
    · subst here
      have others : ((List.range' (t + 1) (n + 1)).map (Nat.cast : Nat → Int)).filter (· ≠ (t : Int)) =
          (List.range' (t + 1) (n + 1)).map Nat.cast := by
        rw [List.filter_eq_self]
        intro x member
        obtain ⟨i, inside, rfl⟩ := List.mem_map.mp member
        have above := (List.mem_range'_1.mp inside).1
        simp
        omega
      rw [if_neg (fun different => different rfl), List.filter_cons_of_neg (by simp), others]
      exact siblings_past (n + 1) (Nat.lt_succ_self t)
    · have other : (t : Int) ≠ s := by omega
      rw [if_pos other, List.filter_cons_of_pos (by simp; omega)]
      exact congrArg _ (ih (s := s + 1) (by omega) (by omega))

variable (shape : Shape a b d)
include shape

theorem semoper_parent {t : Nat} (later : 0 < t) : semoper a t = (parent b t : Nat) := by
  have cast : (t : Int) - 1 = ((t - 1 : Nat) : Int) := by omega
  rw [semoper, shape.breadth, cast, parent]
  rfl

theorem semoper_first : semoper a 0 = 0 := by
  have wide := shape.wide
  rw [semoper, shape.breadth, Int.zero_sub, Int.neg_tdiv, Int.tdiv_eq_zero_of_lt (by omega) (by omega), Int.neg_zero]

theorem entries_eq {t : Nat} (later : 0 < t) :
    entries a t = ((parent b t : Nat) : Int) :: (tvals a (parent b t : Nat)).filter (· ≠ (t : Int)) := by
  have wide := shape.wide
  have up : ((t : Int) - 1).tdiv a.BVAL = (parent b t : Nat) := semoper_parent shape later
  have start : ((parent b t : Nat) : Int) * a.BVAL + 1 = ((parent b t * b + 1 : Nat) : Int) := by
    rw [shape.breadth]
    push_cast
    rfl
  have count : (a.BVAL - 1).toNat = b - 1 := by
    rw [shape.breadth]
    omega
  obtain ⟨low, high⟩ := mem_children.mp (child_of_parent (b := b) (by omega) later)
  have all : b - 1 + 1 = b := by omega
  have others := siblings_eq (n := b - 1) low (by omega)
  rw [all] at others
  rw [entries, up]
  simp only [start, count, others, tvals_children shape]
  rfl

theorem put_proc_info_gives {nodesum : Int} {t : Nat} (later : 0 < t) (fits : b * t < 2147483648) :
    put_proc_info a nodesum t = some ⟨24 * t, 24 * nodesum + 4 * (b * t : Nat),
      (parent b t : Nat) :: (tvals a (parent b t : Nat)).filter (· ≠ (t : Int))⟩ := by
  have product : a.BVAL * (t : Int) = ((b * t : Nat) : Int) := by
    rw [shape.breadth]
    exact (Int.natCast_mul b t).symm
  have checked : checked32 ((b * t : Nat) : Int) = some ((b * t : Nat) : Int) :=
    checked32_fits ⟨by omega, by omega⟩
  rw [put_proc_info, product, checked, entries_eq shape later]
  rfl

theorem spawns_iff {k : Nat} (t : Nat) : Spawns a (proc b k t) ↔ k < d := by
  have deep := shape.deep
  simp only [Spawns, shape.depth, proc]
  omega

theorem semaphores_inner {k t : Nat} (within : k ≤ d) (high : t < nodes b (k + 1)) {sem : Int}
    (uses : sem ∈ semaphores a (proc b k t)) : 0 ≤ sem ∧ sem < nodes b (d + 1) - 1 := by
  have wide := shape.wide
  have deep := shape.deep
  have last : 2 * nodes b d + 1 ≤ nodes b (d + 1) := by
    rw [nodes_children, Nat.mul_comm 2]
    exact Nat.succ_le_succ (Nat.mul_le_mul_left _ wide)
  have some_node : 0 < nodes b d := nodes_mono b (show 1 ≤ d by omega)
  have above : (parent b t : Nat) ≤ t := Nat.le_trans (Nat.div_le_self _ _) (Nat.sub_le _ _)
  have up : semoper a t = (parent b t : Nat) := by
    by_cases root : t = 0
    · subst root
      rw [parent, Nat.zero_sub, Nat.zero_div]
      exact semoper_first shape
    · exact semoper_parent shape (by omega)
  unfold semaphores at uses
  split at uses
  · rename_i inner
    have early : nodes b (k + 1) ≤ nodes b d := nodes_mono b ((spawns_iff shape t).mp inner)
    have last_child : t * b + b ∈ children b t := mem_children.mpr ⟨by omega, by omega⟩
    have own : semoper a (t * b + b : Nat) = (t : Nat) := by
      rw [semoper_parent shape (by omega), parent_child last_child]
    have tval : (proc b k t).slot * a.BVAL + a.BVAL = ((t * b + b : Nat) : Int) := by
      rw [shape.breadth, proc]
      push_cast
      rfl
    simp only [tval, own, up, List.mem_cons, List.not_mem_nil, or_false] at uses
    omega
  · rename_i leaf
    have late : ¬ k < d := fun inner => leaf ((spawns_iff shape t).mpr inner)
    have level : k = d := by omega
    have slot : (proc b k t).slot = (t : Int) := rfl
    rw [slot, up, List.mem_singleton] at uses
    have low : parent b t < t ∨ t = 0 := by
      by_cases root : t = 0
      · exact .inr root
      · exact .inl (Nat.lt_of_le_of_lt (Nat.div_le_self _ _) (by omega))
    rw [level] at high
    omega

theorem sound_small {st : Setup} (set : SetUp b d st) (small : nodes b (d + 1) ≤ 250) : Sound a st := by
  have nodesum : st.nodesum = nodes b (d + 1) := by
    rw [set.nodesum]
    omega
  constructor
  · intro n
    rw [created_slots shape n]
    exact List.Nodup.map Nat.cast_injective List.nodup_range'
  · intro n p member
    obtain ⟨k, t, low, within, rfl, above, below⟩ := mem_created shape member
    have positive : 1 ≤ nodes b k := nodes_mono b low
    have inside : nodes b (k + 1) ≤ nodes b (d + 1) := nodes_mono b (by omega)
    have breadth : b ≤ 250 := by
      have children := nodes_children b d
      have some_inner : 1 ≤ nodes b d := nodes_mono b (show 1 ≤ d by omega)
      have product := Nat.mul_le_mul_right b some_inner
      omega
    have product : b * t ≤ 250 * 250 := Nat.mul_le_mul breadth (by omega)
    have room : b * t + b ≤ nodes b (d + 1) * b := by
      rw [Nat.mul_comm, ← Nat.succ_mul]
      exact Nat.mul_le_mul_right b (by omega)
    have size := set.size
    rw [nodesum, ← Int.natCast_mul] at size
    refine ⟨_, put_proc_info_gives shape (by omega) (by omega), ?_, ?_, rfl⟩
    · simp only [Inside, sizeofPinfo]
      omega
    · simp only [Inside, sizeofInt, shape.breadth, nodesum]
      omega
  · intro n p member sem uses
    rw [set.semaphores, nodesum]
    rcases List.mem_cons.mp member with rfl | later
    · exact semaphores_inner shape (Nat.zero_le d) (nodes_pos b 0) uses
    · obtain ⟨k, t, _, within, rfl, _, below⟩ := mem_created shape later
      exact semaphores_inner shape within below uses

theorem not_sound_large {st : Setup} (set : SetUp b d st) (large : 250 < nodes b (d + 1)) : ¬ Sound a st := by
  intro sound
  have wide := shape.wide
  have nodesum : st.nodesum = 250 := by
    rw [set.nodesum]
    omega
  have slot : (250 : Int) ∈ (created a d).map Proc.slot := by
    rw [created_slots shape d, Nat.min_self, List.mem_map]
    exact ⟨250, List.mem_range'_1.mpr (by omega), rfl⟩
  obtain ⟨p, member, place⟩ := List.mem_map.mp slot
  obtain ⟨w, put, _, list, _⟩ := sound.placed d p member
  rw [place] at put
  obtain ⟨index, checked, put⟩ := Option.bind_eq_some_iff.mp put
  obtain ⟨_, rfl⟩ := checked32_iff.mp checked
  obtain rfl := Option.some.inj put
  have bound := list.2
  have size := set.size
  rw [nodesum] at size
  simp only [nodesum, shape.breadth, sizeofPinfo, sizeofInt, Nat.cast_ofNat] at bound
  omega

end segment

/-- The segment and the semaphores suffice exactly for the trees of at most 250 nodes. -/
theorem slots_sound_iff {argc : Nat} {env a : Args} {opts : List Opt} {st : Setup}
    (accepted : main argc env opts = some (a, st)) :
    Sound a st ↔ nodes a.BVAL.toNat (a.DVAL.toNat + 1) ≤ 250 := by
  obtain ⟨shape, set⟩ := main_gives accepted
  constructor
  · intro sound
    by_contra large
    exact not_sound_large shape set (by omega) sound
  · exact sound_small shape set

theorem slots_sound_iff_default :
    Sound ⟨0, 3, 2, 1⟩ ⟨13, 468, 12⟩ ↔ nodes 3 3 ≤ 250 := by
  have accepted : main 3 ⟨0, 3, 2, 1⟩ [.t 1 false] = some (⟨0, 3, 2, 1⟩, ⟨13, 468, 12⟩) := by decide
  exact slots_sound_iff accepted

theorem slots_past_segment :
    ∃ a st, main 5 ⟨0, 3, 2, 1⟩ [.b 2 false, .d 7 false] = some (a, st) ∧ ¬ Sound a st := by
  have accepted : main 5 ⟨0, 3, 2, 1⟩ [.b 2 false, .d 7 false] =
      some (⟨0, 2, 7, 1⟩, ⟨250, 8000, 249⟩) := by decide +kernel
  have many : 250 < nodes 2 8 := by simp [nodes, Finset.sum_range_succ]
  obtain ⟨shape, set⟩ := main_gives accepted
  exact ⟨_, _, accepted, not_sound_large shape set many⟩

end Process
