import Mathlib.Algebra.Ring.GeomSum
import Mathlib.Data.List.Range

/-!
Trees whose nodes all have `b` children, numbered level by level from the root, 0: the numbers of a level, of
the children of a node, and of its parent.
-/
namespace HeapTree
variable {b n v t : Nat}

def nodes (b n : Nat) : Nat := ∑ i ∈ Finset.range n, b ^ i

def children (b v : Nat) : List Nat := List.range' (v * b + 1) b

def parent (b t : Nat) : Nat := (t - 1) / b

def level (b : Nat) : Nat → List Nat
  | 0 => [0]
  | n + 1 => (level b n).flatMap (children b)

theorem nodes_zero (b : Nat) : nodes b 0 = 0 := rfl

theorem nodes_succ (b n : Nat) : nodes b (n + 1) = nodes b n + b ^ n := Finset.sum_range_succ _ n

theorem nodes_children (b n : Nat) : nodes b (n + 1) = nodes b n * b + 1 := by
  rw [nodes, nodes, geom_sum_succ, Nat.mul_comm]

theorem nodes_mono (b : Nat) {m : Nat} (order : n ≤ m) : nodes b n ≤ nodes b m := by
  induction order with
  | refl => exact Nat.le_refl _
  | step _ ih =>
    rw [nodes_succ]
    omega

theorem nodes_pos (b n : Nat) : 0 < nodes b (n + 1) := by
  rw [nodes_children]
  omega

theorem nodes_lt_twice (wide : 2 ≤ b) (n : Nat) : nodes b (n + 1) < 2 * b ^ n := by
  induction n with
  | zero => simp [nodes_succ, nodes_zero]
  | succ n ih =>
    have grows : 2 * b ^ n ≤ b ^ (n + 1) := by
      rw [Nat.pow_succ, Nat.mul_comm]
      exact Nat.mul_le_mul_left _ wide
    rw [nodes_succ]
    omega

theorem mem_children : t ∈ children b v ↔ v * b + 1 ≤ t ∧ t < v * b + 1 + b := by
  simp [children, List.mem_range'_1]

theorem children_length (b v : Nat) : (children b v).length = b := List.length_range'

theorem parent_child (child : t ∈ children b v) : parent b t = v := by
  obtain ⟨low, high⟩ := mem_children.mp child
  rw [parent]
  have place : t - 1 = b * v + (t - 1 - v * b) := by
    rw [Nat.mul_comm]
    omega
  rw [place, Nat.mul_add_div (by omega), Nat.div_eq_of_lt (by omega), Nat.add_zero]

theorem child_of_parent (some_child : 0 < b) (some_parent : 0 < t) : t ∈ children b (parent b t) := by
  have whole := Nat.div_add_mod (t - 1) b
  have low := Nat.mod_lt (t - 1) some_child
  rw [Nat.mul_comm] at whole
  rw [mem_children, parent]
  omega

theorem child_pos (child : t ∈ children b v) : 0 < t := by
  have low := (mem_children.mp child).1
  omega

theorem children_nodup (b v : Nat) : (children b v).Nodup := List.nodup_range'

def siblingsOf (b t : Nat) : List Nat := (children b (parent b t)).filter (· ≠ t)

theorem mem_siblings {s : Nat} : s ∈ siblingsOf b t ↔ s ∈ children b (parent b t) ∧ s ≠ t := by
  simp [siblingsOf]

theorem siblings_comm {s : Nat} (some_child : 0 < b) (some_parent : 0 < t) (sibling : s ∈ siblingsOf b t) :
    t ∈ siblingsOf b s := by
  obtain ⟨child, different⟩ := mem_siblings.mp sibling
  rw [mem_siblings, parent_child child]
  exact ⟨child_of_parent some_child some_parent, different.symm⟩

theorem siblings_nodup (b t : Nat) : (siblingsOf b t).Nodup := (children_nodup b _).filter _

theorem siblings_length (some_child : 0 < b) (some_parent : 0 < t) : (siblingsOf b t).length + 1 = b := by
  have child := child_of_parent some_child some_parent
  have erased : siblingsOf b t = (children b (parent b t)).erase t := by
    rw [(children_nodup b _).erase_eq_filter, siblingsOf]
    exact List.filter_congr fun s _ => by simp [bne, BEq.beq]
  rw [erased, List.length_erase_of_mem child, children_length]
  omega

theorem flat_map_children (b s n : Nat) :
    (List.range' s n).flatMap (children b) = List.range' (s * b + 1) (n * b) := by
  induction n generalizing s with
  | zero => simp
  | succ n ih =>
    have next : s * b + 1 + b = (s + 1) * b + 1 := by
      rw [Nat.succ_mul]
      omega
    rw [List.range'_succ, List.flatMap_cons, ih, children, ← next, List.range'_append_1, Nat.succ_mul, Nat.add_comm b]

theorem level_eq (b n : Nat) : level b n = List.range' (nodes b n) (b ^ n) := by
  induction n with
  | zero => rfl
  | succ n ih => rw [level, ih, flat_map_children, nodes_children, Nat.pow_succ]

end HeapTree
