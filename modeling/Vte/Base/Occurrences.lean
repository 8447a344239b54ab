import Mathlib.Algebra.BigOperators.Group.Finset.Basic
import Mathlib.Data.Multiset.Count

/-!
How often values occur: the values that occur at least twice, all their occurrences, and the values
that occur once. A value that is not among the others is counted by itself; so is a member of a list that
comes to have a property.
-/
namespace Occurrences
variable {α : Type*} [DecidableEq α] {s : Multiset α} {x : α} {n : Nat}

def valuesWith (s : Multiset α) (p : Nat → Prop) [DecidablePred p] : Finset α :=
  s.toFinset.filter fun x => p (s.count x)

def repeated (s : Multiset α) : Nat := (valuesWith s (2 ≤ ·)).card

def occurrences (s : Multiset α) : Nat := ∑ x ∈ valuesWith s (2 ≤ ·), s.count x

def single (s : Multiset α) : Nat := (valuesWith s (· = 1)).card

theorem values_subset {p : Nat → Prop} [DecidablePred p] (absent : x ∉ s) : x ∉ valuesWith s p := by
  intro member
  exact absent (Multiset.mem_toFinset.mp (Finset.mem_of_mem_filter x member))

theorem count_fresh (absent : x ∉ s) (y : α) :
    (Multiset.replicate n x + s).count y = if y = x then n else s.count y := by
  rw [Multiset.count_add, Multiset.count_replicate]
  by_cases same : y = x
  · subst same
    rw [if_pos rfl, if_pos rfl, Multiset.count_eq_zero_of_notMem absent, Nat.add_zero]
  · rw [if_neg same, if_neg (fun h => same h.symm), Nat.zero_add]

theorem values_fresh {p : Nat → Prop} [DecidablePred p] (absent : x ∉ s) (pos : 0 < n) :
    valuesWith (Multiset.replicate n x + s) p =
      if p n then insert x (valuesWith s p) else valuesWith s p := by
  ext y
  have member : y ∈ valuesWith (Multiset.replicate n x + s) p ↔ (y = x ∧ p n ∨ y ≠ x ∧ y ∈ valuesWith s p) := by
    simp only [valuesWith, Finset.mem_filter, Multiset.mem_toFinset, Multiset.mem_add,
      Multiset.mem_replicate, count_fresh absent]
    by_cases same : y = x
    · simp [same, pos.ne']
    · simp [same]
  rw [member]
  split
  · rename_i holds
    rw [Finset.mem_insert]
    by_cases same : y = x
    · simp [same, holds]
    · simp [same]
  · rename_i fails
    by_cases same : y = x
    · simp [same, fails, values_subset absent]
    · simp [same]

theorem repeated_fresh (absent : x ∉ s) (pos : 0 < n) :
    repeated (Multiset.replicate n x + s) = repeated s + if 2 ≤ n then 1 else 0 := by
  unfold repeated
  rw [values_fresh absent pos]
  split
  · rw [Finset.card_insert_of_notMem (values_subset absent)]
  · rfl

theorem single_fresh (absent : x ∉ s) (pos : 0 < n) :
    single (Multiset.replicate n x + s) = single s + if n = 1 then 1 else 0 := by
  unfold single
  rw [values_fresh absent pos]
  split
  · rw [Finset.card_insert_of_notMem (values_subset absent)]
  · rfl

theorem occurrences_fresh (absent : x ∉ s) (pos : 0 < n) :
    occurrences (Multiset.replicate n x + s) = occurrences s + if 2 ≤ n then n else 0 := by
  unfold occurrences
  have others : ∑ y ∈ valuesWith s (2 ≤ ·), (Multiset.replicate n x + s).count y =
      ∑ y ∈ valuesWith s (2 ≤ ·), s.count y := by
    refine Finset.sum_congr rfl fun y member => ?_
    rw [count_fresh absent, if_neg]
    rintro rfl
    exact values_subset absent member
  rw [values_fresh absent pos]
  split
  · rw [Finset.sum_insert (values_subset absent), others, count_fresh absent, if_pos rfl, Nat.add_comm]
  · rw [others, Nat.add_zero]

theorem many_fresh (absent : x ∉ s) (many : 2 ≤ n) :
    repeated (Multiset.replicate n x + s) = repeated s + 1 ∧
      occurrences (Multiset.replicate n x + s) = occurrences s + n ∧
      single (Multiset.replicate n x + s) = single s := by
  rw [repeated_fresh absent (by omega), occurrences_fresh absent (by omega),
    single_fresh absent (by omega), if_pos many, if_pos many, if_neg (by omega)]
  exact ⟨rfl, rfl, rfl⟩

theorem once_fresh (absent : x ∉ s) : repeated (Multiset.replicate 1 x + s) = repeated s ∧
    occurrences (Multiset.replicate 1 x + s) = occurrences s ∧
    single (Multiset.replicate 1 x + s) = single s + 1 := by
  rw [repeated_fresh absent Nat.one_pos, occurrences_fresh absent Nat.one_pos, single_fresh absent Nat.one_pos]
  exact ⟨rfl, rfl, rfl⟩

theorem none_occur (α : Type*) [DecidableEq α] : repeated (0 : Multiset α) = 0 ∧ occurrences (0 : Multiset α) = 0 ∧
    single (0 : Multiset α) = 0 :=
  ⟨rfl, rfl, rfl⟩

section blocks
variable {y z : α} {a b c : Nat}

theorem fresh_single (other : x ≠ y) (n : Nat) : x ∉ Multiset.replicate n y :=
  fun member => other (Multiset.eq_of_mem_replicate member)

theorem one_value (many : 2 ≤ a) : repeated (Multiset.replicate a x) = 1 ∧
    occurrences (Multiset.replicate a x) = a ∧ single (Multiset.replicate a x) = 0 := by
  obtain ⟨r, o, u⟩ := many_fresh (Multiset.notMem_zero x) many
  rw [add_zero] at r o u
  rw [r, o, u, (none_occur α).1, (none_occur α).2.1, (none_occur α).2.2, Nat.zero_add, Nat.zero_add]
  exact ⟨rfl, rfl, rfl⟩

theorem two_values (other : x ≠ y) (many : 2 ≤ a) (many' : 2 ≤ b) :
    repeated (Multiset.replicate a x + Multiset.replicate b y) = 2 ∧
      occurrences (Multiset.replicate a x + Multiset.replicate b y) = b + a ∧
      single (Multiset.replicate a x + Multiset.replicate b y) = 0 := by
  obtain ⟨r, o, u⟩ := many_fresh (fresh_single other b) many
  obtain ⟨r', o', u'⟩ := one_value (x := y) many'
  rw [r, o, u, r', o', u']
  exact ⟨rfl, rfl, rfl⟩

theorem three_values (xy : x ≠ y) (xz : x ≠ z) (yz : y ≠ z) (many : 2 ≤ a) (many' : 2 ≤ b)
    (many'' : 2 ≤ c) :
    repeated (Multiset.replicate a x + (Multiset.replicate b y + Multiset.replicate c z)) = 3 ∧
      occurrences (Multiset.replicate a x + (Multiset.replicate b y + Multiset.replicate c z)) = c + b + a ∧
      single (Multiset.replicate a x + (Multiset.replicate b y + Multiset.replicate c z)) = 0 := by
  have absent : x ∉ Multiset.replicate b y + Multiset.replicate c z := by
    rw [Multiset.mem_add]
    rintro (member | member)
    · exact fresh_single xy b member
    · exact fresh_single xz c member
  obtain ⟨r, o, u⟩ := many_fresh absent many
  obtain ⟨r', o', u'⟩ := two_values yz many' many''
  rw [r, o, u, r', o', u']
  exact ⟨rfl, rfl, rfl⟩

theorem one_and_single (other : x ≠ y) (many : 2 ≤ a) :
    repeated (Multiset.replicate a x + Multiset.replicate 1 y) = 1 ∧
      occurrences (Multiset.replicate a x + Multiset.replicate 1 y) = a ∧
      single (Multiset.replicate a x + Multiset.replicate 1 y) = 1 := by
  obtain ⟨r, o, u⟩ := once_fresh (fresh_single other.symm a)
  obtain ⟨r', o', u'⟩ := one_value (x := x) many
  rw [add_comm, r, o, u, r', o', u']
  exact ⟨rfl, rfl, rfl⟩

end blocks

theorem countP_succ {P Q : α → Bool} {l : List α} {a : α} (nodup : l.Nodup) (member : a ∈ l)
    (before : P a = false) (after : Q a = true) (others : ∀ c ∈ l, c ≠ a → Q c = P c) :
    l.countP Q = l.countP P + 1 := by
  have perm := List.perm_cons_erase member
  have rest : (l.erase a).countP Q = (l.erase a).countP P := by
    refine List.countP_congr fun c inside => ?_
    obtain ⟨other, still⟩ := nodup.mem_erase_iff.mp inside
    rw [others c still other]
  rw [perm.countP_eq Q, perm.countP_eq P, List.countP_cons_of_pos after,
    List.countP_cons_of_neg (by rw [before]; exact Bool.false_ne_true), rest]

end Occurrences
