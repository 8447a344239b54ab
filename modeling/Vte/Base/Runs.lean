import Mathlib.Data.List.SplitBy
import Mathlib.Data.List.Destutter

/-!
The maximal runs of a list whose neighbours agree on a key, and the heads of these runs.
A pass over the list that remembers the head of the current run produces the same heads.
-/
namespace Runs
variable {α β : Type} [DecidableEq β] (key : α → β)

def heads (l : List α) : List α :=
  (l.splitBy (fun a b => decide (key a = key b))).filterMap List.head?

/-- The heads that follow, where `a` heads the current run. -/
def following (a : α) (l : List α) : List α := l.destutter' (fun a b => key a ≠ key b) a

theorem following_nil (a : α) : following key a [] = [a] := rfl

theorem following_same {a b : α} (same : key a = key b) (l : List α) :
    following key a (b :: l) = following key a l :=
  List.destutter'_cons_neg l (not_not.mpr same)

theorem following_new {a b : α} (new : key a ≠ key b) (l : List α) :
    following key a (b :: l) = a :: following key b l :=
  List.destutter'_cons_pos l new

theorem loop_heads (l : List α) : ∀ (b head : α) (group : List α) (acc : List (List α)),
    (b :: group).getLast? = some head → key head = key b →
    (List.splitBy.loop (fun a b => decide (key a = key b)) l b group acc).filterMap List.head? =
      acc.reverse.filterMap List.head? ++ following key head l := by
  induction l with
  | nil =>
    intro b head group acc last _
    have first : (b :: group).reverse.head? = some head := by
      rw [List.head?_reverse, last]
    rw [List.splitBy.loop, List.reverse_cons, List.filterMap_append, List.filterMap_cons, first]
    rfl
  | cons c l ih =>
    intro b head group acc last same
    rw [List.splitBy.loop]
    by_cases more : key b = key c
    · simp only [more, decide_true]
      rw [ih c head (b :: group) acc (by simpa using last) (same.trans more), following_same key (same.trans more)]
    · simp only [more, decide_false]
      have first : (b :: group).reverse.head? = some head := by
        rw [List.head?_reverse, last]
      have new : key head ≠ key c := fun equal => more (same.symm.trans equal)
      rw [ih c c [] _ rfl rfl, following_new key new, List.reverse_cons (a := (b :: group).reverse),
        List.filterMap_append, List.filterMap_cons, first]
      simp

theorem heads_cons (a : α) (l : List α) : heads key (a :: l) = following key a l :=
  loop_heads key l a a [] [] rfl rfl

end Runs
