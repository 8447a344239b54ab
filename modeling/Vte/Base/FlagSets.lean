import Mathlib.Data.BitVec

/-!
Machine words as sets of flags: the greedy decomposition of a word along a list of flags, which may
share bits, and the order of the list under which it leaves nothing of a union of them.
-/
namespace FlagSets
variable {w : Nat} {α : Type}

def Within (f g : BitVec w) : Prop := ∀ i, f.getLsbD i = true → g.getLsbD i = true

def Apart (f g : BitVec w) : Prop := ∀ i, f.getLsbD i = true → g.getLsbD i = false

def union (fs : List (BitVec w)) : BitVec w := fs.foldr (· ||| ·) 0#w

def peel (flag : α → BitVec w) : List α → BitVec w → List α × BitVec w
  | [], bits => ([], bits)
  | e :: es, bits =>
    if bits &&& flag e = flag e then
      (e :: (peel flag es (bits &&& ~~~flag e)).1, (peel flag es (bits &&& ~~~flag e)).2)
    else peel flag es bits

section lists
variable {β : Type} {R : List α → α → Prop} {R' : List β → β → Prop}

def EachAfter (R : List α → α → Prop) (before : List α) : List α → Prop
  | [] => True
  | a :: as => R before a ∧ EachAfter R (before ++ [a]) as

instance EachAfter.decidable [∀ before a, Decidable (R before a)] (before as : List α) :
    Decidable (EachAfter R before as) :=
  match as with
  | [] => isTrue trivial
  | a :: as =>
    have := EachAfter.decidable (before ++ [a]) as
    inferInstanceAs (Decidable (R before a ∧ EachAfter R (before ++ [a]) as))

theorem each_after_filter_map {keep : α → Bool} {g : α → β}
    (carries : ∀ before a, keep a = true → R before a →
      R' ((before.filter keep).map g) (g a)) {before as : List α} (each : EachAfter R before as) :
    EachAfter R' ((before.filter keep).map g) ((as.filter keep).map g) := by
  induction as generalizing before with
  | nil => trivial
  | cons a as ih =>
    have rest := ih each.2
    rw [List.filter_append, List.map_append] at rest
    cases kept : keep a with
    | true =>
      rw [List.filter_cons_of_pos kept, List.map_cons]
      rw [List.filter_cons_of_pos kept] at rest
      exact ⟨carries before a kept each.1, rest⟩
    | false =>
      rw [List.filter_cons_of_neg (by simp [kept])]
      rw [List.filter_cons_of_neg (by simp [kept])] at rest
      simpa using rest

end lists

section sets
variable {f g r bits : BitVec w} {fs before : List (BitVec w)}

theorem within_iff : bits &&& f = f ↔ Within f bits := by
  constructor
  · intro same i set
    rw [← same, BitVec.getLsbD_and, Bool.and_eq_true] at set
    exact set.1
  · intro inside
    apply BitVec.eq_of_getLsbD_eq
    intro i _
    rw [BitVec.getLsbD_and]
    cases set : f.getLsbD i with
    | false => simp
    | true => simp [inside i set]

theorem apart_iff : f &&& g = 0#w ↔ Apart f g := by
  constructor
  · intro none i set
    have both := congrArg (fun word => word.getLsbD i) none
    simpa [set] using both
  · intro apart
    apply BitVec.eq_of_getLsbD_eq
    intro i _
    rw [BitVec.getLsbD_and, BitVec.getLsbD_zero]
    cases set : f.getLsbD i with
    | false => simp
    | true => simp [apart i set]

theorem union_bit {i : Nat} : (union fs).getLsbD i = true ↔ ∃ f ∈ fs, f.getLsbD i = true := by
  induction fs with
  | nil => simp [union]
  | cons f fs ih =>
    have unfolded : union (f :: fs) = f ||| union fs := rfl
    rw [unfolded, BitVec.getLsbD_or, Bool.or_eq_true, ih]
    simp

theorem within_union (mem : f ∈ fs) : Within f (union fs) := fun _ set => union_bit.mpr ⟨f, mem, set⟩

theorem apart_union (apart : ∀ g ∈ fs, Apart f g) : Apart f (union fs) := by
  intro i set
  by_contra other
  obtain ⟨g, mem, shared⟩ := union_bit.mp (by simpa using other)
  rw [apart g mem i set] at shared
  cases shared

theorem removed_bit {i : Nat} (set : (r &&& ~~~f).getLsbD i = true) :
    r.getLsbD i = true ∧ f.getLsbD i = false := by
  rw [BitVec.getLsbD_and, BitVec.getLsbD_not] at set
  simp only [Bool.and_eq_true, Bool.not_eq_true', decide_eq_true_eq] at set
  exact ⟨set.1, set.2.2⟩

theorem kept_bit {i : Nat} (set : r.getLsbD i = true) (free : f.getLsbD i = false) :
    (r &&& ~~~f).getLsbD i = true := by
  have small : i < w := BitVec.lt_of_getLsbD set
  rw [BitVec.getLsbD_and, BitVec.getLsbD_not, set, free]
  simp [small]

theorem peel_union (flag : α → BitVec w) (es : List α) :
    ∀ bits, union ((peel flag es bits).1.map flag) ||| (peel flag es bits).2 = bits := by
  induction es with
  | nil => simp [peel, union]
  | cons e es ih =>
    intro bits
    rw [peel]
    split
    · rename_i whole
      have rest := ih (bits &&& ~~~flag e)
      rw [List.map_cons]
      have unfolded (fs : List (BitVec w)) : union (flag e :: fs) = flag e ||| union fs := rfl
      rw [unfolded, BitVec.or_assoc, rest]
      apply BitVec.eq_of_getLsbD_eq
      intro i small
      have inside := within_iff.mp whole i
      rw [BitVec.getLsbD_or, BitVec.getLsbD_and, BitVec.getLsbD_not]
      cases set : (flag e).getLsbD i with
      | false => simp [small]
      | true => simp [inside set]
    · exact ih bits

theorem peel_sublist (flag : α → BitVec w) (es : List α) :
    ∀ bits, (peel flag es bits).1.Sublist es := by
  induction es with
  | nil => simp [peel]
  | cons e es ih =>
    intro bits
    rw [peel]
    split
    · exact (ih _).cons_cons e
    · exact (ih _).cons e

/-- A flag after others is a union of some of them, or is apart from each of them or inside it. -/
def Placed (before : List (BitVec w)) (f : BitVec w) : Prop :=
  (∀ i, f.getLsbD i = true → ∃ g ∈ before, Within g f ∧ g.getLsbD i = true) ∨ ∀ g ∈ before, Apart f g ∨ Within f g

/-- What is left of a word when the flags before have been taken out. -/
structure Peeled (bits : BitVec w) (before : List (BitVec w)) (r : BitVec w) : Prop where
  within : Within r bits
  gone : ∀ f ∈ before, Within f bits → Apart f r
  whole : ∀ f, (∀ g ∈ before, Apart f g ∨ Within f g) → Within f bits → Within f r ∨ Apart f r

theorem peeled_start (bits : BitVec w) : Peeled bits [] bits where
  within _ set := set
  gone _ mem := nomatch mem
  whole _ _ inside := Or.inl inside

theorem peeled_gone (peeled : Peeled bits before r) (placed : Placed before f)
    (inside : Within f bits) : Within f r ∨ Apart f r := by
  rcases placed with covered | primitive
  · right
    intro i set
    obtain ⟨g, mem, below, shared⟩ := covered i set
    exact peeled.gone g mem (fun j set => inside j (below j set)) i shared
  · exact peeled.whole f primitive inside

theorem peeled_taken (peeled : Peeled bits before r) :
    Peeled bits (before ++ [f]) (r &&& ~~~f) where
  within i set := peeled.within i (removed_bit set).1
  gone g mem inside i set := by
    by_contra left
    have kept := removed_bit (by simpa using left)
    rcases List.mem_append.mp mem with mem | mem
    · rw [peeled.gone g mem inside i set] at kept
      exact absurd kept.1 (by simp)
    · rw [List.mem_singleton.mp mem] at set
      rw [set] at kept
      exact absurd kept.2 (by simp)
  whole g primitive inside := by
    have earlier := peeled.whole g (fun g' mem => primitive g' (by simp [mem])) inside
    rcases primitive f (by simp) with apart | below
    · rcases earlier with all | none
      · exact Or.inl fun i set => kept_bit (all i set) (apart i set)
      · right
        intro i set
        by_contra left
        have kept := (removed_bit (by simpa using left)).1
        rw [none i set] at kept
        cases kept
    · right
      intro i set
      by_contra left
      have kept := (removed_bit (by simpa using left)).2
      rw [below i set] at kept
      cases kept

theorem peeled_left (peeled : Peeled bits before r) (placed : Placed before f)
    (left : ¬ Within f r) : Peeled bits (before ++ [f]) r where
  within := peeled.within
  gone g mem inside := by
    rcases List.mem_append.mp mem with mem | mem
    · exact peeled.gone g mem inside
    · rw [List.mem_singleton.mp mem] at inside ⊢
      exact (peeled_gone peeled placed inside).resolve_left left
  whole g primitive inside := peeled.whole g (fun g' mem => primitive g' (by simp [mem])) inside

theorem peel_peeled (flag : α → BitVec w) (es : List α) : ∀ {before : List (BitVec w)} {r : BitVec w},
    EachAfter Placed before (es.map flag) → Peeled bits before r →
      Peeled bits (before ++ es.map flag) (peel flag es r).2 := by
  induction es with
  | nil =>
    intro before r _ peeled
    simpa [peel] using peeled
  | cons e es ih =>
    intro before r placed peeled
    rw [List.map_cons, List.append_cons, peel]
    split
    · exact ih placed.2 (peeled_taken peeled)
    · rename_i part
      exact ih placed.2 (peeled_left peeled placed.1 fun whole => part (within_iff.mpr whole))

theorem peel_rest (flag : α → BitVec w) (es : List α) (placed : EachAfter Placed [] (es.map flag))
    (covered : ∀ i, bits.getLsbD i = true →
      ∃ f ∈ es.map flag, Within f bits ∧ f.getLsbD i = true) : (peel flag es bits).2 = 0#w := by
  have peeled := peel_peeled flag es placed (peeled_start bits)
  apply BitVec.eq_of_getLsbD_eq
  intro i _
  rw [BitVec.getLsbD_zero]
  by_contra left
  have set : (peel flag es bits).2.getLsbD i = true := by simpa using left
  obtain ⟨f, mem, inside, shared⟩ := covered i (peeled.within i set)
  rw [peeled.gone f mem inside i shared] at set
  cases set

end sets
end FlagSets
