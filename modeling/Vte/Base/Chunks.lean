import Mathlib.Data.List.Pairwise
import Mathlib.Tactic.Common

/-!
Pieces of data at addresses: which of them meet, and what one after the other gives, with a filler between
them.
-/
namespace Chunks
variable {α : Type}

abbrev Chunk (α : Type) := Int × List α

def finish (c : Chunk α) : Int := c.1 + c.2.length

def Covers (c : Chunk α) (a : Int) : Prop := c.1 ≤ a ∧ a < finish c

def Meet (c d : Chunk α) : Prop := ∃ a, Covers c a ∧ Covers d a

def Holds (c : Chunk α) (a : Int) (b : α) : Prop := c.1 ≤ a ∧ c.2[(a - c.1).toNat]? = some b

def HoldsIn (cs : List (Chunk α)) (a : Int) (b : α) : Prop := ∃ c ∈ cs, Holds c a b

def Chained : Int → List (Chunk α) → Prop
  | _, [] => True
  | last, c :: cs => last ≤ c.1 ∧ Chained (finish c) cs

def fillGaps (fill : α) : Int → List (Chunk α) → List α
  | _, [] => []
  | last, c :: cs => List.replicate (c.1 - last).toNat fill ++ (c.2 ++ fillGaps fill (finish c) cs)

theorem meet_symm {c d : Chunk α} (meet : Meet c d) : Meet d c := by
  obtain ⟨a, first, second⟩ := meet
  exact ⟨a, second, first⟩

/-- Of two chunks in order, the first one ends before the second one starts, or they meet. -/
theorem apart_iff {c d : Chunk α} (order : c.1 ≤ d.1) (some_data : d.2 ≠ []) :
    ¬ Meet c d ↔ finish c ≤ d.1 := by
  have positive := List.length_pos_iff.mpr some_data
  constructor
  · intro apart
    by_contra late
    exact apart ⟨d.1, ⟨order, by omega⟩, Int.le_refl _, by rw [finish]; omega⟩
  · rintro before ⟨a, ⟨_, high⟩, low, _⟩
    omega

theorem chained_start {cs : List (Chunk α)} {last : Int} (chained : Chained last cs) :
    ∀ c ∈ cs, last ≤ c.1 := by
  induction cs generalizing last with
  | nil => simp
  | cons c cs ih =>
    obtain ⟨here, rest⟩ := chained
    intro d member
    rcases List.mem_cons.mp member with rfl | later
    · exact here
    · have behind := ih rest d later
      rw [finish] at behind
      omega

theorem chained_iff {cs : List (Chunk α)} (sorted : cs.Pairwise fun c d => c.1 ≤ d.1)
    (some_data : ∀ c ∈ cs, c.2 ≠ []) {last : Int} (start : ∀ c ∈ cs, last ≤ c.1) :
    Chained last cs ↔ cs.Pairwise fun c d => ¬ Meet c d := by
  induction cs generalizing last with
  | nil => simp [Chained]
  | cons c cs ih =>
    obtain ⟨first, rest⟩ := List.pairwise_cons.mp sorted
    have here := start c (by simp)
    have data : ∀ d ∈ cs, d.2 ≠ [] := fun d member => some_data d (List.mem_cons_of_mem c member)
    have apart : (∀ d ∈ cs, ¬ Meet c d) ↔ ∀ d ∈ cs, finish c ≤ d.1 :=
      forall₂_congr fun d member => apart_iff (first d member) (data d member)
    rw [Chained, List.pairwise_cons, apart]
    constructor
    · rintro ⟨_, chained⟩
      have behind := chained_start chained
      exact ⟨behind, (ih rest data behind).mp chained⟩
    · rintro ⟨behind, disjoint⟩
      exact ⟨here, (ih rest data behind).mpr disjoint⟩

section gaps
variable {fill : α} {cs : List (Chunk α)} {last : Int}

theorem holds_start {c : Chunk α} {a : Int} {b : α} (holds : Holds c a b) : c.1 ≤ a ∧ a < finish c := by
  obtain ⟨low, found⟩ := holds
  have inside := (List.getElem?_eq_some_iff.mp found).1
  rw [finish]
  omega

theorem fill_gaps_holds (chained : Chained last cs) {a : Int} {b : α} (holds : HoldsIn cs a b) :
    last ≤ a ∧ (fillGaps fill last cs)[(a - last).toNat]? = some b := by
  induction cs generalizing last with
  | nil =>
    obtain ⟨c, member, _⟩ := holds
    cases member
  | cons c cs ih =>
    obtain ⟨here, rest⟩ := chained
    obtain ⟨d, member, found⟩ := holds
    rw [fillGaps]
    rcases List.mem_cons.mp member with rfl | later
    · obtain ⟨low, high⟩ := holds_start found
      rw [finish] at high
      have place : (a - last).toNat - (d.1 - last).toNat = (a - d.1).toNat := by omega
      refine ⟨by omega, ?_⟩
      rw [List.getElem?_append_right (by rw [List.length_replicate]; omega), List.length_replicate, place,
        List.getElem?_append_left (by omega)]
      exact found.2
    · obtain ⟨behind, at_a⟩ := ih rest ⟨d, later, found⟩
      have place : (a - last).toNat - (c.1 - last).toNat - c.2.length = (a - finish c).toNat := by
        rw [finish] at behind ⊢
        omega
      rw [finish] at behind
      refine ⟨by omega, ?_⟩
      rw [List.getElem?_append_right (by rw [List.length_replicate]; omega), List.length_replicate,
        List.getElem?_append_right (by omega), place]
      exact at_a

theorem fill_gaps_fill (chained : Chained last cs) {i : Nat} (inside : i < (fillGaps fill last cs).length)
    (gap : ∀ b, ¬ HoldsIn cs (last + i) b) : (fillGaps fill last cs)[i]? = some fill := by
  induction cs generalizing last i with
  | nil => simp [fillGaps] at inside
  | cons c cs ih =>
    obtain ⟨here, rest⟩ := chained
    rw [fillGaps] at inside ⊢
    simp only [List.length_append, List.length_replicate] at inside
    by_cases before : i < (c.1 - last).toNat
    · rw [List.getElem?_append_left (by rw [List.length_replicate]; exact before),
        List.getElem?_replicate, if_pos before]
    · rw [List.getElem?_append_right (by rw [List.length_replicate]; omega), List.length_replicate]
      by_cases within : i - (c.1 - last).toNat < c.2.length
      · have place : (last + i - c.1).toNat = i - (c.1 - last).toNat := by omega
        have found : Holds c (last + i) c.2[i - (c.1 - last).toNat] := by
          refine ⟨by omega, ?_⟩
          rw [place]
          exact List.getElem?_eq_getElem within
        exact absurd ⟨c, by simp, found⟩ (gap _)
      · rw [List.getElem?_append_right (by omega)]
        have address : finish c + ((i - (c.1 - last).toNat - c.2.length : Nat) : Int) = last + i := by
          rw [finish]
          omega
        refine ih rest (by omega) fun b holds => ?_
        obtain ⟨d, member, found⟩ := holds
        rw [address] at found
        exact gap b ⟨d, List.mem_cons_of_mem c member, found⟩

theorem fill_gaps_end (chained : Chained last cs) (some_data : ∀ c ∈ cs, c.2 ≠ []) (some_chunk : cs ≠ []) :
    ∃ b, HoldsIn cs (last + (fillGaps fill last cs).length - 1) b := by
  induction cs generalizing last with
  | nil => exact absurd rfl some_chunk
  | cons c cs ih =>
    obtain ⟨here, rest⟩ := chained
    have positive := List.length_pos_iff.mpr (some_data c (by simp))
    by_cases alone : cs = []
    · subst alone
      have place : (last + ((fillGaps fill last [c]).length : Int) - 1 - c.1).toNat = c.2.length - 1 := by
        simp only [fillGaps, List.length_append, List.length_replicate, List.length_nil]
        omega
      refine ⟨c.2[c.2.length - 1], c, by simp, ?_, ?_⟩
      · simp only [fillGaps, List.length_append, List.length_replicate, List.length_nil]
        omega
      · rw [place]
        exact List.getElem?_eq_getElem (by omega)
    · obtain ⟨b, d, member, found⟩ :=
        ih rest (fun d member => some_data d (List.mem_cons_of_mem c member)) alone
      have address : finish c + ((fillGaps fill (finish c) cs).length : Int) - 1 =
          last + ((fillGaps fill last (c :: cs)).length : Int) - 1 := by
        simp only [fillGaps, List.length_append, List.length_replicate]
        rw [finish]
        omega
      rw [address] at found
      exact ⟨b, d, List.mem_cons_of_mem c member, found⟩

end gaps
end Chunks
