import Mathlib.Data.List.Induction

/-!
A byte stream laid out as consecutive blocks. Any suffix of the stream is a proper tail
of one block followed by whole blocks, which is what a reader that refills a window from
the end of the stream has to stitch together.
-/
namespace Blocks
variable {α β : Type} (f : β → List α)

/-- A proper tail of the last block of `bs`, or nothing. -/
def Tail (bs : List β) (frag : List α) : Prop :=
  frag = [] ∨ ∃ init last, bs = init ++ [last] ∧ frag <:+ f last ∧ frag.length < (f last).length

theorem suffix_split (bs : List β) :
    ∀ m, m ≤ (bs.flatMap f).length → ∃ pre post frag, bs = pre ++ post ∧
      (bs.flatMap f).drop ((bs.flatMap f).length - m) = frag ++ post.flatMap f ∧
      (pre.flatMap f).length = (bs.flatMap f).length - m + frag.length ∧ Tail f pre frag := by
  induction bs using List.reverseRecOn with
  | nil =>
    intro m hm
    exact ⟨[], [], [], rfl, by simp, by simp, Or.inl rfl⟩
  | append_singleton bs b ih =>
    intro m hm
    simp only [List.flatMap_append, List.flatMap_singleton, List.length_append] at hm ⊢
    by_cases inner : m < (f b).length
    · refine ⟨bs ++ [b], [], (f b).drop ((f b).length - m), by simp, ?_, ?_, Or.inr ?_⟩
      · have past : (bs.flatMap f).length + (f b).length - m = (bs.flatMap f).length + ((f b).length - m) := by omega
        rw [past, List.drop_append]
        simp
      · simp
        omega
      · exact ⟨bs, b, rfl, List.drop_suffix _ _, by simp; omega⟩
    · obtain ⟨pre, post, frag, split, suffix, size, tail⟩ := ih (m - (f b).length) (by omega)
      refine ⟨pre, post ++ [b], frag, by simp [split], ?_, by omega, tail⟩
      have before : (bs.flatMap f).length + (f b).length - m = (bs.flatMap f).length - (m - (f b).length) := by omega
      rw [before, List.drop_append_of_le_length (by omega), suffix]
      simp

theorem tail_suffix {bs : List β} {frag : List α} (tail : Tail f bs frag) :
    frag <:+ bs.flatMap f := by
  rcases tail with empty | ⟨init, last, split, suffix, _⟩
  · simp [empty]
  · rw [split, List.flatMap_append, List.flatMap_singleton]
    exact suffix.trans (List.suffix_append _ _)

theorem tail_whole {bs : List β} {frag : List α} (tail : Tail f bs frag)
    (inhabited : ∀ b ∈ bs, f b ≠ []) (whole : (bs.flatMap f).length ≤ frag.length) : bs = [] := by
  rcases tail with empty | ⟨init, last, split, _, proper⟩
  · cases bs with
    | nil => rfl
    | cons b bs =>
      have some := List.length_pos_iff.mpr (inhabited b (by simp))
      simp [empty] at whole
      exact absurd whole.1 (inhabited b (by simp))
  · rw [split] at whole
    simp at whole
    omega

theorem flat_length_set (bs : List β) (i : Nat) (old new : β) (at_i : bs[i]? = some old)
    (same : (f new).length = (f old).length) :
    ((bs.set i new).flatMap f).length = (bs.flatMap f).length := by
  induction bs generalizing i with
  | nil => simp at at_i
  | cons b bs ih =>
    cases i with
    | zero =>
      obtain rfl : b = old := by simpa using at_i
      simp [same]
    | succ i =>
      have rest := ih i (by simpa using at_i)
      simp only [List.set_cons_succ, List.flatMap_cons, List.length_append, rest]

theorem split_at (bs : List β) (i : Nat) (b : β) (at_i : bs[i]? = some b) :
    bs = bs.take i ++ b :: bs.drop (i + 1) := by
  obtain ⟨inside, rfl⟩ := List.getElem?_eq_some_iff.mp at_i
  rw [← List.drop_eq_getElem_cons inside, List.take_append_drop]

end Blocks
