import Mathlib.Data.List.Basic

/-!
Packets of one size, one after the other in a stream: where what has been read from the stream ends.
-/
namespace Packets
variable {α : Type} {size : Nat} {ps got sent : List (List α)} {rest part : List α}

def Sized (size : Nat) (ps : List (List α)) : Prop := ∀ p ∈ ps, p.length = size

theorem sized_snoc {p : List α} (sized : Sized size ps) (fits : p.length = size) : Sized size (ps ++ [p]) := by
  intro q member
  rcases List.mem_append.mp member with before | last
  · exact sized q before
  · rw [List.mem_singleton.mp last, fits]

theorem flatten_length (sized : Sized size ps) : ps.flatten.length = ps.length * size := by
  induction ps with
  | nil => simp
  | cons p ps ih =>
    obtain ⟨first, later⟩ := List.forall_mem_cons.mp sized
    rw [List.flatten_cons, List.length_append, first, ih later, List.length_cons, Nat.succ_mul, Nat.add_comm]

/-- Whole packets taken from a stream that ends within a packet are those at its front. -/
theorem taken (got_sized : Sized size got) (sent_sized : Sized size sent)
    (short : part.length < size) (stream : got.flatten ++ rest = sent.flatten ++ part) :
    got <+: sent ∧ rest = (sent.drop got.length).flatten ++ part := by
  induction got generalizing sent with
  | nil => exact ⟨List.nil_prefix, stream⟩
  | cons p got ih =>
    obtain ⟨first, later⟩ := List.forall_mem_cons.mp got_sized
    cases sent with
    | nil =>
      have lengths := congrArg List.length stream
      simp only [List.flatten_cons, List.flatten_nil, List.length_append, List.nil_append, first] at lengths
      omega
    | cons q sent =>
      obtain ⟨first', later'⟩ := List.forall_mem_cons.mp sent_sized
      rw [List.flatten_cons, List.flatten_cons, List.append_assoc, List.append_assoc] at stream
      obtain ⟨rfl, tails⟩ := List.append_inj stream (first.trans first'.symm)
      obtain ⟨front, left⟩ := ih later later' tails
      exact ⟨List.cons_prefix_cons.mpr ⟨rfl, front⟩, left⟩

/-- What is left of a stream of whole packets is empty, or has a whole packet at its front. -/
theorem left_whole (sized : Sized size ps) (left : ps.flatten ≠ []) : size ≤ ps.flatten.length := by
  rw [flatten_length sized]
  cases ps with
  | nil => exact absurd rfl left
  | cons p ps =>
    rw [List.length_cons, Nat.succ_mul]
    omega

end Packets
