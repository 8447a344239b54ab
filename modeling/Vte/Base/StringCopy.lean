import Vte.Base.CString
import Vte.Base.Memory

/-!
`strncpy`, and strings that are put together from pieces that it copies.
-/
namespace StringCopy
open Text CString Memory

def text (cells : Str) : Str := cells.takeWhile (· != nul)

/-- The cells of the destination after a copy of `n`: the text, and NULs behind it. -/
def copied (cells : Str) (n : Nat) : Str := (text cells).take n ++ List.replicate (n - ((text cells).take n).length) nul

def strncpy (dst : Str) (pos : Nat) (src : Str) (n : Nat) : Option Str := store dst pos (copied src n)

def Alike (a b : Str) : Prop := ∀ behind, text (a ++ behind) = text (b ++ behind)

section texts
variable {a b s mem : Str} {n : Nat}

theorem text_plain (plain : nul ∉ s) (behind : Str) : text (s ++ behind) = s ++ text behind := by
  refine List.takeWhile_append_of_pos fun c found => ?_
  rw [bne_iff_ne]
  rintro rfl
  exact plain found

theorem text_nul (behind : Str) : text (nul :: behind) = [] := by simp [text]

theorem plain_text (cells : Str) : nul ∉ text cells := by
  intro found
  simpa using List.mem_takeWhile_imp found

theorem text_ended (ended : nul ∈ a) (behind : Str) : text (a ++ behind) = text a := by
  obtain ⟨first, rest, parts, plain⟩ := List.eq_append_cons_of_mem ended
  rw [parts, List.append_assoc, List.cons_append, text_plain plain, text_plain plain, text_nul, text_nul]

theorem copied_length (cells : Str) (n : Nat) : (copied cells n).length = n := by
  rw [copied, List.length_append, List.length_replicate]
  exact Nat.add_sub_cancel' (List.length_take_le _ _)

theorem alike_append (alike : Alike a b) {c d : Str} (pieces : Alike c d) : Alike (a ++ c) (b ++ d) := by
  intro behind
  rw [List.append_assoc, alike, List.append_assoc]
  by_cases ended : nul ∈ b
  · rw [text_ended ended, text_ended ended]
  · rw [text_plain ended, text_plain ended, pieces]

theorem copied_alike (piece older : Str) : Alike (copied (piece ++ older) piece.length) piece := by
  intro behind
  have front : (text (piece ++ older)).take piece.length = text piece := by
    rw [text, List.take_takeWhile, List.take_left]
    rfl
  rw [copied, front]
  by_cases ended : nul ∈ piece
  · obtain ⟨first, rest, rfl, plain⟩ := List.eq_append_cons_of_mem ended
    rw [text_ended ended, text_plain plain, text_nul, List.append_nil]
    have some_nul : (first ++ nul :: rest).length - first.length = rest.length + 1 := by
      rw [List.length_append, List.length_cons]
      omega
    rw [some_nul, List.replicate_succ, List.append_assoc, List.cons_append, text_plain plain, text_nul, List.append_nil]
  · have whole : text piece = piece := by
      have plain := text_plain ended []
      rwa [List.append_nil, text, text, List.takeWhile_nil, List.append_nil] at plain
    rw [whole, Nat.sub_self, List.replicate_zero, List.append_nil]

theorem alike_text (alike : Alike a b) : text a = text b := by
  have same := alike []
  rwa [List.append_nil, List.append_nil] at same

theorem text_at (short : (text mem).length < mem.length) : At mem 0 (text mem) := by
  refine ⟨plain_text mem, (mem.dropWhile (· != nul)).tail, ?_⟩
  have parts : text mem ++ mem.dropWhile (· != nul) = mem := List.takeWhile_append_dropWhile
  have lengths := congrArg List.length parts
  rw [List.length_append] at lengths
  have some_rest : mem.dropWhile (· != nul) ≠ [] := by
    intro empty
    rw [empty, List.length_nil] at lengths
    omega
  have ends : (mem.dropWhile (· != nul)).head some_rest = nul := by
    simpa using List.head_dropWhile_not (· != nul) some_rest
  rw [List.drop_zero]
  conv_lhs => rw [← parts, ← List.cons_head_tail some_rest, ends]

theorem strncpy_cleared (plain : nul ∉ s) (room : s.length < n) :
    ∃ later, strncpy (List.replicate n nul) 0 s s.length = some later ∧ cstr later 0 = some s := by
  have whole : copied s s.length = s := by
    have same := text_plain plain []
    rw [List.append_nil, text, text, List.takeWhile_nil, List.append_nil] at same
    rw [copied, text, same, List.take_length, Nat.sub_self, List.replicate_zero, List.append_nil]
  have fits : 0 + s.length ≤ (List.replicate n nul).length := by
    rw [List.length_replicate]
    omega
  refine ⟨s ++ List.replicate (n - s.length) nul, ?_, at_cstr ⟨plain, List.replicate (n - s.length - 1) nul, ?_⟩⟩
  · rw [strncpy, whole, store, if_pos fits, List.take_zero, List.nil_append, Nat.zero_add, List.drop_replicate]
  · obtain ⟨k, rest⟩ : ∃ k, n - s.length = k + 1 := ⟨n - s.length - 1, by omega⟩
    rw [List.drop_zero, rest, List.replicate_succ, Nat.add_sub_cancel]

end texts
end StringCopy
