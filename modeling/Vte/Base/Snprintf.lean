import Vte.Base.CString
import Vte.Base.Memory

/-!
`snprintf` of one text into a part of memory: it keeps within the size given, ends what it writes with
a NUL and returns the length of the whole text.
-/
namespace Snprintf
open Text CString Memory

/-- The memory after the call and what it returns; none when it writes outside the memory. -/
def snprintf (mem : Str) (pos size : Nat) (s : Str) : Option (Str × Nat) :=
  if size = 0 then some (mem, s.length)
  else (store mem pos (s.take (size - 1) ++ [nul])).map (·, s.length)

/-- `base` is the text that the call appends to; empty for a call at the start of a buffer. -/
theorem snprintf_append {mem base s : Str} {pos size : Nat} (here : ∃ tail, mem.drop pos = base ++ tail)
    (plain_base : nul ∉ base) (plain : nul ∉ s) (some_size : 0 < size)
    (room : pos + base.length + size ≤ mem.length) :
    ∃ later, snprintf mem (pos + base.length) size s = some (later, s.length) ∧
      At later pos (base ++ s.take (size - 1)) ∧ Frame mem later (pos + base.length) size := by
  have cells : (s.take (size - 1) ++ [nul]).length ≤ size := by
    simp only [List.length_append, List.length_take, List.length_singleton]
    omega
  obtain ⟨later, stored, frame, _⟩ :=
    store_some mem (pos + base.length) (s.take (size - 1) ++ [nul]) (by omega)
  refine ⟨later, by rw [snprintf, if_neg (by omega), stored]; rfl, ?_,
    frame_step (k := 0) (frame_refl mem _ _) frame (Nat.le_refl _) (by omega)⟩
  obtain ⟨tail, start⟩ := here
  rw [store, if_pos (by omega), Option.some.injEq] at stored
  have before : (mem.take (pos + base.length)).drop pos = base := by
    rw [List.drop_take, start, Nat.add_sub_cancel_left, List.take_left]
  have size_before : pos ≤ (mem.take (pos + base.length)).length := by
    rw [List.length_take]
    omega
  refine ⟨?_, mem.drop (pos + base.length + (s.take (size - 1) ++ [nul]).length), ?_⟩
  · intro found
    rcases List.mem_append.mp found with early | late
    · exact plain_base early
    · exact plain (List.mem_of_mem_take late)
  · rw [← stored, List.append_assoc, List.drop_append_of_le_length size_before, before]
    simp

end Snprintf
