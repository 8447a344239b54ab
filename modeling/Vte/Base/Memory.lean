import Mathlib.Data.List.Basic

/-!
A block of memory as a list: parts of it are read, written and copied by position and length; an
access outside the block, or a copy onto itself, gives nothing.
-/
namespace Memory
variable {α : Type}

def load (mem : List α) (pos n : Nat) : Option (List α) :=
  if pos + n ≤ mem.length then some ((mem.drop pos).take n) else none

def store (mem : List α) (pos : Nat) (cells : List α) : Option (List α) :=
  if pos + cells.length ≤ mem.length then
    some (mem.take pos ++ cells ++ mem.drop (pos + cells.length))
  else none

def copy (mem : List α) (dst src n : Nat) : Option (List α) :=
  if src + n ≤ dst ∨ dst + n ≤ src then do
    let cells ← load mem src n
    store mem dst cells
  else none

/-- The results of `n` reads, none when one of them gives nothing. -/
def gather (read : Nat → Option α) (n : Nat) : Option (List α) := (List.range n).mapM read

/-- The `n` cells from `pos` on are `cells`. -/
def Holds (mem : List α) (pos n : Nat) (cells : Nat → Option α) : Prop :=
  ∀ i, i < n → mem[pos + i]? = cells i

/-- `later` differs from `mem` at most in the `n` cells from `pos` on. -/
structure Frame (mem later : List α) (pos n : Nat) : Prop where
  length : later.length = mem.length
  outside : ∀ k, k < pos ∨ pos + n ≤ k → later[k]? = mem[k]?

section gather
variable {read : Nat → Option α} {n : Nat}

theorem gather_succ (read : Nat → Option α) (n : Nat) :
    gather read (n + 1) = (gather read n).bind fun cells => (read n).map fun c => cells ++ [c] := by
  rw [gather, List.range_succ, List.mapM_append, gather]
  cases (List.range n).mapM read with
  | none => rfl
  | some cells => cases last : read n <;> simp [last]

theorem gather_some (read : Nat → Option α) (n : Nat) (defined : ∀ i < n, ∃ c, read i = some c) :
    ∃ cells, gather read n = some cells ∧ cells.length = n ∧ ∀ i < n, cells[i]? = read i := by
  induction n with
  | zero => exact ⟨[], rfl, rfl, fun i low => absurd low (by omega)⟩
  | succ n ih =>
    obtain ⟨cells, before, size, same⟩ := ih fun i low => defined i (by omega)
    obtain ⟨c, last⟩ := defined n (by omega)
    refine ⟨cells ++ [c], ?_, by simp [size], ?_⟩
    · rw [gather_succ, before, last]
      rfl
    · intro i low
      by_cases early : i < n
      · rw [List.getElem?_append_left (by omega)]
        exact same i early
      · obtain rfl : i = n := by omega
        rw [List.getElem?_append_right (by omega), size, Nat.sub_self, last]
        rfl

theorem gather_none {i : Nat} (low : i < n) (undefined : read i = none) :
    gather read n = none := by
  induction n with
  | zero => omega
  | succ n ih =>
    rw [gather_succ]
    by_cases early : i < n
    · rw [ih early]
      rfl
    · obtain rfl : i = n := by omega
      rw [undefined]
      cases gather read i <;> rfl

end gather

section laws
variable {mem later last : List α} {pos n : Nat}

theorem load_some (inside : pos + n ≤ mem.length) :
    ∃ cells, load mem pos n = some cells ∧ cells.length = n ∧ ∀ i, i < n → cells[i]? = mem[pos + i]? := by
  refine ⟨_, if_pos inside, ?_, ?_⟩
  · rw [List.length_take, List.length_drop]
    omega
  · intro i low
    rw [List.getElem?_take_of_lt low, List.getElem?_drop]

theorem store_some (mem : List α) (pos : Nat) (cells : List α)
    (inside : pos + cells.length ≤ mem.length) :
    ∃ later, store mem pos cells = some later ∧ Frame mem later pos cells.length ∧
      Holds later pos cells.length fun i => cells[i]? := by
  have before : (mem.take pos).length = pos := by
    rw [List.length_take]
    omega
  refine ⟨_, if_pos inside, ⟨?_, ?_⟩, ?_⟩
  · simp only [List.length_append, List.length_drop, before]
    omega
  · intro k apart
    rcases apart with low | high
    · rw [List.append_assoc, List.getElem?_append_left (by omega), List.getElem?_take_of_lt low]
    · rw [List.getElem?_append_right (by rw [List.length_append]; omega), List.getElem?_drop,
        List.length_append, before]
      congr 1
      omega
  · intro i low
    rw [List.append_assoc, List.getElem?_append_right (by omega), before, Nat.add_sub_cancel_left,
      List.getElem?_append_left low]

theorem holds_congr {f g : Nat → Option α} (holds : Holds mem pos n f)
    (same : ∀ i, i < n → f i = g i) : Holds mem pos n g :=
  fun i low => (holds i low).trans (same i low)

theorem copy_some (mem : List α) (dst src n : Nat) (apart : src + n ≤ dst ∨ dst + n ≤ src)
    (inside : dst + n ≤ mem.length) (source : src + n ≤ mem.length) :
    ∃ later, copy mem dst src n = some later ∧ Frame mem later dst n ∧ Holds later dst n fun i => mem[src + i]? := by
  obtain ⟨cells, loaded, size, values⟩ := load_some source
  obtain ⟨later, stored, frame, holds⟩ := store_some mem dst cells (by omega)
  rw [size] at frame holds
  refine ⟨later, ?_, frame, holds_congr holds values⟩
  rw [copy, if_pos apart, loaded]
  exact stored

theorem load_eq_iff {other : List α} {left right : List α} {pos' : Nat}
    (first : load mem pos n = some left) (second : load other pos' n = some right) :
    left = right ↔ ∀ i, i < n → mem[pos + i]? = other[pos' + i]? := by
  have in_left : pos + n ≤ mem.length := by
    by_contra past
    rw [load, if_neg past] at first
    cases first
  have in_right : pos' + n ≤ other.length := by
    by_contra past
    rw [load, if_neg past] at second
    cases second
  obtain ⟨cells, loaded, size, values⟩ := load_some in_left
  obtain ⟨cells', loaded', size', values'⟩ := load_some in_right
  obtain rfl : cells = left := Option.some.inj (loaded.symm.trans first)
  obtain rfl : cells' = right := Option.some.inj (loaded'.symm.trans second)
  constructor
  · rintro rfl i low
    rw [← values i low, values' i low]
  · intro same
    apply List.ext_getElem?
    intro i
    by_cases low : i < n
    · rw [values i low, values' i low, same i low]
    · rw [List.getElem?_eq_none (by omega), List.getElem?_eq_none (by omega)]

theorem load_middle (before cells after : List α) :
    load (before ++ cells ++ after) before.length cells.length = some cells := by
  rw [load, if_pos (by simp), List.append_assoc, List.drop_left, List.take_left]

theorem store_middle (before cells after : List α) {old : List α} (same : cells.length = old.length) :
    store (before ++ old ++ after) before.length cells = some (before ++ cells ++ after) := by
  rw [store, if_pos (by simp [same]), List.append_assoc before old, List.take_left, ← List.drop_drop,
    List.drop_left, same, List.drop_left]

theorem store_behind {front : List α} (cells : List α) (starts : front <+: mem)
    (room : front.length + cells.length ≤ mem.length) :
    ∃ later, store mem front.length cells = some later ∧ later.length = mem.length ∧ front ++ cells <+: later := by
  obtain ⟨tail, rfl⟩ := starts
  rw [List.length_append] at room
  refine ⟨front ++ cells ++ tail.drop cells.length, ?_, ?_, List.prefix_append _ _⟩
  · rw [store, if_pos (by rw [List.length_append]; exact room), List.take_left, ← List.drop_drop, List.drop_left]
  · simp only [List.length_append, List.length_drop]
    omega

theorem store_outside {cells : List α} (wide : mem.length < pos + cells.length) :
    store mem pos cells = none :=
  if_neg (by omega)

theorem frame_refl (mem : List α) (pos n : Nat) : Frame mem mem pos n :=
  ⟨rfl, fun _ _ => rfl⟩

theorem frame_step {at_most at_most' k : Nat} (first : Frame mem later pos at_most)
    (second : Frame later last (pos + k) at_most') (left : at_most ≤ n)
    (right : k + at_most' ≤ n) : Frame mem last pos n := by
  refine ⟨by rw [second.length, first.length], ?_⟩
  intro j apart
  rw [second.outside j (by omega), first.outside j (by omega)]

theorem holds_append {k : Nat} {cells : Nat → Option α} (first : Holds mem pos n cells)
    (change : Frame mem later (pos + n) k)
    (second : Holds later (pos + n) k fun i => cells (n + i)) :
    Holds later pos (n + k) cells := by
  intro i low
  by_cases early : i < n
  · rw [change.outside _ (by omega), first i early]
  · have next := second (i - n) (by omega)
    simp only [show pos + n + (i - n) = pos + i by omega, show n + (i - n) = i by omega] at next
    exact next

theorem holds_split {k : Nat} {cells : Nat → Option α} :
    Holds mem pos (n + k) cells ↔ Holds mem pos n cells ∧ Holds mem (pos + n) k fun i => cells (n + i) := by
  constructor
  · intro holds
    refine ⟨fun i low => holds i (by omega), fun i low => ?_⟩
    have cell := holds (n + i) (by omega)
    rwa [← Nat.add_assoc] at cell
  · rintro ⟨first, second⟩
    exact holds_append first (frame_refl mem (pos + n) k) second

end laws
end Memory
