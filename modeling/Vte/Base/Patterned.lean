import Mathlib.Data.List.Basic
import Vte.Base.Bytes

/-!
Lists whose elements are those of a function at their places: parts of them, writes into them, and
the gap that a write beyond the end fills.
-/
namespace Patterned
open Bytes
variable {α : Type}

/-- The elements of `xs`, placed from `offset` on, are the values of `f` at their places. -/
def Fits (f : Nat → α) (offset : Nat) (xs : List α) : Prop :=
  ∀ i x, xs[i]? = some x → x = f (offset + i)

/-- The `n` values of `f` from `offset` on. -/
def generate (f : Nat → α) (n offset : Nat) : List α := (List.range n).map fun i => f (offset + i)

section laws
variable {f : Nat → α} {offset : Nat} {xs ys : List α}

@[simp] theorem generate_length (f : Nat → α) (n offset : Nat) :
    (generate f n offset).length = n := by
  simp [generate]

theorem generate_fits (f : Nat → α) (n offset : Nat) : Fits f offset (generate f n offset) := by
  intro i x found
  rw [generate, List.getElem?_map] at found
  obtain ⟨j, place, rfl⟩ := Option.map_eq_some_iff.mp found
  have same := (List.getElem?_eq_some_iff.mp place).2
  rw [List.getElem_range] at same
  rw [same]

theorem nil_fits (f : Nat → α) (offset : Nat) : Fits f offset [] := by
  intro i x found
  cases found

theorem cons_fits {x : α} : Fits f offset (x :: xs) ↔ x = f offset ∧ Fits f (offset + 1) xs := by
  constructor
  · intro fits
    constructor
    · exact fits 0 x rfl
    · intro i y found
      have next := fits (i + 1) y found
      rwa [Nat.add_comm i, ← Nat.add_assoc] at next
  · intro ⟨first, rest⟩ i y found
    cases i with
    | zero =>
      obtain rfl := Option.some.inj found
      exact first
    | succ i =>
      have next := rest i y found
      rwa [Nat.add_assoc, Nat.add_comm 1] at next

theorem append_fits :
    Fits f offset (xs ++ ys) ↔ Fits f offset xs ∧ Fits f (offset + xs.length) ys := by
  induction xs generalizing offset with
  | nil => simp [nil_fits]
  | cons x xs ih =>
    rw [List.cons_append, cons_fits, cons_fits, ih, List.length_cons, and_assoc, Nat.add_assoc, Nat.add_comm 1]

theorem take_fits (fits : Fits f offset xs) (n : Nat) : Fits f offset (xs.take n) := by
  rw [← List.take_append_drop n xs, append_fits] at fits
  exact fits.1

theorem drop_fits (fits : Fits f offset xs) (n : Nat) : Fits f (offset + n) (xs.drop n) := by
  intro i x found
  rw [List.getElem?_drop] at found
  have place := fits (n + i) x found
  rwa [← Nat.add_assoc] at place

theorem replicate_fits {x : α} {n : Nat} :
    Fits f offset (List.replicate n x) ↔ ∀ i < n, x = f (offset + i) := by
  constructor
  · intro fits i inside
    exact fits i x (by simp [inside])
  · intro all i y found
    obtain ⟨inside, same⟩ := List.getElem?_eq_some_iff.mp found
    rw [List.length_replicate] at inside
    rw [List.getElem_replicate] at same
    rw [← same]
    exact all i inside

/-- The places between the end of the list and `pos` are filled with a value that fits there. -/
def GapFits (f : Nat → α) (fill : α) (length pos : Nat) : Prop :=
  ∀ i, length ≤ i → i < pos → fill = f i

theorem no_gap (f : Nat → α) (fill : α) {length pos : Nat} (near : pos ≤ length) :
    GapFits f fill length pos := by
  intro i past inside
  omega

theorem gap_fits (fill : α) (length pos : Nat) :
    Fits f length (List.replicate (pos - length) fill) ↔ GapFits f fill length pos := by
  rw [replicate_fits]
  constructor
  · intro all i past inside
    have fits := all (i - length) (by omega)
    rwa [Nat.add_sub_cancel' past] at fits
  · intro gap i inside
    exact gap (length + i) (by omega) (by omega)

theorem write_fits_iff (fill : α) (pos : Nat) (fits : Fits f 0 xs) (written : Fits f pos ys) :
    Fits f 0 (writeAt fill xs pos ys) ↔ GapFits f fill xs.length pos := by
  have front := take_fits fits pos
  have rest := drop_fits fits (pos + ys.length)
  rw [Nat.zero_add] at rest
  rw [writeAt, append_fits, append_fits, append_fits]
  simp only [List.length_append, List.length_take, List.length_replicate, Nat.zero_add]
  have reaches : min pos xs.length + (pos - xs.length) = pos := by omega
  rw [reaches]
  by_cases near : pos ≤ xs.length
  · have none : pos - xs.length = 0 := by omega
    rw [none, List.replicate_zero]
    exact ⟨fun _ => no_gap f fill near, fun _ => ⟨⟨⟨front, nil_fits _ _⟩, written⟩, rest⟩⟩
  · have whole : min pos xs.length = xs.length := by omega
    rw [whole, gap_fits]
    exact ⟨fun all => all.1.1.2, fun gap => ⟨⟨⟨front, gap⟩, written⟩, rest⟩⟩

def resize (fill : α) (xs : List α) (n : Nat) : List α :=
  xs.take n ++ List.replicate (n - xs.length) fill

theorem resize_length (fill : α) (xs : List α) (n : Nat) : (resize fill xs n).length = n := by
  simp [resize]
  omega

theorem resize_fits_iff (fill : α) (n : Nat) (fits : Fits f 0 xs) :
    Fits f 0 (resize fill xs n) ↔ GapFits f fill xs.length n := by
  have front := take_fits fits n
  rw [resize, append_fits, List.length_take, Nat.zero_add]
  by_cases near : n ≤ xs.length
  · have none : n - xs.length = 0 := by omega
    rw [none, List.replicate_zero]
    exact ⟨fun _ => no_gap f fill near, fun _ => ⟨front, nil_fits _ _⟩⟩
  · have whole : min n xs.length = xs.length := by omega
    rw [whole, gap_fits]
    exact ⟨fun all => all.2, fun gap => ⟨front, gap⟩⟩

end laws
end Patterned
