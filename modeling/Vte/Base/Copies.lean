import Mathlib.Data.List.Perm.Basic
import Mathlib.Data.List.Range

/-!
A buffer that is filled from another one cell by cell, with the positions read and written so far. A
copy from or to a place outside its buffer gives nothing.
-/
namespace Copies
variable {α σ : Type}

/-- The values of `x` in `for (x = 0; x < stop; x += step)`. -/
def upTo (stop step : Nat) : List Nat :=
  (List.range ((stop + (step - 1)) / step)).map fun n => n * step

structure Filling (α : Type) where
  out : List α
  reads : List Nat
  writes : List Nat
deriving DecidableEq

def Filling.copy (src : List α) (f : Filling α) (dst place : Nat) : Option (Filling α) := do
  let x ← src[place]?
  if dst < f.out.length then
    some ⟨f.out.set dst x, f.reads ++ [place], f.writes ++ [dst]⟩
  else none

/-- All the moves in order, each one a place of the filled buffer and one of the other. -/
def copies (src : List α) (moves : List (Nat × Nat)) (f : Filling α) : Option (Filling α) :=
  moves.foldlM (fun f move => f.copy src move.1 move.2) f

section loops

theorem mem_upTo {stop step x : Nat} (forward : 0 < step) :
    x ∈ upTo stop step ↔ x < stop ∧ ∃ n, x = n * step := by
  simp only [upTo, List.mem_map, List.mem_range]
  constructor
  · rintro ⟨n, low, rfl⟩
    refine ⟨?_, n, rfl⟩
    have whole := Nat.mul_le_of_le_div step (n + 1) _ low
    rw [Nat.succ_mul] at whole
    omega
  · rintro ⟨low, n, rfl⟩
    refine ⟨n, ?_, rfl⟩
    apply (Nat.le_div_iff_mul_le forward).mpr
    rw [Nat.succ_mul]
    omega

theorem zero_upTo {stop step : Nat} (some : 0 < stop) (forward : 0 < step) : 0 ∈ upTo stop step :=
  (mem_upTo forward).mpr ⟨some, 0, (Nat.zero_mul step).symm⟩

theorem upTo_rounds {n stop step : Nat} (enough : stop ≤ n * step) (short : n * step < stop + step) :
    upTo stop step = (List.range n).map fun q => q * step := by
  have rounds : (stop + (step - 1)) / step = n := by
    apply Nat.div_eq_of_lt_le
    · omega
    · rw [Nat.succ_mul]
      omega
  rw [upTo, rounds]

theorem upTo_mul (n : Nat) {step : Nat} (forward : 0 < step) :
    upTo (n * step) step = (List.range n).map fun q => q * step :=
  upTo_rounds (Nat.le_refl _) (by omega)

theorem upTo_one (n : Nat) : upTo n 1 = List.range n := by
  rw [upTo, Nat.sub_self, Nat.add_zero, Nat.div_one]
  simp only [Nat.mul_one, List.map_id']

end loops

section copy
variable {src : List α} {f g : Filling α} {moves later : List (Nat × Nat)}

theorem copies_cons (dst place : Nat) :
    copies src ((dst, place) :: moves) f = (f.copy src dst place).bind (copies src moves) := rfl

theorem copies_append (f : Filling α) :
    copies src (moves ++ later) f = (copies src moves f).bind (copies src later) :=
  List.foldlM_append

theorem copy_some {dst place : Nat} {x : α} (read : src[place]? = some x)
    (inside : dst < f.out.length) :
    f.copy src dst place = some ⟨f.out.set dst x, f.reads ++ [place], f.writes ++ [dst]⟩ := by
  rw [Filling.copy, read]
  exact if_pos inside

theorem copy_inside {dst place : Nat} (copied : f.copy src dst place = some g) :
    dst < f.out.length ∧ ∃ x, src[place]? = some x := by
  rw [Filling.copy] at copied
  cases read : src[place]? with
  | none => simp [read] at copied
  | some x =>
    by_cases inside : dst < f.out.length
    · exact ⟨inside, x, rfl⟩
    · simp [read, inside] at copied

/-- What a whole row of copies leaves behind when no place is written twice. -/
structure Filled (src : List α) (moves : List (Nat × Nat)) (f g : Filling α) : Prop where
  length : g.out.length = f.out.length
  reads : g.reads = f.reads ++ moves.map Prod.snd
  writes : g.writes = f.writes ++ moves.map Prod.fst
  moved : ∀ move ∈ moves, g.out[move.1]? = src[move.2]?
  kept : ∀ k, k ∉ moves.map Prod.fst → g.out[k]? = f.out[k]?

theorem copies_filled (inside : ∀ move ∈ moves, move.1 < f.out.length ∧ move.2 < src.length)
    (once : (moves.map Prod.fst).Nodup) : ∃ g, copies src moves f = some g ∧ Filled src moves f g := by
  induction moves generalizing f with
  | nil =>
    refine ⟨f, rfl, rfl, (List.append_nil _).symm, (List.append_nil _).symm, ?_, fun k _ => rfl⟩
    intro move none
    cases none
  | cons move moves ih =>
    obtain ⟨dst, place⟩ := move
    have here := inside (dst, place) List.mem_cons_self
    rw [List.map_cons, List.nodup_cons] at once
    have copied := copy_some (List.getElem?_eq_getElem here.2) here.1
    obtain ⟨g, rest, filled⟩ := @ih ⟨f.out.set dst src[place], f.reads ++ [place], f.writes ++ [dst]⟩
      (by intro move later
          rw [List.length_set]
          exact inside move (List.mem_cons_of_mem _ later)) once.2
    refine ⟨g, ?_, ?_, ?_, ?_, ?_, ?_⟩
    · rw [copies_cons, copied]
      exact rest
    · rw [filled.length, List.length_set]
    · rw [filled.reads, List.map_cons, List.append_assoc, List.singleton_append]
    · rw [filled.writes, List.map_cons, List.append_assoc, List.singleton_append]
    · intro move among
      rcases List.mem_cons.mp among with rfl | later
      · rw [filled.kept dst once.1, List.getElem?_set_self here.1, List.getElem?_eq_getElem here.2]
      · exact filled.moved move later
    · intro k apart
      rw [List.map_cons, List.mem_cons, not_or] at apart
      rw [filled.kept k apart.2, List.getElem?_set_ne (Ne.symm apart.1)]

theorem copies_outside {dst place : Nat} (among : (dst, place) ∈ moves) (outside : f.out.length ≤ dst) :
    copies src moves f = none := by
  induction moves generalizing f with
  | nil => cases among
  | cons move moves ih =>
    rw [show move = (move.1, move.2) from rfl, copies_cons]
    cases copied : f.copy src move.1 move.2 with
    | none => rfl
    | some g =>
      obtain ⟨inside, x, read⟩ := copy_inside copied
      rcases List.mem_cons.mp among with rfl | later
      · omega
      · rw [copy_some read inside] at copied
        obtain rfl := Option.some.inj copied
        exact ih later (by rw [List.length_set]; exact outside)

/-- A loop whose every round makes known moves and takes its counters one round on makes the moves of all
    its rounds. -/
theorem loop_copies (src : List α) (step : σ → Nat → Option σ) (wrap : Nat → Filling α → σ)
    (each : Nat → List (Nat × Nat)) {n : Nat}
    (round : ∀ q < n, ∀ f, step (wrap q f) q = (copies src (each q) f).map (wrap (q + 1)))
    (f : Filling α) :
    (List.range n).foldlM step (wrap 0 f) = (copies src ((List.range n).flatMap each) f).map (wrap n) := by
  induction n with
  | zero => rfl
  | succ n ih =>
    have before := ih fun q low => round q (by omega)
    rw [List.range_succ, List.foldlM_append, before, List.flatMap_append, copies_append, List.flatMap_singleton]
    cases copies src ((List.range n).flatMap each) f with
    | none => rfl
    | some g =>
      simp only [Option.map_some, Option.bind_eq_bind, Option.bind_some, List.foldlM_cons, List.foldlM_nil]
      rw [round n (by omega)]
      cases copies src (each n) g <;> rfl

end copy

section tiling
variable {a width n : Nat}

theorem blocks (a width n : Nat) :
    ((List.range n).flatMap fun q => List.range' (a + width * q) width) = List.range' a (width * n) := by
  induction n with
  | zero => rfl
  | succ n ih =>
    rw [List.range_succ, List.flatMap_append, ih, List.flatMap_singleton, Nat.mul_succ, List.range'_append_1]

theorem two_rows {β γ : Type} (rounds : List β) (first second : β → List γ) {each : β → List γ}
    (split : ∀ q, (each q).Perm (first q ++ second q)) :
    (rounds.flatMap each).Perm (rounds.flatMap first ++ rounds.flatMap second) := by
  have apart : (rounds.flatMap each).Perm (rounds.flatMap fun q => first q ++ second q) :=
    List.Perm.flatMap_left rounds fun q _ => split q
  exact apart.trans (List.flatMap_append_perm rounds first second).symm

end tiling
end Copies
