import Mathlib.Data.List.Nodup
import Mathlib.Data.List.Perm.Basic

/-!
The stores of a program into a buffer as a log, each one a place and the value stored there. Of a grid of
rounds that keep to their own cells one round alone stores into a cell.
-/
namespace StoreLog
variable {α : Type}

abbrev Stores (α : Type) := List (Nat × α)

/-- The values stored at `d`, in their order. -/
def storesTo (ws : Stores α) (d : Nat) : List α := (ws.filter fun w => w.1 = d).map Prod.snd

def apply (ws : Stores α) (mem : List α) : List α :=
  ws.foldl (fun mem w => mem.set w.1 w.2) mem

def loop (rounds : List Nat) (body : Nat → Option (Stores α)) : Option (Stores α) :=
  (rounds.mapM body).map List.flatten

def grid (rows cols : Nat) (cell : Nat → Nat → Stores α) : Stores α :=
  (List.range rows).flatMap fun i => (List.range cols).flatMap (cell i)

section log
variable {ws later : Stores α} {d : Nat} {v : α}

theorem storesTo_append : storesTo (ws ++ later) d = storesTo ws d ++ storesTo later d := by
  rw [storesTo, List.filter_append, List.map_append]
  rfl

theorem storesTo_nil : storesTo ws d = [] ↔ ∀ w ∈ ws, w.1 ≠ d := by
  simp [storesTo]

theorem storesTo_perm (same : ws.Perm later) : (storesTo ws d).Perm (storesTo later d) :=
  (same.filter _).map _

theorem storesTo_one (same : ws.Perm later) (one : storesTo later d = [v]) : storesTo ws d = [v] := by
  have alike := storesTo_perm (d := d) same
  rw [one] at alike
  exact List.perm_singleton.mp alike

theorem stored_among (among : (d, v) ∈ ws) : v ∈ storesTo ws d := by
  rw [storesTo, List.mem_map]
  exact ⟨(d, v), List.mem_filter.mpr ⟨among, decide_eq_true rfl⟩, rfl⟩

theorem apply_length (mem : List α) : (apply ws mem).length = mem.length := by
  induction ws generalizing mem with
  | nil => rfl
  | cons w ws ih =>
    rw [apply, List.foldl_cons]
    exact (ih _).trans List.length_set

theorem apply_kept {mem : List α} (none : storesTo ws d = []) : (apply ws mem)[d]? = mem[d]? := by
  rw [storesTo_nil] at none
  induction ws generalizing mem with
  | nil => rfl
  | cons w ws ih =>
    have apart := none w List.mem_cons_self
    rw [apply, List.foldl_cons]
    exact (ih fun w later => none w (List.mem_cons_of_mem _ later)).trans
      (List.getElem?_set_ne apart)

theorem apply_stored {mem : List α} (inside : d < mem.length) (one : storesTo ws d = [v]) :
    (apply ws mem)[d]? = some v := by
  induction ws generalizing mem with
  | nil => cases one
  | cons w ws ih =>
    obtain ⟨place, x⟩ := w
    rw [apply, List.foldl_cons]
    by_cases here : place = d
    · subst here
      have split : storesTo ((place, x) :: ws) place = x :: storesTo ws place := by simp [storesTo]
      rw [split] at one
      obtain ⟨rfl, none⟩ := List.cons.inj one
      exact (apply_kept none).trans (List.getElem?_set_self inside)
    · have skip : storesTo ((place, x) :: ws) d = storesTo ws d := by simp [storesTo, here]
      rw [skip] at one
      exact ih (by rw [List.length_set]; exact inside) one

end log

section rounds
variable {rounds : List Nat} {body : Nat → Option (Stores α)} {each : Nat → Stores α} {d x : Nat}

theorem loop_cons (x : Nat) (xs : List Nat) :
    loop (x :: xs) body = (body x).bind fun ws => (loop xs body).map fun later => ws ++ later := by
  rw [loop, List.mapM_cons]
  cases body x with
  | none => rfl
  | some ws =>
    simp only [Option.bind_eq_bind, Option.bind_some, loop]
    cases xs.mapM body <;> rfl

theorem loop_some (known : ∀ x ∈ rounds, body x = some (each x)) :
    loop rounds body = some (rounds.flatMap each) := by
  induction rounds with
  | nil => rfl
  | cons x xs ih =>
    have rest := ih fun y later => known y (List.mem_cons_of_mem _ later)
    rw [loop_cons, known x List.mem_cons_self, rest]
    rfl

theorem loop_none (among : x ∈ rounds) (fails : body x = none) : loop rounds body = none := by
  induction rounds with
  | nil => cases among
  | cons y ys ih =>
    rw [loop_cons]
    rcases List.mem_cons.mp among with rfl | later
    · rw [fails]
      rfl
    · rw [ih later]
      cases body y <;> rfl

theorem loop_round {ws : Stores α} (ran : loop rounds body = some ws) (among : x ∈ rounds) :
    ∃ part, body x = some part ∧ part ⊆ ws := by
  induction rounds generalizing ws with
  | nil => cases among
  | cons y ys ih =>
    rw [loop_cons] at ran
    cases first : body y with
    | none => simp [first] at ran
    | some part =>
      cases rest : loop ys body with
      | none => simp [first, rest] at ran
      | some later =>
        simp only [first, rest, Option.bind_some, Option.map_some] at ran
        obtain rfl := Option.some.inj ran
        rcases List.mem_cons.mp among with rfl | behind
        · exact ⟨part, first, List.subset_append_left _ _⟩
        · obtain ⟨inner, found, inside⟩ := ih rest behind
          exact ⟨inner, found, List.subset_append_of_subset_right _ inside⟩

theorem loop_among {ws : Stores α} (ran : loop rounds body = some ws) {w : Nat × α} (among : w ∈ ws) :
    ∃ x ∈ rounds, ∃ part, body x = some part ∧ w ∈ part := by
  induction rounds generalizing ws with
  | nil =>
    obtain rfl : [] = ws := Option.some.inj ran
    cases among
  | cons y ys ih =>
    rw [loop_cons] at ran
    cases first : body y with
    | none => simp [first] at ran
    | some part =>
      cases rest : loop ys body with
      | none => simp [first, rest] at ran
      | some later =>
        simp only [first, rest, Option.bind_some, Option.map_some] at ran
        obtain rfl := Option.some.inj ran
        rcases List.mem_append.mp among with here | behind
        · exact ⟨y, List.mem_cons_self, part, first, here⟩
        · obtain ⟨x, round, inner, found, inside⟩ := ih rest behind
          exact ⟨x, List.mem_cons_of_mem _ round, inner, found, inside⟩

theorem storesTo_round (once : rounds.Nodup) (among : x ∈ rounds)
    (others : ∀ y ∈ rounds, y ≠ x → storesTo (each y) d = []) :
    storesTo (rounds.flatMap each) d = storesTo (each x) d := by
  induction rounds with
  | nil => cases among
  | cons y ys ih =>
    rw [List.nodup_cons] at once
    rw [List.flatMap_cons, storesTo_append]
    rcases List.mem_cons.mp among with rfl | later
    · have rest : storesTo (ys.flatMap each) d = [] := by
        rw [storesTo_nil]
        intro w inside
        obtain ⟨y, round, store⟩ := List.mem_flatMap.mp inside
        have apart := others y (List.mem_cons_of_mem _ round) (by rintro rfl; exact once.1 round)
        exact storesTo_nil.mp apart w store
      rw [rest, List.append_nil]
    · rw [others y List.mem_cons_self (by rintro rfl; exact once.1 later), List.nil_append]
      exact ih once.2 later fun y round => others y (List.mem_cons_of_mem _ round)

theorem paired_rounds {β : Type} (n : Nat) (f : Nat → List β) :
    ((List.range n).flatMap fun q => f (2 * q) ++ f (2 * q + 1)) = (List.range (2 * n)).flatMap f := by
  induction n with
  | zero => rfl
  | succ n ih =>
    have two : 2 * (n + 1) = 2 * n + 1 + 1 := rfl
    rw [List.range_succ, List.flatMap_append, ih, List.flatMap_singleton, two, List.range_succ,
      List.range_succ, List.flatMap_append, List.flatMap_append, List.flatMap_singleton,
      List.flatMap_singleton, List.append_assoc]

end rounds

section cells
variable {rows cols width l : Nat} {cell : Nat → Nat → Stores α} {place : Nat → Nat}

/-- Each round of the grid keeps to its cell: `width` places of the row `place i`, from column
    `width * j` on. -/
def InCells (rows cols width l : Nat) (place : Nat → Nat) (cell : Nat → Nat → Stores α) : Prop :=
  ∀ i < rows, ∀ j < cols, ∀ w ∈ cell i j, ∃ t < width, w.1 = place i * l + (width * j + t)

theorem row_apart {a b c d : Nat} (low : c < l) (low' : d < l) (same : a * l + c = b * l + d) :
    a = b ∧ c = d := by
  have positive : 0 < l := by omega
  have row := congrArg (· / l) same
  simp only [Nat.add_comm (_ * l), Nat.add_mul_div_right _ _ positive,
    Nat.div_eq_of_lt low, Nat.div_eq_of_lt low', Nat.zero_add] at row
  subst row
  exact ⟨rfl, Nat.add_left_cancel same⟩

theorem cell_inside {j t : Nat} (room : width * cols ≤ l) (column : j < cols) (part : t < width) :
    width * j + t < l := by
  have := Nat.mul_le_mul_left width (Nat.succ_le_of_lt column)
  rw [Nat.mul_succ] at this
  omega

theorem cell_apart {j j' t t' : Nat} (part : t < width) (part' : t' < width)
    (same : width * j + t = width * j' + t') : j = j' := by
  rw [Nat.mul_comm width j, Nat.mul_comm width j'] at same
  exact (row_apart part part' same).1

theorem grid_once (keeps : InCells rows cols width l place cell) (room : width * cols ≤ l)
    (distinct : ∀ i < rows, ∀ i' < rows, place i = place i' → i = i') {i j t : Nat} (row : i < rows)
    (column : j < cols) (part : t < width) :
    storesTo (grid rows cols cell) (place i * l + (width * j + t)) =
      storesTo (cell i j) (place i * l + (width * j + t)) := by
  have low := cell_inside room column part
  rw [grid, storesTo_round List.nodup_range (List.mem_range.mpr row),
    storesTo_round List.nodup_range (List.mem_range.mpr column)]
  · intro j' column' other
    rw [List.mem_range] at column'
    rw [storesTo_nil]
    intro w store same
    obtain ⟨t', part', at_cell⟩ := keeps i row j' column' w store
    have low' := cell_inside room column' part'
    have apart := row_apart low' low (at_cell.symm.trans same)
    exact other (cell_apart part' part apart.2)
  · intro i' row' other
    rw [List.mem_range] at row'
    rw [storesTo_nil]
    intro w store same
    obtain ⟨j', column', inner⟩ := List.mem_flatMap.mp store
    rw [List.mem_range] at column'
    obtain ⟨t', part', at_cell⟩ := keeps i' row' j' column' w inner
    have low' := cell_inside room column' part'
    have apart := row_apart low' low (at_cell.symm.trans same)
    exact other (distinct i' row' i row apart.1)

theorem grid_cell (keeps : InCells rows cols width l place cell) {w : Nat × α}
    (among : w ∈ grid rows cols cell) :
    ∃ i < rows, ∃ j < cols, ∃ t < width, w.1 = place i * l + (width * j + t) := by
  obtain ⟨i, row, inner⟩ := List.mem_flatMap.mp among
  obtain ⟨j, column, store⟩ := List.mem_flatMap.mp inner
  rw [List.mem_range] at row column
  obtain ⟨t, part, at_cell⟩ := keeps i row j column w store
  exact ⟨i, row, j, column, t, part, at_cell⟩

theorem grid_inside (keeps : InCells rows cols width l place cell) (room : width * cols ≤ l)
    {height : Nat} (below : ∀ i < rows, place i < height) :
    ∀ w ∈ grid rows cols cell, w.1 < l * height := by
  intro w store
  obtain ⟨i, row, j, column, t, part, at_cell⟩ := grid_cell keeps store
  have low := cell_inside room column part
  have rows_before := Nat.mul_le_mul_left l (Nat.succ_le_of_lt (below i row))
  rw [Nat.mul_succ, Nat.mul_comm l] at rows_before
  omega

end cells
end StoreLog
