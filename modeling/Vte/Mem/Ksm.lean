import Mathlib.Tactic.Ring
import Vte.Base.CInt
import Vte.Base.Text

/-!
testcases/kernel/mem/lib/mem.c: the memory of a KSM child, units that are mapped one by one, and the
check of its contents. A read outside a unit, a sum that is not an int and an allocation that fails
have no result; positions are reported in the order of the loops.
-/
namespace VteKsm
open CInt Text

def mb : Int := 1048576

structure KsmMergeData where
  data : Char
  mergeable_size : Int
deriving DecidableEq

/-- The arguments of `verify` beside the memory and the number of the child. -/
structure Call where
  value : Char
  start : Int
  end_ : Int
  start2 : Int
  end2 : Int
deriving DecidableEq

section code

def unitAt (memory : List Str) (j : Int) : Option Str := if 0 ≤ j then memory[j.toNat]? else none

def byteAt (memory : List Str) (j i : Int) : Option Char :=
  (unitAt memory j).bind fun unit => if 0 ≤ i then unit[i.toNat]? else none

/-- The values of a counter from `a` to before `b`. -/
def upTo (a b : Int) : List Int := (List.range (b - a).toNat).map fun k : Nat => a + k

def verifyByte (memory : List Str) (value : Char) (j : Int) (fails : List (Int × Int)) (i : Int) :
    Option (List (Int × Int)) :=
  (byteAt memory j i).map fun c => if c ≠ value then fails ++ [(j, i)] else fails

def verifyRow (memory : List Str) (call : Call) (fails : List (Int × Int)) (j : Int) :
    Option (List (Int × Int)) :=
  (upTo call.start2 call.end2).foldlM (verifyByte memory call.value j) fails

def verifySize (call : Call) : Option Int := do
  let rows ← signed 32 (call.end_ - call.start)
  let columns ← signed 32 (call.end2 - call.start2)
  let size ← signed 32 (rows * columns)
  if size < 0 then none else some size

def verify (memory : List Str) (call : Call) : Option (List (Int × Int)) := do
  let size ← verifySize call
  let unit ← unitAt memory call.start
  -- `memcmp` compares this many bytes from the first byte of one unit
  if unit.length < size then none
  else if unit.take size.toNat = List.replicate size.toNat call.value then some []
  else (upTo call.start call.end_).foldlM (verifyRow memory call) []

/-- The calls of `create_ksm_child` after each filling; the sizes are compared as unsigned longs. -/
def verifyCalls (size unit total_unit : Int) (d : KsmMergeData) : List Call :=
  if u64 d.mergeable_size < u64 (size * mb) then
    [{ value := 'e', start := total_unit - 1, end_ := total_unit,
       start2 := int32 (u64 (unit * mb - 1)), end2 := int32 (u64 (unit * mb)) },
     { value := d.data, start := 0, end_ := total_unit, start2 := 0, end2 := int32 (u64 (unit * mb - 1)) }]
  else
    [{ value := d.data, start := 0, end_ := total_unit, start2 := 0, end2 := int32 (u64 (unit * mb)) }]

end code

section spec

/-- The units of a child; the filling before the check counts their bytes with an int. -/
structure Units where
  size : Nat
  unit : Nat
  memory : List Str
  some_mb : 0 < unit
  some_unit : unit ≤ size
  counted : unit * 1048576 < 2147483648
  mapped : memory.length = size / unit
  bytes : ∀ u ∈ memory, u.length = unit * 1048576

def Units.total (u : Units) : Nat := u.size / u.unit

def Units.calls (u : Units) (d : KsmMergeData) : List Call := verifyCalls u.size u.unit u.total d

def mismatches (memory : List Str) (call : Call) : List (Int × Int) :=
  ((upTo call.start call.end_).flatMap fun j => (upTo call.start2 call.end2).map fun i => (j, i)).filter
    fun p => byteAt memory p.1 p.2 ≠ some call.value

def VerifyRight (memory : List Str) (call : Call) : Prop :=
  verify memory call = some (mismatches memory call)

/-- One unit is looked at, and if not from its first byte, then that is another one than the value or
the byte looked at is the value too. -/
def CallCond (memory : List Str) (call : Call) : Prop :=
  call.end_ - call.start = 1 ∧ (call.start2 = 0 ∨ byteAt memory call.start 0 ≠ some call.value ∨
    byteAt memory call.start call.start2 = some call.value)

end spec

section loops
variable {memory : List Str} {call : Call} {value : Char}

theorem mem_up_to {a b i : Int} : i ∈ upTo a b ↔ a ≤ i ∧ i < b := by
  simp only [upTo, List.mem_map, List.mem_range]
  constructor
  · rintro ⟨k, below, rfl⟩
    omega
  · rintro ⟨low, high⟩
    exact ⟨(i - a).toNat, by omega, by omega⟩

theorem row_reports (value : Char) (fails : List (Int × Int)) (j : Int) (columns : List Int)
    (inside : ∀ i ∈ columns, ∃ c, byteAt memory j i = some c) :
    columns.foldlM (verifyByte memory value j) fails = some (fails ++
      (columns.map fun i => (j, i)).filter fun p => byteAt memory p.1 p.2 ≠ some value) := by
  induction columns generalizing fails with
  | nil => simp
  | cons i columns ih =>
    obtain ⟨c, here⟩ := inside i (List.mem_cons_self ..)
    have rest := ih (if c ≠ value then fails ++ [(j, i)] else fails)
      fun i member => inside i (List.mem_cons_of_mem _ member)
    rw [List.foldlM_cons, verifyByte, here]
    refine rest.trans ?_
    by_cases same : c = value
    · simp [same, here]
    · simp [same, here]

theorem rows_report (fails : List (Int × Int)) (rows : List Int)
    (inside : ∀ j ∈ rows, ∀ i ∈ upTo call.start2 call.end2, ∃ c, byteAt memory j i = some c) :
    rows.foldlM (verifyRow memory call) fails = some (fails ++
      (rows.flatMap fun j => (upTo call.start2 call.end2).map fun i => (j, i)).filter
        fun p => byteAt memory p.1 p.2 ≠ some call.value) := by
  induction rows generalizing fails with
  | nil => simp
  | cons j rows ih =>
    have row := row_reports call.value fails j _
      (inside j (List.mem_cons_self ..))
    rw [List.foldlM_cons, verifyRow, row, List.flatMap_cons, List.filter_append, ← List.append_assoc]
    exact ih _ fun j member => inside j (List.mem_cons_of_mem _ member)

theorem byte_inside {unit : Str} {j i : Int} (here : unitAt memory j = some unit) (low : 0 ≤ i)
    (high : i < unit.length) : byteAt memory j i = some (unit.get ⟨i.toNat, by omega⟩) := by
  rw [byteAt, here, Option.bind_some, if_pos low, List.getElem?_eq_getElem]
  rfl

theorem all_value_iff {unit : Str} {n : Nat} (room : n ≤ unit.length) :
    unit.take n = List.replicate n value ↔ ∀ i < n, unit[i]? = some value := by
  constructor
  · intro same i below
    have byte : (unit.take n)[i]? = (List.replicate n value)[i]? := by rw [same]
    rw [List.getElem?_take_of_lt below, List.getElem?_replicate_of_lt below] at byte
    exact byte
  · intro every
    refine List.eq_replicate_iff.mpr ⟨by rw [List.length_take]; omega, fun c member => ?_⟩
    obtain ⟨i, below, rfl⟩ := List.mem_iff_getElem.mp member
    rw [List.length_take] at below
    have byte := every i (by omega)
    rw [List.getElem?_eq_getElem (by omega)] at byte
    rw [List.getElem_take]
    exact Option.some.inj byte

theorem verify_size_fits (call : Call) (rowsLow : -2147483648 ≤ call.end_ - call.start)
    (rowsHigh : call.end_ - call.start < 2147483648)
    (columnsLow : -2147483648 ≤ call.end2 - call.start2)
    (columnsHigh : call.end2 - call.start2 < 2147483648)
    (low : 0 ≤ (call.end_ - call.start) * (call.end2 - call.start2))
    (high : (call.end_ - call.start) * (call.end2 - call.start2) < 2147483648) :
    verifySize call = some ((call.end_ - call.start) * (call.end2 - call.start2)) := by
  unfold verifySize
  rw [signed_fits rowsLow rowsHigh, signed_fits columnsLow columnsHigh]
  dsimp only [Option.bind_eq_bind, Option.bind_some]
  rw [signed_fits (by omega) high, Option.bind_some, if_neg (by omega)]

theorem verify_size_some {size : Int} (allocated : verifySize call = some size) :
    size = (call.end_ - call.start) * (call.end2 - call.start2) ∧ 0 ≤ size ∧ size < 2147483648 := by
  obtain ⟨rows, isRows, allocated⟩ := Option.bind_eq_some_iff.mp allocated
  obtain ⟨columns, isColumns, allocated⟩ := Option.bind_eq_some_iff.mp allocated
  obtain ⟨product, isProduct, allocated⟩ := Option.bind_eq_some_iff.mp allocated
  obtain ⟨rfl, -⟩ := signed_some isRows
  obtain ⟨rfl, -⟩ := signed_some isColumns
  obtain ⟨rfl, -, high⟩ := signed_some isProduct
  split at allocated
  · cases allocated
  · obtain rfl := Option.some.inj allocated
    exact ⟨rfl, by omega, by omega⟩

theorem one_unit_iff {unit : Str} (one : call.end_ = call.start + 1)
    (here : unitAt memory call.start = some unit) (low : 0 ≤ call.start2)
    (ordered : call.start2 ≤ call.end2) (high : call.end2 ≤ unit.length)
    (int : unit.length < 2147483648) : VerifyRight memory call ↔
      ((∀ i < (call.end2 - call.start2).toNat, unit[i]? = some call.value) →
        ∀ i, call.start2 ≤ i → i < call.end2 → unit[i.toNat]? = some call.value) := by
  have width : (call.end_ - call.start) * (call.end2 - call.start2) = call.end2 - call.start2 := by
    rw [one]
    ring_nf
  have inside : ∀ j ∈ upTo call.start call.end_, ∀ i ∈ upTo call.start2 call.end2, ∃ c, byteAt memory j i = some c := by
    intro j row i column
    rw [mem_up_to] at row column
    obtain rfl : j = call.start := by omega
    exact ⟨_, byte_inside here (by omega) (by omega)⟩
  have reports := rows_report [] _ inside
  have none_iff : mismatches memory call = [] ↔
      ∀ i, call.start2 ≤ i → i < call.end2 → unit[i.toNat]? = some call.value := by
    unfold mismatches
    rw [List.filter_eq_nil_iff]
    constructor
    · intro equal i from_start before
      have same := equal (call.start, i) (List.mem_flatMap.mpr ⟨_, mem_up_to.mpr (by omega),
        List.mem_map.mpr ⟨i, mem_up_to.mpr ⟨from_start, before⟩, rfl⟩⟩)
      rw [byteAt, here, Option.bind_some, if_pos (by omega)] at same
      simpa using same
    · intro equal p member
      obtain ⟨j, row, pairs⟩ := List.mem_flatMap.mp member
      obtain ⟨i, column, rfl⟩ := List.mem_map.mp pairs
      rw [mem_up_to] at row column
      obtain rfl : j = call.start := by omega
      rw [byteAt, here, Option.bind_some, if_pos (by omega), equal i column.1 column.2]
      simp
  have run : verify memory call =
      if unit.take (call.end2 - call.start2).toNat = List.replicate (call.end2 - call.start2).toNat call.value
      then some [] else some (mismatches memory call) := by
    have size := verify_size_fits call (by omega) (by omega) (by omega) (by omega)
      (by omega) (by omega)
    unfold verify
    rw [size, width, here, Option.bind_eq_bind, Option.bind_some, Option.bind_eq_bind,
      Option.bind_some, if_neg (by omega), reports]
    rfl
  unfold VerifyRight
  rw [run, ← all_value_iff (by omega), ← none_iff]
  split
  · rename_i equal
    constructor
    · intro same _
      exact (Option.some.inj same).symm
    · intro nothing
      rw [nothing equal]
  · rename_i different
    exact iff_of_true rfl fun equal => absurd equal different

theorem several_units_wrong {unit : Str} (here : unitAt memory call.start = some unit)
    (large : unit.length < (call.end_ - call.start) * (call.end2 - call.start2)) :
    ¬ VerifyRight memory call := by
  intro right
  obtain ⟨size, allocated, right⟩ := Option.bind_eq_some_iff.mp right
  obtain ⟨rfl, _⟩ := verify_size_some allocated
  rw [here, Option.bind_eq_bind, Option.bind_some, if_pos large] at right
  cases right

end loops

section calls
variable {d : KsmMergeData}

theorem mb_value : mb = 1048576 := rfl

theorem arguments {unit : Nat} (some_mb : 0 < unit) (counted : unit * 1048576 < 2147483648) :
    int32 (u64 (unit * mb)) = unit * 1048576 ∧ int32 (u64 (unit * mb - 1)) = unit * 1048576 - 1 := by
  rw [mb_value, u64_small (by omega) (by omega), u64_small (by omega) (by omega),
    int32_small (by omega) (by omega), int32_small (by omega) (by omega)]
  exact ⟨rfl, rfl⟩

theorem total_pos (u : Units) : 0 < u.total := Nat.div_pos u.some_unit u.some_mb

theorem unit_exists (u : Units) {j : Nat} (below : j < u.total) :
    ∃ unit, unitAt u.memory j = some unit ∧ unit.length = u.unit * 1048576 := by
  have inside : j < u.memory.length := by
    rw [u.mapped]
    exact below
  refine ⟨u.memory[j], ?_, u.bytes _ (List.getElem_mem inside)⟩
  rw [unitAt, if_pos (by omega), Int.toNat_natCast, List.getElem?_eq_getElem]

theorem last_byte_iff (u : Units) {call : Call} (start : call.start = u.total - 1)
    (end_ : call.end_ = u.total) (start2 : call.start2 = u.unit * 1048576 - 1)
    (end2 : call.end2 = u.unit * 1048576) :
    VerifyRight u.memory call ↔ CallCond u.memory call := by
  have counted := u.counted
  have some_mb := u.some_mb
  have pos := total_pos u
  obtain ⟨unit, here, length⟩ := unit_exists u (show u.total - 1 < u.total by omega)
  have last : ((u.total - 1 : Nat) : Int) = call.start := by omega
  rw [last] at here
  rw [one_unit_iff (by omega) here (by omega) (by omega) (by omega) (by omega)]
  have one : (call.end2 - call.start2).toNat = 1 := by omega
  have bytes : ∀ i : Int, 0 ≤ i → byteAt u.memory call.start i = unit[i.toNat]? := by
    intro i low
    rw [byteAt, here, Option.bind_some, if_pos low]
  unfold CallCond
  rw [bytes 0 (Int.le_refl 0), bytes call.start2 (by omega), one]
  constructor
  · intro implied
    refine ⟨by omega, .inr ?_⟩
    by_cases first : unit[(0 : Int).toNat]? = some call.value
    · refine .inr (implied ?_ call.start2 (Int.le_refl _) (by omega))
      intro i below
      obtain rfl : i = 0 := by omega
      exact first
    · exact .inl first
  · rintro ⟨_, first | other | same⟩
    · omega
    · intro equal
      exact absurd (equal 0 Nat.one_pos) other
    · intro _ i from_start before
      obtain rfl : i = call.start2 := by omega
      exact same

theorem all_units_iff (u : Units) {call : Call} (start : call.start = 0)
    (end_ : call.end_ = u.total) (start2 : call.start2 = 0)
    (least : u.unit * 1048576 - 1 ≤ call.end2) (most : call.end2 ≤ u.unit * 1048576) :
    VerifyRight u.memory call ↔ CallCond u.memory call := by
  have counted := u.counted
  have some_mb := u.some_mb
  have pos := total_pos u
  obtain ⟨unit, here, length⟩ := unit_exists u pos
  rw [show ((0 : Nat) : Int) = call.start by omega] at here
  by_cases one : u.total = 1
  · rw [one_unit_iff (by omega) here (by omega) (by omega) (by omega) (by omega), start2]
    refine iff_of_true ?_ ⟨by omega, .inl start2⟩
    intro equal i low before
    exact equal i.toNat (by omega)
  · have more : 2 * call.end2 ≤ (call.end_ - call.start) * (call.end2 - call.start2) := by
      rw [start, start2, Int.sub_zero, Int.sub_zero]
      exact Int.mul_le_mul_of_nonneg_right (by omega) (by omega)
    refine iff_of_false (several_units_wrong here (by omega)) ?_
    rintro ⟨single, _⟩
    omega

/-- The calls that report just the wrong bytes, and read none outside the unit. -/
theorem verify_right_iff (u : Units) (d : KsmMergeData) (call : Call) (made : call ∈ u.calls d) :
    VerifyRight u.memory call ↔ CallCond u.memory call := by
  obtain ⟨whole, short⟩ := arguments u.some_mb u.counted
  unfold Units.calls verifyCalls at made
  rw [whole, short] at made
  split at made
  · rcases List.mem_cons.mp made with rfl | made
    · exact last_byte_iff u rfl rfl rfl rfl
    · obtain rfl := List.mem_singleton.mp made
      exact all_units_iff u rfl rfl rfl (Int.le_refl _) (by dsimp only; omega)
  · obtain rfl := List.mem_singleton.mp made
    exact all_units_iff u rfl rfl rfl (by dsimp only; omega) (Int.le_refl _)

def sameUnits (n : Nat) (some_unit : 1 ≤ n) : Units where
  size := n
  unit := 1
  memory := List.replicate n (List.replicate 1048576 'c')
  some_mb := Nat.one_pos
  some_unit := some_unit
  counted := by decide
  mapped := by rw [List.length_replicate, Nat.div_one]
  bytes u member := by rw [List.eq_of_mem_replicate member, List.length_replicate]

def wholeCall (n : Nat) : Call :=
  { value := 'c', start := 0, end_ := n, start2 := 0, end2 := 1048576 }

theorem whole_call_made (n : Nat) (some_unit : 1 ≤ n) :
    wholeCall n ∈ (sameUnits n some_unit).calls { data := 'c', mergeable_size := n * mb } := by
  have total : (sameUnits n some_unit).total = n := Nat.div_one n
  have size : (sameUnits n some_unit).size = n := rfl
  have unit : (sameUnits n some_unit).unit = 1 := rfl
  have whole : int32 (u64 ((sameUnits n some_unit).unit * mb)) = 1048576 := by
    rw [(arguments (by rw [unit]; decide) (by rw [unit]; decide)).1, unit]
    omega
  unfold Units.calls verifyCalls
  rw [total, size, if_neg (Nat.lt_irrefl _), whole]
  exact List.mem_singleton.mpr rfl

theorem two_units_read_outside : ¬ ∀ (u : Units) (d : KsmMergeData), ∀ call ∈ u.calls d, VerifyRight u.memory call := by
  intro all
  have made := whole_call_made 2 (by decide)
  have cond := (all_units_iff (sameUnits 2 (by decide)) rfl rfl rfl (by decide) (by decide)).mp
    (all _ _ _ made)
  exact absurd cond.1 (by decide)

theorem one_unit_right : VerifyRight (sameUnits 1 (Nat.le_refl 1)).memory (wholeCall 1) :=
  (verify_right_iff _ _ _ (whole_call_made 1 (Nat.le_refl 1))).mpr ⟨by decide, .inl rfl⟩

end calls
end VteKsm
