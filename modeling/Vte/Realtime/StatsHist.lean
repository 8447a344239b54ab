import Mathlib.Algebra.BigOperators.Group.List.Basic
import Mathlib.Data.List.Nodup
import Mathlib.Logic.Function.Basic
import Mathlib.Tactic.Linarith
import Vte.Base.IntLoop
import Vte.Base.Memory
import Vte.Base.Text
import Vte.Realtime.Stats

/-!
testcases/realtime/lib/libstats.c: `stats_hist`, which counts the records of a container into the buckets of
another one, and `stats_hist_print`. The loops count with an `int`; a long that overflows and an access
outside the records have no result.
-/
namespace Stats
open CInt IntLoop Memory Text

def update (records : List Record) (i : Int) (change : Record → Option Record) : Option (List Record) :=
  if i < 0 then none
  else do
    let r ← records[i.toNat]?
    let r ← change r
    some (records.set i.toNat r)

def setX (x : Int) (r : Record) : Option Record := some { r with x := BitVec.ofInt 64 x }

def countY (r : Record) : Option Record := do
  let y ← signed 64 (r.y.toInt + 1)
  some { r with y := BitVec.ofInt 64 y }

section loops
variable (data : Container)

/-- A turn of the loop that looks for the range; the pair is `min` and `max`. -/
def rangeTurn (i : Nat) (bounds : Int × Int) : Option (Int × Int) := do
  let r ← data.records[i]?
  let y := r.y.toInt
  some (if y < bounds.1 then y else bounds.1, if y > bounds.2 then y else bounds.2)

def boundTurn (min width : Int) (i : Nat) (records : List Record) : Option (List Record) := do
  let offset ← signed 64 (i * width)
  let x ← signed 64 (min + offset)
  update records i (setX x)

def countTurn (min width size : Int) (i : Nat) (records : List Record) : Option (List Record) := do
  let r ← data.records[i]?
  let offset ← signed 64 (r.y.toInt - min)
  let quotient := offset.tdiv width
  let b := if quotient < size - 1 then quotient else size - 1
  update records b countY

end loops

def histRange (data : Container) : Option (Int × Int) := do
  let first ← data.records[0]?
  intLoop (rangeTurn data) (data.index + 1).toNat 0 (first.y.toInt, first.y.toInt)

def histFill (data : Container) (min width size : Int) (records : List Record) : Option (List Record) := do
  let records ← update records 0 (setX min)
  let records ← intLoop (boundTurn min width) (size - 1).toNat 1 records
  intLoop (countTurn data min width size) (data.index + 1).toNat 0 records

def stats_hist (hist data : Container) : Option (Int × Container) :=
  if hist.size ≤ 0 ∨ data.index < 0 then some (-1, hist)
  else do
    let (min, max) ← histRange data
    let range ← signed 64 (max - min)
    let quotient := range.tdiv hist.size
    let width := if quotient > 1 then quotient else 1
    let records ← histFill data min width hist.size hist.records
    some (0, { hist with records })

/-- One line of the output: `[low,high) = count`, or `[low,-) = count`. -/
structure Line where
  low : Int
  high : Option Int
  count : Int
deriving DecidableEq

def Line.text (line : Line) : Str :=
  "[".toList ++ decimal line.low ++ ",".toList ++ (line.high.map decimal).getD "-".toList ++
    ") = ".toList ++ decimal line.count ++ "\n".toList

def histLine (hist : Container) (i : Nat) : Option Line := do
  let r ← hist.records[i]?
  if i < hist.size - 1 then
    let next ← hist.records[i + 1]?
    some ⟨r.x.toInt, some next.x.toInt, r.y.toInt⟩
  else some ⟨r.x.toInt, none, r.y.toInt⟩

def histLines (hist : Container) : Option (List Line) :=
  gather (histLine hist) hist.size.toNat

def stats_hist_print (hist : Container) : Option Str :=
  (histLines hist).map fun lines => lines.flatMap Line.text

def Line.Covers (line : Line) (y : Int) : Prop := line.low ≤ y ∧ ∀ high ∈ line.high, y < high

instance (line : Line) : DecidablePred line.Covers := fun y =>
  inferInstanceAs (Decidable (line.low ≤ y ∧ ∀ high ∈ line.high, y < high))

def Container.values (data : Container) : List Int :=
  (data.records.take (data.index + 1).toNat).map fun r => r.y.toInt

structure Filled (data : Container) : Prop where
  some_record : 0 ≤ data.index
  inside : data.index + 1 ≤ data.records.length

def fresh (size : Nat) : Container := (stats_container_init size true).2

structure Range (ys : List Int) (min max : Int) : Prop where
  min_in : min ∈ ys
  max_in : max ∈ ys
  above : ∀ y ∈ ys, min ≤ y
  below : ∀ y ∈ ys, y ≤ max

def width (size : Nat) (min max : Int) : Int := Max.max ((max - min) / size) 1

def Counted (size : Nat) (data : Container) : Prop :=
  ∃ hist lines, stats_hist (fresh size) data = some (0, hist) ∧ histLines hist = some lines ∧
    lines.length = size ∧ (lines.map Line.count).sum = data.values.length ∧
    (∀ i line, lines[i]? = some line → (line.high = none ↔ i + 1 = size)) ∧
    (∀ line ∈ lines, line.count = data.values.countP (line.Covers ·)) ∧
    ∀ y ∈ data.values, lines.countP (·.Covers y) = 1

/-- The counters of the loops fit in an `int`, and the start of the last bucket in a long. -/
structure Countable (size : Nat) (data : Container) (min max : Int) : Prop where
  records : data.index + 1 < 2147483648
  buckets : size < 2147483648
  last : min + (size - 1) * width size min max < 9223372036854775808

section values
variable {data : Container}

theorem values_length (filled : Filled data) : data.values.length = (data.index + 1).toNat := by
  have inside := filled.inside
  simp only [Container.values, List.length_map, List.length_take]
  omega

theorem value_at (filled : Filled data) {i : Nat} (low : i < data.values.length) :
    ∃ r, data.records[i]? = some r ∧ data.values[i]? = some r.y.toInt := by
  have inside := filled.inside
  rw [values_length filled] at low
  have at_i : data.records[i]? = some data.records[i] := List.getElem?_eq_getElem (by omega)
  refine ⟨data.records[i], at_i, ?_⟩
  simp [Container.values, low, at_i]

theorem values_long {y : Int} (value : y ∈ data.values) :
    -9223372036854775808 ≤ y ∧ y < 9223372036854775808 := by
  obtain ⟨r, _, rfl⟩ := List.mem_map.mp value
  have low := BitVec.le_toInt r.y
  have high := BitVec.toInt_lt (x := r.y)
  omega

end values

section range
variable {data : Container}

def Bounded (data : Container) (k : Nat) (bounds : Int × Int) : Prop :=
  bounds.1 ∈ data.values ∧ bounds.2 ∈ data.values ∧ ∀ y ∈ data.values.take k, bounds.1 ≤ y ∧ y ≤ bounds.2

theorem range_turn (filled : Filled data) {k : Nat} {bounds : Int × Int} (low : k < data.values.length)
    (bounded : Bounded data k bounds) :
    ∃ next, rangeTurn data k bounds = some next ∧ Bounded data (k + 1) next := by
  obtain ⟨r, read, value⟩ := value_at filled low
  have member := List.mem_of_getElem? value
  obtain ⟨min_in, max_in, between⟩ := bounded
  refine ⟨_, by rw [rangeTurn, read]; rfl, ?_, ?_, ?_⟩
  · by_cases less : r.y.toInt < bounds.1
    · simpa only [if_pos less] using member
    · simpa only [if_neg less] using min_in
  · by_cases more : r.y.toInt > bounds.2
    · simpa only [if_pos more] using member
    · simpa only [if_neg more] using max_in
  · intro y taken
    rw [List.take_add_one, value, Option.toList_some, List.mem_append, List.mem_singleton] at taken
    rcases taken with before | rfl
    · have inside := between y before
      constructor
      · dsimp only
        split <;> omega
      · dsimp only
        split <;> omega
    · constructor
      · dsimp only
        split <;> omega
      · dsimp only
        split <;> omega

theorem range_unique {ys : List Int} {min max min' max' : Int} (range : Range ys min max)
    (range' : Range ys min' max') : min = min' ∧ max = max' := by
  have low := range.above min' range'.min_in
  have low' := range'.above min range.min_in
  have high := range.below max' range'.max_in
  have high' := range'.below max range.max_in
  omega

theorem hist_range (filled : Filled data) {min max : Int} (range : Range data.values min max)
    (small : data.index + 1 < 2147483648) : histRange data = some (min, max) := by
  have count := values_length filled
  have some_record := filled.some_record
  obtain ⟨first, head, value⟩ := value_at filled (i := 0) (by omega)
  have member := List.mem_of_getElem? value
  obtain ⟨bounds, ran, bounded⟩ := int_loop_inv (Bounded data) (data.index + 1).toNat 0
    (fun k s _ high bounded => range_turn filled (by omega) bounded) (by omega)
    (show Bounded data 0 (first.y.toInt, first.y.toInt) from ⟨member, member, by simp⟩)
  obtain ⟨min_in, max_in, between⟩ := bounded
  have all : data.values.take (0 + (data.index + 1).toNat) = data.values :=
    List.take_of_length_le (by omega)
  rw [all] at between
  have found : Range data.values bounds.1 bounds.2 :=
    ⟨min_in, max_in, fun y mem => (between y mem).1, fun y mem => (between y mem).2⟩
  obtain ⟨rfl, rfl⟩ := range_unique range found
  rw [histRange, head]
  exact ran

theorem hist_range_overflow (large : 2147483648 ≤ data.index + 1) : histRange data = none := by
  rw [histRange]
  cases data.records[0]? with
  | none => rfl
  | some first => exact int_loop_overflow (by omega) (by omega) (first.y.toInt, first.y.toInt)

end range

section table
variable {size : Nat} {x c : Nat → Int}

def table (size : Nat) (x c : Nat → Int) : List Record :=
  (List.range size).map fun i => ⟨BitVec.ofInt 64 (x i), BitVec.ofInt 64 (c i)⟩

theorem table_at {i : Nat} (low : i < size) :
    (table size x c)[i]? = some ⟨BitVec.ofInt 64 (x i), BitVec.ofInt 64 (c i)⟩ := by
  simp [table, low]

theorem fresh_table (size : Nat) : (fresh size).records = table size (fun _ => 0) (fun _ => 0) := by
  simp only [fresh, stats_container_init, if_true, Int.toNat_natCast, table, List.map_const', List.length_range]
  rfl

theorem update_table {i : Nat} (low : i < size) (change : Record → Option Record) {v w : Int}
    (changed : change ⟨BitVec.ofInt 64 (x i), BitVec.ofInt 64 (c i)⟩ = some ⟨BitVec.ofInt 64 v, BitVec.ofInt 64 w⟩) :
    update (table size x c) i change = some (table size (Function.update x i v) (Function.update c i w)) := by
  have set : (table size x c).set i ⟨BitVec.ofInt 64 v, BitVec.ofInt 64 w⟩ =
      table size (Function.update x i v) (Function.update c i w) := by
    apply List.ext_getElem
    · simp [table]
    · intro j _ inside
      simp only [table, List.getElem_set, List.getElem_map, List.getElem_range]
      by_cases same : i = j
      · subst same
        simp
      · simp [same, Function.update_of_ne (Ne.symm same)]
  rw [update, if_neg (by omega), Int.toNat_natCast, table_at low]
  simp only [Option.bind_eq_bind, Option.bind_some, changed, set]

theorem long_stored {v : Int} (low : -9223372036854775808 ≤ v) (high : v < 9223372036854775808) :
    (BitVec.ofInt 64 v).toInt = v := by
  rw [BitVec.toInt_ofInt]
  exact Int.bmod_eq_of_le (by omega) (by omega)

theorem set_table {i : Nat} (low : i < size) (v : Int) :
    update (table size x c) i (setX v) = some (table size (Function.update x i v) c) := by
  have changed := update_table (x := x) (c := c) low (setX v) (v := v) (w := c i) rfl
  rwa [Function.update_eq_self] at changed

theorem count_table {i : Nat} (low : i < size) (some_count : 0 ≤ c i) (room : c i < 2147483648) :
    update (table size x c) i countY = some (table size x (Function.update c i (c i + 1))) := by
  have read : (BitVec.ofInt 64 (c i)).toInt = c i := long_stored (by omega) (by omega)
  have fits : signed 64 (c i + 1) = some (c i + 1) := signed_fits (by omega) (by omega)
  have changed := update_table (x := x) (c := c) low countY (v := x i) (w := c i + 1)
    (by rw [countY, read, fits]; rfl)
  rwa [Function.update_eq_self] at changed

end table

section buckets
variable {data : Container} {size : Nat} {min max w : Int}

def starts (min w : Int) (k : Nat) (i : Nat) : Int := if i < k then min + i * w else 0

theorem starts_next (min w : Int) (k : Nat) :
    Function.update (starts min w k) k (min + k * w) = starts min w (k + 1) := by
  funext i
  by_cases same : i = k
  · subst same
    simp [starts]
  · have step : i < k + 1 ↔ i < k := by omega
    simp only [Function.update_of_ne same, starts, step]

theorem start_le (positive : 0 ≤ w) {i j : Nat} (order : i ≤ j) : (i : Int) * w ≤ j * w :=
  Int.mul_le_mul_of_nonneg_right (by omega) positive

/-- A width whose multiples from the lowest value on are longs, up to the last bucket. -/
structure Spaced (size : Nat) (min w : Int) : Prop where
  positive : 0 < w
  low : -9223372036854775808 ≤ min
  spread : (size - 1) * w < 9223372036854775808
  last : min + (size - 1) * w < 9223372036854775808

theorem start_long (spaced : Spaced size min w) {k : Nat} (inside : k < size) :
    0 ≤ k * w ∧ k * w < 9223372036854775808 ∧ min + k * w < 9223372036854775808 := by
  obtain ⟨positive, low, spread, last⟩ := spaced
  have top := start_le (Int.le_of_lt positive) (show k ≤ size - 1 by omega)
  rw [show ((size - 1 : Nat) : Int) = size - 1 by omega] at top
  have zero := Int.mul_nonneg (Int.natCast_nonneg k) (Int.le_of_lt positive)
  omega

theorem bound_turn (spaced : Spaced size min w) {k : Nat} (inside : k < size) {records : List Record}
    (set : records = table size (starts min w k) fun _ => 0) :
    ∃ next, boundTurn min w k records = some next ∧ next = table size (starts min w (k + 1)) fun _ => 0 := by
  have low := spaced.low
  obtain ⟨zero, high, fits⟩ := start_long spaced inside
  have offset : signed 64 (k * w) = some (k * w) := signed_fits (by omega) (by omega)
  have start : signed 64 (min + k * w) = some (min + k * w) := signed_fits (by omega) (by omega)
  refine ⟨_, ?_, rfl⟩
  rw [boundTurn, offset, Option.bind_eq_bind, Option.bind_some, start, Option.bind_some, set,
    set_table inside, starts_next]

theorem bound_loop (spaced : Spaced size min w) (some_bucket : 0 < size) (small : size < 2147483648) :
    intLoop (boundTurn min w) (size - 1) 1 (table size (starts min w 1) fun _ => 0) =
      some (table size (starts min w size) fun _ => 0) := by
  obtain ⟨records, ran, rfl⟩ := int_loop_inv
    (fun k records => records = table size (starts min w k) fun _ => 0) (size - 1) 1
    (fun k s _ high set => bound_turn spaced (by omega) set) (by omega) rfl
  rw [ran]
  congr 3
  omega

def bucket (size : Nat) (min w y : Int) : Nat := Min.min ((y - min) / w) (size - 1) |>.toNat

theorem bucket_lt (some_bucket : 0 < size) (y : Int) : bucket size min w y < size := by
  rw [bucket]
  omega

/-- The counts after the first `k` values. -/
def counts (size : Nat) (min w : Int) (ys : List Int) (k i : Nat) : Int :=
  (ys.take k).countP fun y => bucket size min w y = i

theorem counts_next {ys : List Int} {k : Nat} {y : Int} (value : ys[k]? = some y) :
    Function.update (counts size min w ys k) (bucket size min w y)
      (counts size min w ys k (bucket size min w y) + 1) = counts size min w ys (k + 1) := by
  funext i
  simp only [counts, List.take_add_one, value, Option.toList_some, List.countP_append, List.countP_singleton]
  by_cases same : i = bucket size min w y
  · subst same
    simp
  · simp [Function.update_of_ne same, Ne.symm same, counts]

theorem counts_nonneg (ys : List Int) (k i : Nat) : 0 ≤ counts size min w ys k i :=
  Int.natCast_nonneg _

theorem counts_le (ys : List Int) (k i : Nat) : counts size min w ys k i ≤ ys.length := by
  have taken := List.countP_le_length (p := fun y => decide (bucket size min w y = i)) (l := ys.take k)
  rw [List.length_take] at taken
  rw [counts]
  omega

theorem count_turn (filled : Filled data) (range : Range data.values min max)
    (fits : max - min < 9223372036854775808) (positive : 0 < w) (some_bucket : 0 < size)
    (few : data.index + 1 < 2147483648) {x : Nat → Int} {k : Nat} (inside : k < data.values.length)
    {records : List Record} (set : records = table size x (counts size min w data.values k)) :
    ∃ next, countTurn data min w size k records = some next ∧
      next = table size x (counts size min w data.values (k + 1)) := by
  obtain ⟨r, read, value⟩ := value_at filled inside
  have member := List.mem_of_getElem? value
  have above := range.above _ member
  have below := range.below _ member
  have length := values_length filled
  have at_most : counts size min w data.values k (bucket size min w r.y.toInt) ≤ data.values.length :=
    counts_le data.values k (bucket size min w r.y.toInt)
  have offset : signed 64 (r.y.toInt - min) = some (r.y.toInt - min) :=
    signed_fits (by omega) (by omega)
  have quotient : (r.y.toInt - min).tdiv w = (r.y.toInt - min) / w :=
    Int.tdiv_eq_ediv_of_nonneg (by omega)
  have not_negative := Int.ediv_nonneg (show 0 ≤ r.y.toInt - min by omega) (Int.le_of_lt positive)
  have chosen : (if (r.y.toInt - min) / w < size - 1 then (r.y.toInt - min) / w else (size : Int) - 1) =
      (bucket size min w r.y.toInt : Nat) := by
    rw [bucket]
    split <;> omega
  refine ⟨_, ?_, rfl⟩
  rw [countTurn, read]
  simp only [Option.bind_eq_bind, Option.bind_some, offset, quotient, chosen, set]
  rw [count_table (bucket_lt some_bucket _) (counts_nonneg _ _ _) (by omega), counts_next value]

theorem count_loop (filled : Filled data) (range : Range data.values min max)
    (fits : max - min < 9223372036854775808) (positive : 0 < w) (some_bucket : 0 < size)
    (few : data.index + 1 < 2147483648) (x : Nat → Int) :
    intLoop (countTurn data min w size) (data.index + 1).toNat 0 (table size x fun _ => 0) =
      some (table size x fun i => data.values.countP fun y => bucket size min w y = i) := by
  have length := values_length filled
  obtain ⟨records, ran, rfl⟩ := int_loop_inv
    (fun k records => records = table size x (counts size min w data.values k))
    (data.index + 1).toNat 0
    (fun k s _ high set => count_turn filled range fits positive some_bucket few (by omega) set)
    (by omega) rfl
  have all : counts size min w data.values (0 + (data.index + 1).toNat) =
      fun i => ((data.values.countP fun y => bucket size min w y = i : Nat) : Int) := by
    funext i
    rw [counts, List.take_of_length_le (by omega)]
  rw [all] at ran
  exact ran

theorem width_spaced (range : Range data.values min max) (some_bucket : 0 < size)
    (fits : max - min < 9223372036854775808) (countable : Countable size data min max) :
    Spaced size min (width size min max) := by
  obtain ⟨_, buckets, last⟩ := countable
  have order := range.above max range.max_in
  have cut := Int.ediv_mul_le (max - min) (show (size : Int) ≠ 0 by omega)
  have not_negative := Int.ediv_nonneg (show 0 ≤ max - min by omega) (Int.natCast_nonneg size)
  refine ⟨?_, (values_long range.min_in).1, ?_, last⟩
  · rw [width]
    omega
  · by_cases wide : 1 ≤ (max - min) / size
    · have whole : width size min max = (max - min) / size := by
        rw [width]
        omega
      rw [whole, Int.sub_mul, Int.one_mul, Int.mul_comm]
      omega
    · have one : width size min max = 1 := by
        rw [width]
        omega
      rw [one]
      omega

def made (size : Nat) (min w : Int) (ys : List Int) : Container :=
  ⟨size, -1, table size (starts min w size) fun i => ys.countP fun y => bucket size min w y = i⟩

theorem hist_filled (filled : Filled data) (range : Range data.values min max) (some_bucket : 0 < size)
    (fits : max - min < 9223372036854775808) (small : data.index + 1 < 2147483648) :
    stats_hist (fresh size) data =
      (histFill data min (width size min max) size (table size (fun _ => 0) fun _ => 0)).map
        fun records => (0, ⟨size, -1, records⟩) := by
  have some_record := filled.some_record
  have order := range.above max range.max_in
  have span : signed 64 (max - min) = some (max - min) := signed_fits (by omega) (by omega)
  have chosen : (if (max - min).tdiv size > 1 then (max - min).tdiv size else 1) = width size min max := by
    rw [width, Int.tdiv_eq_ediv_of_nonneg (by omega)]
    split <;> omega
  have hist_size : (fresh size).size = size := rfl
  rw [stats_hist, if_neg (by omega), hist_range filled range small]
  simp only [Option.bind_eq_bind, Option.bind_some, span, hist_size, chosen, fresh_table]
  cases histFill data min (width size min max) size (table size (fun _ => 0) fun _ => 0) <;> rfl

theorem first_start (some_bucket : 0 < size) (min w : Int) :
    update (table size (fun _ => 0) fun _ => 0) 0 (setX min) = some (table size (starts min w 1) fun _ => 0) := by
  have begun := set_table (x := fun _ => 0) (c := fun _ => 0) some_bucket min
  have next := starts_next min w 0
  have none_yet : starts min w 0 = fun _ => 0 := by
    funext i
    simp [starts]
  rw [none_yet, Nat.cast_zero, Int.zero_mul, Int.add_zero] at next
  rw [next] at begun
  exact begun

theorem hist_made (filled : Filled data) (range : Range data.values min max) (some_bucket : 0 < size)
    (fits : max - min < 9223372036854775808) (countable : Countable size data min max) :
    stats_hist (fresh size) data = some (0, made size min (width size min max) data.values) := by
  have spaced := width_spaced range some_bucket fits countable
  have bounds := bound_loop spaced some_bucket countable.buckets
  have counted := count_loop filled range fits spaced.positive some_bucket countable.records
    (starts min (width size min max) size)
  have left : ((size : Int) - 1).toNat = size - 1 := by omega
  rw [hist_filled filled range some_bucket fits countable.records, histFill,
    first_start some_bucket min (width size min max), left]
  simp only [Option.bind_eq_bind, Option.bind_some, bounds, counted]
  rfl

def printed (size : Nat) (min w : Int) (ys : List Int) (i : Nat) : Line where
  low := min + i * w
  high := if i + 1 < size then some (min + ((i + 1 : Nat) : Int) * w) else none
  count := ys.countP fun y => bucket size min w y = i

theorem printed_count (ys : List Int) (i : Nat) :
    (printed size min w ys i).count = (ys.countP fun y => bucket size min w y = i : Nat) := rfl

theorem starts_read (spaced : Spaced size min w) {i : Nat} (inside : i < size) :
    (BitVec.ofInt 64 (starts min w size i)).toInt = min + i * w := by
  have low := spaced.low
  obtain ⟨zero, _, fits⟩ := start_long spaced inside
  rw [starts, if_pos inside]
  exact long_stored (by omega) (by omega)

theorem line_printed (spaced : Spaced size min w) {ys : List Int} (few : ys.length < 2147483648) {i : Nat}
    (inside : i < size) : histLine (made size min w ys) i = some (printed size min w ys i) := by
  have at_most := List.countP_le_length (p := fun y => decide (bucket size min w y = i)) (l := ys)
  have count : (BitVec.ofInt 64 ((ys.countP fun y => bucket size min w y = i : Nat) : Int)).toInt =
      (ys.countP fun y => bucket size min w y = i : Nat) := long_stored (by omega) (by omega)
  rw [histLine]
  simp only [made, table_at inside, Option.bind_eq_bind, Option.bind_some]
  by_cases more : i + 1 < size
  · rw [if_pos (by omega), table_at more, Option.bind_some, starts_read spaced inside,
      starts_read spaced more, count, printed, if_pos more]
  · rw [if_neg (by omega), starts_read spaced inside, count, printed, if_neg more]

theorem covers_iff (positive : 0 < w) {y : Int} (above : min ≤ y) {ys : List Int} {i : Nat}
    (inside : i < size) : (printed size min w ys i).Covers y ↔ bucket size min w y = i := by
  have from_start : (i : Int) ≤ (y - min) / w ↔ i * w ≤ y - min := Int.le_ediv_iff_mul_le positive
  have to_next : (y - min) / w < ((i + 1 : Nat) : Int) ↔ y - min < ((i + 1 : Nat) : Int) * w :=
    Int.ediv_lt_iff_lt_mul positive
  have not_negative := Int.ediv_nonneg (show 0 ≤ y - min by omega) (Int.le_of_lt positive)
  simp only [Line.Covers, printed, bucket]
  by_cases more : i + 1 < size
  · simp only [if_pos more, Option.mem_some_iff, forall_eq']
    omega
  · simp only [if_neg more, Option.mem_def, reduceCtorEq, false_implies, implies_true, and_true]
    omega

theorem bucket_once {b : Nat} (inside : b < size) : (List.range size).count b = 1 :=
  List.count_eq_one_of_mem List.nodup_range (List.mem_range.mpr inside)

theorem counts_sum (b : Int → Nat) (ys : List Int) (inside : ∀ y ∈ ys, b y < size) :
    ((List.range size).map fun i => ((ys.countP fun y => b y = i : Nat) : Int)).sum = ys.length := by
  induction ys with
  | nil => simp
  | cons y ys ih =>
    have here := bucket_once (inside y (by simp))
    have rest := ih fun z mem => inside z (List.mem_cons_of_mem y mem)
    have once : ((List.range size).map fun i => if i = b y then (1 : Int) else 0).sum = 1 := by
      rw [List.sum_map_ite_eq, here]
      simp
    have split : ∀ i, (((y :: ys).countP fun y => b y = i : Nat) : Int) =
        (ys.countP fun y => b y = i : Nat) + if i = b y then 1 else 0 := by
      intro i
      by_cases same : i = b y
      · simp [same]
      · simp [same, Ne.symm same]
    simp only [split, List.sum_map_add, rest, once, List.length_cons]
    omega

theorem lines_made (spaced : Spaced size min w) {ys : List Int} (few : ys.length < 2147483648) :
    histLines (made size min w ys) = some ((List.range size).map (printed size min w ys)) := by
  have each : ∀ i < size, histLine (made size min w ys) i = some (printed size min w ys i) :=
    fun i inside => line_printed spaced few inside
  obtain ⟨lines, read, length, same⟩ := gather_some (histLine (made size min w ys)) size
    fun i inside => ⟨_, each i inside⟩
  have whole : lines = (List.range size).map (printed size min w ys) := by
    apply List.ext_getElem?
    intro i
    by_cases inside : i < size
    · simp [same i inside, each i inside, inside]
    · simp [length, inside]
  rw [← whole, ← read]
  rfl

theorem counted_of (filled : Filled data) (range : Range data.values min max) (some_bucket : 0 < size)
    (fits : max - min < 9223372036854775808) (countable : Countable size data min max) :
    Counted size data := by
  have spaced := width_spaced range some_bucket fits countable
  have small := countable.records
  have few : data.values.length < 2147483648 := by
    rw [values_length filled]
    omega
  have inside : ∀ y ∈ data.values, bucket size min (width size min max) y < size :=
    fun y _ => bucket_lt some_bucket y
  refine ⟨_, _, hist_made filled range some_bucket fits countable, lines_made spaced few, ?_, ?_, ?_, ?_, ?_⟩
  · simp
  · rw [List.map_map]
    exact counts_sum (bucket size min (width size min max)) data.values inside
  · intro i line at_i
    obtain ⟨low, same⟩ := List.getElem?_eq_some_iff.mp at_i
    simp only [List.length_map, List.length_range] at low
    simp only [List.getElem_map, List.getElem_range] at same
    rw [← same, printed]
    by_cases more : i + 1 < size
    · simp [more, Nat.ne_of_lt more]
    · simp only [more, if_false, true_iff]
      omega
  · intro line member
    obtain ⟨i, low, rfl⟩ := List.mem_map.mp member
    have covers : ∀ y ∈ data.values, (bucket size min (width size min max) y = i ↔
        (printed size min (width size min max) data.values i).Covers y) :=
      fun y mem => (covers_iff spaced.positive (range.above y mem) (List.mem_range.mp low)).symm
    rw [printed_count, Nat.cast_inj]
    exact List.countP_congr fun y mem => by simpa only [decide_eq_true_eq] using covers y mem
  · intro y mem
    rw [List.countP_map, ← bucket_once (inside y mem), List.count_eq_countP]
    refine List.countP_congr fun i low => ?_
    have covers : (printed size min (width size min max) data.values i).Covers y ↔
        bucket size min (width size min max) y = i :=
      covers_iff spaced.positive (range.above y mem) (List.mem_range.mp low)
    simp only [Function.comp_apply, decide_eq_true_eq, beq_iff_eq]
    exact covers.trans eq_comm

end buckets

section overflow
variable {data : Container} {size : Nat} {min max : Int}

theorem bound_turn_fails {w : Int} {k : Nat} (wide : 9223372036854775808 ≤ min + k * w)
    (records : List Record) : boundTurn min w k records = none := by
  rw [boundTurn]
  cases product : signed 64 (k * w) with
  | none => rfl
  | some offset =>
    obtain ⟨rfl, _, _⟩ := signed_some product
    rw [Option.bind_eq_bind, Option.bind_some, signed_overflow (by omega)]
    rfl

theorem fill_overflow {w : Int} (some_bucket : 0 < size)
    (overflow : 2147483648 ≤ size ∨ 9223372036854775808 ≤ min + (size - 1) * w)
    (long : min < 9223372036854775808) :
    histFill data min w size (table size (fun _ => 0) fun _ => 0) = none := by
  have loop : ∀ records, intLoop (boundTurn min w) (size - 1) 1 records = none := by
    intro records
    rcases overflow with many | wide
    · exact int_loop_overflow (by omega) (by omega) records
    · by_cases one : size = 1
      · subst one
        simp at wide
        omega
      · refine int_loop_fails (k := size - 1) (by omega) (by omega) (fun s => ?_) records
        exact bound_turn_fails (by rwa [show ((size - 1 : Nat) : Int) = size - 1 by omega]) s
  have left : ((size : Int) - 1).toNat = size - 1 := by omega
  rw [histFill, first_start some_bucket min w, left]
  simp only [Option.bind_eq_bind, Option.bind_some, loop]
  rfl

theorem countable_of (filled : Filled data) (range : Range data.values min max)
    (some_bucket : 0 < size) (fits : max - min < 9223372036854775808)
    (counted : Counted size data) : Countable size data min max := by
  obtain ⟨hist, _, answer, _⟩ := counted
  have some_record := filled.some_record
  have long := (values_long range.min_in).2
  have records : data.index + 1 < 2147483648 := by
    by_contra large
    have hist_size : (fresh size).size = size := rfl
    rw [stats_hist, if_neg (by omega), hist_range_overflow (by omega)] at answer
    cases answer
  have runs : ¬ (2147483648 ≤ size ∨ 9223372036854775808 ≤ min + (size - 1) * width size min max) := by
    intro overflow
    rw [hist_filled filled range some_bucket fits records, fill_overflow some_bucket overflow long]
      at answer
    cases answer
  exact ⟨records, by omega, by omega⟩

end overflow

/-- The histogram counts every record in its bucket exactly when the counters and the bucket starts do not
overflow. -/
theorem hist_counted_iff (data : Container) (filled : Filled data) (size : Nat) (some_bucket : 0 < size)
    (min max : Int) (range : Range data.values min max) (fits : max - min < 9223372036854775808) :
    Counted size data ↔ Countable size data min max :=
  ⟨countable_of filled range some_bucket fits, counted_of filled range some_bucket fits⟩

def five : Container := ⟨1, 0, [⟨0, 5⟩]⟩

theorem five_filled : Filled five := ⟨by decide, by decide⟩

theorem five_range : Range five.values 5 5 := by
  have values : five.values = [5] := by decide
  rw [values]
  exact ⟨by simp, by simp, by simp, by simp⟩

theorem hist_counted_iff_five : Counted 2 five ↔ Countable 2 five 5 5 :=
  hist_counted_iff five five_filled 2 (by decide) 5 5 five_range (by decide)

theorem buckets_beyond_int : ¬ ∀ (data : Container), Filled data → ∀ size : Nat, 0 < size →
    ∀ min max : Int, Range data.values min max → max - min < 9223372036854775808 → Counted size data := by
  intro all
  have counted := all five five_filled 2147483648 (by decide) 5 5 five_range (by decide)
  have countable := countable_of five_filled five_range (by decide) (by decide) counted
  exact absurd countable.buckets (by decide)

end Stats
