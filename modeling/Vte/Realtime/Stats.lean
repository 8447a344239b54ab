import Vte.Base.CInt
import Vte.Base.Machine
import Mathlib.Tactic.Common

/-!
testcases/realtime/lib/libstats.c: the container of statistics records. What `calloc`, `realloc` and
`qsort` give is part of a call; an access outside the records has no result.
-/
namespace Stats
open CInt Machine

abbrev Long := BitVec 64

structure Record where
  x : Long
  y : Long
deriving DecidableEq

def Record.zero : Record := ⟨0, 0⟩

structure Container where
  size : Int
  index : Int
  records : List Record
deriving DecidableEq

/-- A long whose first `n` bytes in memory, the low ones, are set to zero. -/
def clearLow (n : Nat) (v : Long) : Long := v >>> (8 * n) <<< (8 * n)

/-- A record whose first `n` bytes are set to zero. -/
def Record.clear (n : Nat) (r : Record) : Record := ⟨clearLow (min n 8) r.x, clearLow (min (n - 8) 8) r.y⟩

/-- `memset` of `n` bytes, from the record at `pos` on. -/
def memset (records : List Record) (pos n : Nat) : Option (List Record) :=
  if 16 * pos + n ≤ 16 * records.length then
    some (records.take pos ++ (records.drop pos).mapIdx fun j r => r.clear (n - 16 * j))
  else none

/-- One call, with what the library answers: whether `calloc` has memory; the records behind those kept,
as `realloc` found them in memory, if it has any; the order that `qsort` gives. -/
inductive Call where
  | init (size : Int) (calloc : Bool)
  | append (rec : Record)
  | resize (size : Int) (realloc : Option (List Record))
  | sort (qsort : List Record)
deriving DecidableEq

def stats_container_init (size : Int) (calloc : Bool) : Int × Container :=
  if calloc then (0, ⟨size, -1, List.replicate size.toNat .zero⟩) else (-1, ⟨size, -1, []⟩)

def stats_container_append (data : Container) (rec : Record) : Option (Int × Container) :=
  let myindex := int32 (data.index + 1)
  if myindex ≥ data.size then some (-1, data)
  else if 0 ≤ myindex ∧ myindex < data.records.length then
    some (myindex, { data with
      index := data.index + 1
      records := data.records.set myindex.toNat rec })
  else none

/-- The records that `size * sizeof(stats_record_t)` bytes hold; the product is a number of 64 bits. -/
def allocated (size : Int) : Nat := u64 (size * 16) / 16

def stats_container_resize (data : Container) (size : Int) (realloc : Option (List Record)) :
    Option (Int × Container) :=
  match realloc with
  | none => if allocated size = 0 then none else some (-1, data)
  | some fresh => do
    let newrecords := data.records.take (allocated size) ++ fresh
    let cleared ←
      if data.size < size then memset newrecords data.size.toNat (size - data.size).toNat
      else some newrecords
    some (0, { data with size, records := cleared })

def stats_sort (data : Container) (qsort : List Record) : Option (Int × Container) :=
  let held := (data.index + 1).toNat
  if held ≤ data.records.length then
    some (0, { data with records := qsort ++ data.records.drop held })
  else none

def call : Call → Container → Option (Int × Container)
  | .init size calloc, _ => some (stats_container_init size calloc)
  | .append rec, data => stats_container_append data rec
  | .resize size realloc, data => stats_container_resize data size realloc
  | .sort qsort, data => stats_sort data qsort

def step (c : Call) (data : Container) : Option Container := (call c data).map Prod.snd

def runCalls : List Call → Container → Option (List Int × Container)
  | [], data => some ([], data)
  | c :: calls, data => do
    let (ret, data) ← call c data
    let (rets, data) ← runCalls calls data
    some (ret :: rets, data)

def Below (a b : Record) : Prop := a.y.toInt ≤ b.y.toInt

def Allowed : Call → Container → Prop
  | .init size calloc, _ => calloc = true → 0 ≤ size ∧ size < 2 ^ 60
  | .append _, _ => True
  | .resize size realloc, data =>
    1 ≤ size ∧ size < 2 ^ 63 ∧ ∀ fresh ∈ realloc, fresh.length = allocated size - data.records.length
  | .sort qsort, data =>
    qsort.Perm (data.records.take (data.index + 1).toNat) ∧ qsort.Pairwise Below

structure Holder where
  size : Nat
  held : List Record

inductive Effect : Call → Holder → Int → Holder → Prop
  | init (size : Nat) (h : Holder) : Effect (.init size true) h 0 ⟨size, []⟩
  | append (rec : Record) (h : Holder) (room : h.held.length < h.size) :
    Effect (.append rec) h h.held.length ⟨h.size, h.held ++ [rec]⟩
  | full (rec : Record) (h : Holder) (full : h.held.length = h.size) : Effect (.append rec) h (-1) h
  | resize (size : Nat) (fresh : List Record) (h : Holder) :
    Effect (.resize size (some fresh)) h 0 ⟨size, h.held.take size⟩
  | unchanged (size : Int) (h : Holder) : Effect (.resize size none) h (-1) h
  | sort (qsort : List Record) (h : Holder) (same : qsort.Perm h.held) (sorted : qsort.Pairwise Below) :
    Effect (.sort qsort) h 0 ⟨h.size, qsort⟩

inductive Effects : List Call → Holder → List Int → Holder → Prop
  | nil (h : Holder) : Effects [] h [] h
  | cons {c : Call} {calls : List Call} {h h' h'' : Holder} {ret : Int} {rets : List Int}
    (first : Effect c h ret h') (rest : Effects calls h' rets h'') :
    Effects (c :: calls) h (ret :: rets) h''

structure Represents (data : Container) (h : Holder) : Prop where
  size : data.size = h.size
  index : data.index + 1 = h.held.length
  room : h.held.length ≤ h.size
  records : data.records = h.held ++ List.replicate (h.size - h.held.length) .zero

/-- No byte of the memory that `realloc` gives is left, after the first `n` ones. -/
def ZeroAfter (n : Nat) (fresh : List Record) : Prop :=
  ∀ (j : Nat) (r : Record), fresh[j]? = some r → r.clear (n - 16 * j) = .zero

/-- `calloc` has memory; the index fits in an `int`; no record is cut off, the bytes asked for fit in 64 bits
and those that are not cleared are zero. -/
def Meets : Call → Container → Prop
  | .init _ calloc, _ => calloc = true
  | .append _, data => data.index + 1 < 2 ^ 31
  | .resize size none, _ => allocated size ≠ 0
  | .resize size (some fresh), data =>
    data.index + 1 ≤ size ∧ size < 2 ^ 60 ∧ ZeroAfter (size - data.size).toNat fresh
  | .sort _, _ => True

theorem allocated_small {size : Int} (low : 0 ≤ size) (high : size < 2 ^ 60) :
    allocated size = size.toNat := by
  have whole : (u64 (size * 16) : Int) = size * 16 := u64_small (by omega) (by omega)
  rw [allocated]
  omega

theorem clear_fresh {n : Nat} {fresh : List Record} (zero : ZeroAfter n fresh) :
    (fresh.mapIdx fun j r => r.clear (n - 16 * j)) = List.replicate fresh.length .zero := by
  apply List.ext_getElem
  · simp
  · intro j inside _
    simp only [List.length_mapIdx] at inside
    simp only [List.getElem_mapIdx, List.getElem_replicate]
    exact zero j fresh[j] (List.getElem?_eq_getElem inside)

def Carried (c : Call) (data : Container) (h : Holder) : Prop :=
  ∃ ret data' h', call c data = some (ret, data') ∧ Effect c h ret h' ∧ Represents data' h'

section calls
variable {data : Container} {h : Holder}

theorem represents_length (rep : Represents data h) : data.records.length = h.size := by
  have room := rep.room
  rw [rep.records, List.length_append, List.length_replicate]
  omega

theorem init_carried {size : Int} (low : 0 ≤ size) (data : Container) (h : Holder) :
    Carried (.init size true) data h := by
  obtain ⟨n, rfl⟩ := Int.eq_ofNat_of_zero_le low
  exact ⟨0, ⟨n, -1, List.replicate n .zero⟩, ⟨n, []⟩, rfl, .init n h, ⟨rfl, rfl, Nat.zero_le n, rfl⟩⟩

theorem append_carried (rep : Represents data h) (rec : Record) (small : data.index + 1 < 2 ^ 31) :
    Carried (.append rec) data h := by
  have length := represents_length rep
  obtain ⟨size, index, room, records⟩ := rep
  have myindex : int32 (data.index + 1) = h.held.length := by
    rw [index]
    exact int32_small (by omega) (by omega)
  by_cases full : h.held.length = h.size
  · refine ⟨-1, data, h, ?_, .full rec h full, ⟨size, index, room, records⟩⟩
    rw [call, stats_container_append, myindex, if_pos (by omega)]
  · refine ⟨h.held.length, ⟨data.size, data.index + 1, data.records.set h.held.length rec⟩,
      ⟨h.size, h.held ++ [rec]⟩, ?_, .append rec h (by omega), ?_⟩
    · rw [call, stats_container_append, myindex, if_neg (by omega), if_pos (by omega), Int.toNat_natCast]
    · have left : h.size - h.held.length = h.size - (h.held.length + 1) + 1 := by omega
      refine ⟨size, ?_, ?_, ?_⟩
      · simp [index]
      · simp only [List.length_append, List.length_singleton]
        omega
      · simp [records, left, List.replicate_succ]

theorem zeros_resized {held : List Record} {size n : Nat} (room : held.length ≤ size)
    (kept : held.length ≤ n) :
    (held ++ List.replicate (size - held.length) Record.zero).take n ++ List.replicate (n - size) Record.zero =
        held ++ List.replicate (n - held.length) Record.zero := by
  rw [List.take_append, List.take_of_length_le kept, List.take_replicate, List.append_assoc,
    List.replicate_append_replicate]
  congr 2
  omega

theorem resize_some {n : Nat} {fresh : List Record} (size : data.size = data.records.length)
    (count : allocated n = n) (more : fresh.length = n - data.records.length) :
    stats_container_resize data n (some fresh) = some (0, ⟨n, data.index, data.records.take n ++
        fresh.mapIdx fun j r => r.clear ((n - data.size).toNat - 16 * j)⟩) := by
  by_cases grows : data.size < n
  · have old : data.records.take n = data.records := List.take_of_length_le (by omega)
    have inside : 16 * data.size.toNat + (n - data.size).toNat ≤ 16 * (data.records ++ fresh).length := by
      rw [List.length_append]
      omega
    have position : data.size.toNat = data.records.length := by omega
    simp only [stats_container_resize, count, old, if_pos grows, memset, if_pos inside,
      Option.bind_eq_bind, Option.bind_some]
    rw [position, List.take_left, List.drop_left]
  · have empty : fresh = [] := List.length_eq_zero_iff.mp (by omega)
    simp [stats_container_resize, count, if_neg grows, empty]

theorem resize_carried (rep : Represents data h) {size : Int} {realloc : Option (List Record)}
    (allowed : Allowed (.resize size realloc) data) (meets : Meets (.resize size realloc) data) :
    Carried (.resize size realloc) data h := by
  have length := represents_length rep
  cases realloc with
  | none =>
    refine ⟨-1, data, h, ?_, .unchanged size h, rep⟩
    rw [call, stats_container_resize, if_neg meets]
  | some fresh =>
    obtain ⟨low, _, memory⟩ := allowed
    obtain ⟨kept, small, zero⟩ := meets
    obtain ⟨n, rfl⟩ := Int.eq_ofNat_of_zero_le (show 0 ≤ size by omega)
    have count : allocated n = n := allocated_small (by omega) small
    have more : fresh.length = n - h.size := by
      rw [memory fresh rfl, count, length]
    obtain ⟨old, index, room, records⟩ := rep
    have whole : h.held.length ≤ n := by omega
    refine ⟨0, ⟨n, data.index, h.held ++ List.replicate (n - h.held.length) .zero⟩,
      ⟨n, h.held.take n⟩, ?_, .resize n fresh h, ?_⟩
    · have filled : (fresh.mapIdx fun j r => r.clear ((n - data.size).toNat - 16 * j)) =
          List.replicate (n - h.size) .zero := by
        rw [clear_fresh zero, more]
      rw [call, resize_some (by omega) count (by rw [length]; exact more), filled, records, zeros_resized room whole]
    · rw [List.take_of_length_le whole]
      exact ⟨rfl, index, whole, rfl⟩

theorem sort_carried (rep : Represents data h) {qsort : List Record}
    (allowed : Allowed (.sort qsort) data) : Carried (.sort qsort) data h := by
  have length := represents_length rep
  obtain ⟨size, index, room, records⟩ := rep
  obtain ⟨same, sorted⟩ := allowed
  have held : (data.index + 1).toNat = h.held.length := by omega
  rw [held, records, List.take_left] at same
  have count := same.length_eq
  refine ⟨0, ⟨data.size, data.index, qsort ++ data.records.drop h.held.length⟩, ⟨h.size, qsort⟩, ?_,
    .sort qsort h same sorted, ?_⟩
  · rw [call, stats_sort, held, if_pos (by omega)]
  · refine ⟨size, by rw [index, count], by rw [count]; exact room, ?_⟩
    simp only [records, List.drop_left, count]

theorem call_carried {c : Call} (rep : Represents data h) (allowed : Allowed c data)
    (meets : Meets c data) : Carried c data h := by
  cases c with
  | init size calloc =>
    obtain rfl : calloc = true := meets
    exact init_carried (allowed rfl).1 data h
  | append rec => exact append_carried rep rec meets
  | resize size realloc => exact resize_carried rep allowed meets
  | sort qsort => exact sort_carried rep allowed

end calls

def Right (calls : List Call) (data : Container) (h : Holder) : Prop :=
  ∃ rets data' h', runCalls calls data = some (rets, data') ∧ Effects calls h rets h' ∧ Represents data' h'

theorem right_cons {c : Call} {calls : List Call} {data : Container} {h : Holder}
    (carried : Carried c data h)
    (rest : ∀ data' h', step c data = some data' → Represents data' h' → Right calls data' h') :
    Right (c :: calls) data h := by
  obtain ⟨ret, data', h', called, effect, rep⟩ := carried
  obtain ⟨rets, data'', h'', ran, effects, last⟩ := rest data' h' (by rw [step, called]; rfl) rep
  refine ⟨ret :: rets, data'', h'', ?_, .cons effect effects, last⟩
  simp only [runCalls, called, ran, Option.bind_eq_bind, Option.bind_some]

theorem calls_right {calls : List Call} {data : Container} {h : Holder} (rep : Represents data h)
    (met : Along step (fun c data => Allowed c data ∧ Meets c data) calls data) :
    Right calls data h := by
  induction calls generalizing data h with
  | nil => exact ⟨[], data, h, rfl, .nil h, rep⟩
  | cons c calls ih =>
    obtain ⟨⟨allowed, meets⟩, later⟩ := met
    exact right_cons (call_carried rep allowed meets) fun data' h' taken kept => ih kept (later data' taken)

/-- From an initialisation on, a container is what its calls make of it as long as these meet the
conditions. -/
theorem container_right (size : Int) (calls : List Call) (data : Container)
    (met : Along step (fun c data => Allowed c data ∧ Meets c data) (.init size true :: calls) data) :
    Right (.init size true :: calls) data ⟨0, []⟩ := by
  obtain ⟨⟨allowed, _⟩, later⟩ := met
  exact right_cons (init_carried (allowed rfl).1 data ⟨0, []⟩) fun data' h' taken kept =>
    calls_right kept (later data' taken)

section decisions

instance (c : Call) (data : Container) : Decidable (Allowed c data) :=
  match c with
  | .init size calloc => inferInstanceAs (Decidable (calloc = true → 0 ≤ size ∧ size < 2 ^ 60))
  | .append _ => inferInstanceAs (Decidable True)
  | .resize size realloc =>
    inferInstanceAs (Decidable (1 ≤ size ∧ size < 2 ^ 63 ∧
      ∀ fresh ∈ realloc, fresh.length = allocated size - data.records.length))
  | .sort qsort =>
    have : DecidableRel Below := fun a b => inferInstanceAs (Decidable (a.y.toInt ≤ b.y.toInt))
    inferInstanceAs (Decidable (qsort.Perm (data.records.take (data.index + 1).toNat) ∧ qsort.Pairwise Below))

instance (n : Nat) (fresh : List Record) : Decidable (ZeroAfter n fresh) :=
  decidable_of_iff (∀ (j : Nat) (inside : j < fresh.length), (fresh[j]).clear (n - 16 * j) = .zero) <| by
    simp only [ZeroAfter, List.getElem?_eq_some_iff, forall_exists_index]
    constructor
    · rintro all j r inside rfl
      exact all j inside
    · intro all j inside
      exact all j fresh[j] inside rfl

instance (c : Call) (data : Container) : Decidable (Meets c data) :=
  match c with
  | .init _ calloc => inferInstanceAs (Decidable (calloc = true))
  | .append _ => inferInstanceAs (Decidable (data.index + 1 < 2 ^ 31))
  | .resize size none => inferInstanceAs (Decidable (allocated size ≠ 0))
  | .resize size (some fresh) =>
    inferInstanceAs (Decidable (data.index + 1 ≤ size ∧ size < 2 ^ 60 ∧ ZeroAfter (size - data.size).toNat fresh))
  | .sort _ => inferInstanceAs (Decidable True)

end decisions

def unused : Container := ⟨0, 0, []⟩

theorem container_right_four_calls :
    Right [.init 2 true, .append ⟨1, 7⟩, .append ⟨2, 5⟩, .resize 3 (some [⟨0, 0⟩]), .sort [⟨2, 5⟩, ⟨1, 7⟩]]
      unused ⟨0, []⟩ :=
  container_right 2 [.append ⟨1, 7⟩, .append ⟨2, 5⟩, .resize 3 (some [⟨0, 0⟩]), .sort [⟨2, 5⟩, ⟨1, 7⟩]]
    unused (by decide)

theorem shrunk_below_index : ¬ ∀ (size : Int) (calls : List Call) (data : Container),
    Along step Allowed (.init size true :: calls) data → Right (.init size true :: calls) data ⟨0, []⟩ := by
  intro all
  obtain ⟨rets, data, h, ran, _, rep⟩ :=
    all 2 [.append ⟨0, 7⟩, .append ⟨1, 5⟩, .resize 1 (some [])] unused (by decide)
  have shrunk : runCalls [.init 2 true, .append ⟨0, 7⟩, .append ⟨1, 5⟩, .resize 1 (some [])] unused =
      some ([0, 0, 1, 0], ⟨1, 1, [⟨0, 7⟩]⟩) := by decide
  rw [shrunk] at ran
  obtain ⟨_, rfl⟩ := Prod.mk.inj (Option.some.inj ran)
  obtain ⟨size, index, room, _⟩ := rep
  simp only at size index
  omega

end Stats
