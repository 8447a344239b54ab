import Mathlib.Algebra.Order.BigOperators.Group.Multiset
import Mathlib.Tactic.Abel
import Vte.Base.Occurrences
import Vte.Mem.Ksm

/-!
testcases/kernel/mem/lib/mem.c: the options of the KSM tests, what the children write into their
memory, and the counters that are expected of KSM. A fault, an int that does not fit, a write outside
the units and the allocation of a negative size have no result. The check of the contents counts with
what it allocates only.
-/
namespace VteKsm
open CInt Text Occurrences

structure Options where
  size : Option Int32
  unit : Option Int32
  num : Option Int32

structure Sizes where
  size : Int
  num : Int
  unit : Int

structure GroupCheck where
  run : Int
  pages_shared : Int
  pages_sharing : Int
  pages_volatile : Int
  pages_unshared : Int
  sleep_millisecs : Int
  pages_to_scan : Int

structure Round where
  check : GroupCheck
  memory : List Str

section code

def given (o : Option Int32) (default : Int) : Int := (o.map Int32.toInt).getD default

def checkKsmOptions (o : Options) : Option (Except String Sizes) :=
  let size := given o.size 128
  let unit := given o.unit 1
  let num := given o.num 3
  if o.size.isSome ∧ size < 1 then some (.error "size cannot be less than 1.")
  else if o.unit.isSome ∧ unit > size then some (.error "unit cannot be greater than size.")
  else if o.unit.isSome ∧ unit = 0 then none
  else if o.unit.isSome ∧ size.tmod unit ≠ 0 then
    some (.error "the remainder of division of size by unit is not zero.")
  else if o.num.isSome ∧ num < 3 then some (.error "process number cannot be less 3.")
  else some (.ok { size, num, unit })

def quotient (a b : Int) : Option Int := if b = 0 then none else signed 32 (a.tdiv b)

def setByte (memory : List Str) (j : Nat) (c : Char) (i : Nat) : Option (List Str) :=
  (memory[j]?).bind fun unit =>
    if i < unit.length then some (memory.set j (unit.set i c)) else none

def fillUnit (c : Char) (length : Nat) (memory : List Str) (j : Nat) : Option (List Str) :=
  (List.range length).foldlM (fun memory i => setByte memory j c i) memory

def ksmChildMemset (size total_unit : Int) (d : KsmMergeData) (memory : List Str) :
    Option (List Str) := do
  let unit ← quotient size total_unit
  if 2147483647 < u64 (unit * mb) then none
  else
    let memory ← (List.range total_unit.toNat).foldlM (fillUnit d.data (u64 (unit * mb))) memory
    if u64 d.mergeable_size < u64 (size * mb) then
      setByte memory (total_unit.toNat - 1) 'e' (u64 (unit * mb) - 1)
    else some memory

def childRounds (size unit total_unit : Int) : List KsmMergeData → List Str → Option (List (List Str))
  | [], _ => some []
  | d :: ds, memory => do
    let memory ← ksmChildMemset size total_unit d memory
    let _ ← (verifyCalls size unit total_unit d).mapM verifySize
    let rest ← childRounds size unit total_unit ds memory
    return memory :: rest

def createKsmChild (size unit : Int) (ksm_merge_data : List KsmMergeData) :
    Option (List (List Str)) := do
  let total_unit ← quotient size unit
  -- what is mapped is zero
  let memory := List.replicate total_unit.toNat (List.replicate (u64 (unit * mb)) '\x00')
  if total_unit < 0 then none else childRounds size unit total_unit ksm_merge_data memory

/-- `ksm_data0`, `ksm_data1`, `ksm_data2`, and the copies of the first for the other children. -/
def ksmData (size : Int) : Nat → List KsmMergeData
  | 1 =>
    [{ data := 'a', mergeable_size := int32 (u64 (size * mb)) },
     { data := 'b', mergeable_size := int32 (u64 (size * mb)) },
     { data := 'd', mergeable_size := int32 (u64 (size * mb)) },
     { data := 'd', mergeable_size := int32 (u64 (size * mb - 1)) }]
  | 2 =>
    [{ data := 'a', mergeable_size := int32 (u64 (size * mb)) },
     { data := 'a', mergeable_size := int32 (u64 (size * mb)) },
     { data := 'd', mergeable_size := int32 (u64 (size * mb)) },
     { data := 'd', mergeable_size := int32 (u64 (size * mb)) }]
  | _ =>
    [{ data := 'c', mergeable_size := int32 (u64 (size * mb)) },
     { data := 'c', mergeable_size := int32 (u64 (size * mb)) },
     { data := 'd', mergeable_size := int32 (u64 (size * mb)) },
     { data := 'd', mergeable_size := int32 (u64 (size * mb)) }]

/-- The units of all children after their filling `round`. -/
def roundMemory (runs : List (List (List Str))) (round : Nat) : List Str :=
  runs.flatMap fun run => run.getD round []

def groupChecks (s : Sizes) (pages all : Int) (runs : List (List (List Str))) : List Round :=
  let check (run shared less unshared : Int) : GroupCheck :=
    { run, pages_shared := shared, pages_sharing := less, pages_volatile := 0,
      pages_unshared := unshared, sleep_millisecs := 0,
      pages_to_scan := int32 (u64 (s.size * pages * s.num)) }
  [{ check := check 1 2 (int32 (u64 (all * pages - 2))) 0, memory := roundMemory runs 0 },
   { check := check 1 3 (int32 (u64 (all * pages - 3))) 0, memory := roundMemory runs 1 },
   { check := check 1 1 (int32 (u64 (all * pages - 1))) 0, memory := roundMemory runs 2 },
   { check := check 1 1 (int32 (u64 (all * pages - 2))) 1, memory := roundMemory runs 3 },
   { check := check 2 0 0 0, memory := [] },
   { check := check 0 0 0 0, memory := [] }]

def createSameMemory (ps : Nat) (s : Sizes) : Option (List Round) := do
  let pages : Int := (1048576 / ps : Nat)
  let copies ← signed 32 (s.num - 3)
  if copies < 0 then none
  else
    let runs ← (List.range s.num.toNat).mapM fun i =>
      createKsmChild s.size s.unit (ksmData s.size i)
    let all ← signed 32 (s.size * s.num)
    return groupChecks s pages all runs

end code

section spec

structure PageSize where
  ps : Nat
  divides : ps ∣ 1048576
  several : 2 * ps ≤ 1048576

def pagesOf (ps : Nat) (unit : Str) : List Str :=
  (List.range (unit.length / ps)).map fun p => (unit.drop (p * ps)).take ps

def contents (ps : Nat) (memory : List Str) : Multiset Str := (memory.flatMap (pagesOf ps) : List Str)

def TrueCounters (ps : Nat) (r : Round) : Prop :=
  r.check.pages_shared = repeated (contents ps r.memory) ∧
  r.check.pages_shared + r.check.pages_sharing = occurrences (contents ps r.memory) ∧
  r.check.pages_unshared = single (contents ps r.memory)

def KsmRight (page : PageSize) (o : Options) : Prop :=
  match checkKsmOptions o with
  | none => False
  | some (.error _) => True
  | some (.ok s) => ∃ rounds, createSameMemory page.ps s = some rounds ∧ ∀ r ∈ rounds, TrueCounters page.ps r

/-- The options are refused, or the unit is positive and all sizes of memory fit an int: the one of a
child in bytes, and the one of all children in pages less one. -/
def KsmCond (page : PageSize) (o : Options) : Prop :=
  let size := given o.size 128
  let unit := given o.unit 1
  let num := given o.num 3
  size < 1 ∨ size < unit ∨ unit ≠ 0 ∧ (¬ unit ∣ size ∨ num < 3 ∨ 0 < unit ∧ size * 1048576 < 2147483648 ∧
      size * num * (1048576 / page.ps : Nat) - 1 < 2147483648)

end spec

section filling
variable {memory : List Str} {c : Char} {n j total unit : Nat}

theorem set_last {α : Type*} {x y : α} (pos : 0 < n) :
    (List.replicate n x).set (n - 1) y = List.replicate (n - 1) x ++ [y] := by
  obtain ⟨m, rfl⟩ := Nat.exists_eq_succ_of_ne_zero pos.ne'
  rw [Nat.succ_sub_one, List.replicate_succ', List.set_append_right _ _ (by simp),
    List.length_replicate, Nat.sub_self, List.set_cons_zero]

theorem bytes_set {u : Str} (here : memory[j]? = some u) (room : n ≤ u.length) :
    (List.range n).foldlM (fun memory i => setByte memory j c i) memory =
      some (memory.set j (List.replicate n c ++ u.drop n)) := by
  induction n with
  | zero =>
    obtain ⟨inside, rfl⟩ := List.getElem?_eq_some_iff.mp here
    simp
  | succ n ih =>
    have inside := (List.getElem?_eq_some_iff.mp here).1
    have next : n < (List.replicate n c ++ u.drop n).length := by
      rw [List.length_append, List.length_replicate, List.length_drop]
      omega
    have byte : (List.replicate n c ++ u.drop n).set n c = List.replicate (n + 1) c ++ u.drop (n + 1) := by
      rw [List.drop_eq_getElem_cons (by omega), List.set_append_right _ _ (by simp),
        List.length_replicate, Nat.sub_self, List.set_cons_zero, List.replicate_succ',
        List.append_assoc]
      rfl
    rw [List.range_succ, List.foldlM_append, ih (by omega), Option.bind_eq_bind, Option.bind_some,
      List.foldlM_cons, setByte, List.getElem?_set_self inside, Option.bind_some, if_pos next, byte,
      List.set_set]
    rfl

theorem units_set (lengths : ∀ u ∈ memory, u.length = n) (below : j ≤ memory.length) :
    (List.range j).foldlM (fillUnit c n) memory = some (List.replicate j (List.replicate n c) ++ memory.drop j) := by
  induction j with
  | zero => rfl
  | succ j ih =>
    have here : (List.replicate j (List.replicate n c) ++ memory.drop j)[j]? = some memory[j] := by
      rw [List.getElem?_append_right (by simp), List.length_replicate, Nat.sub_self,
        List.drop_eq_getElem_cons (by omega)]
      rfl
    have length := lengths _ (List.getElem_mem (show j < memory.length by omega))
    have rest : memory[j].drop n = [] := List.drop_of_length_le (by omega)
    have set := bytes_set (c := c) (n := n) here (by omega)
    rw [List.range_succ, List.foldlM_append, ih (by omega), Option.bind_eq_bind, Option.bind_some,
      List.foldlM_cons, fillUnit, set, rest, List.append_nil,
      List.set_append_right _ _ (by simp), List.length_replicate, Nat.sub_self,
      List.drop_eq_getElem_cons (by omega), List.set_cons_zero, List.replicate_succ',
      List.append_assoc]
    rfl

def filled (total length : Nat) (c : Char) (differs : Prop) [Decidable differs] : List Str :=
  if differs then
    List.replicate (total - 1) (List.replicate length c) ++ [List.replicate (length - 1) c ++ ['e']]
  else List.replicate total (List.replicate length c)

theorem memory_filled (all : memory.length = total) (lengths : ∀ u ∈ memory, u.length = n) :
    (List.range total).foldlM (fillUnit c n) memory = some (List.replicate total (List.replicate n c)) := by
  rw [units_set lengths (by omega), List.drop_of_length_le (by omega), List.append_nil]

def Differs (size : Int) (d : KsmMergeData) : Prop := u64 d.mergeable_size < u64 (size * mb)

instance (size : Int) (d : KsmMergeData) : Decidable (Differs size d) :=
  inferInstanceAs (Decidable (_ < _))

theorem quotient_exact (pos : 0 < n) (small : total < 2147483648) :
    quotient (total * n : Nat) n = some (total : Int) := by
  rw [quotient, if_neg (by omega), Int.natCast_mul, Int.mul_tdiv_cancel _ (by omega), signed_fits (by omega) (by omega)]

theorem memset_fills (d : KsmMergeData) (some_unit : 0 < total) (some_mb : 0 < unit)
    (small : total * unit < 2147483648) (counted : unit * 1048576 < 2147483648)
    (all : memory.length = total) (lengths : ∀ u ∈ memory, u.length = unit * 1048576) :
    ksmChildMemset (total * unit : Nat) total d memory =
      some (filled total (unit * 1048576) d.data (Differs (total * unit : Nat) d)) := by
  have unitSize : quotient (total * unit : Nat) total = some (unit : Int) := by
    rw [Nat.mul_comm]
    exact quotient_exact some_unit (Nat.lt_of_le_of_lt (Nat.le_mul_of_pos_left unit some_unit) small)
  have bytes : u64 (unit * mb) = unit * 1048576 := by
    rw [mb_value, u64]
    omega
  unfold ksmChildMemset filled
  rw [unitSize, Option.bind_eq_bind, Option.bind_some, bytes, if_neg (by omega), Int.toNat_natCast,
    memory_filled all lengths, Option.bind_eq_bind, Option.bind_some]
  by_cases differs : Differs (total * unit : Nat) d
  · have last : (List.replicate total (List.replicate (unit * 1048576) d.data))[total - 1]? =
        some (List.replicate (unit * 1048576) d.data) :=
      List.getElem?_replicate_of_lt (by omega)
    have less : u64 d.mergeable_size < u64 ((total * unit : Nat) * mb) := differs
    rw [if_pos less, if_pos differs, setByte, last, Option.bind_some,
      if_pos (by rw [List.length_replicate]; omega), set_last some_unit, set_last (by omega)]
  · have full : ¬ u64 d.mergeable_size < u64 ((total * unit : Nat) * mb) := differs
    rw [if_neg full, if_neg differs]

theorem filled_length (some_unit : 0 < total) (differs : Prop) [Decidable differs] :
    (filled total n c differs).length = total := by
  unfold filled
  split
  · rw [List.length_append, List.length_replicate, List.length_singleton]
    omega
  · exact List.length_replicate

theorem filled_units (some_byte : 0 < n) (differs : Prop) [Decidable differs] :
    ∀ u ∈ filled total n c differs, u.length = n := by
  intro u member
  unfold filled at member
  split at member
  · rcases List.mem_append.mp member with first | last
    · rw [List.eq_of_mem_replicate first, List.length_replicate]
    · rw [List.mem_singleton.mp last, List.length_append, List.length_replicate, List.length_singleton]
      omega
  · rw [List.eq_of_mem_replicate member, List.length_replicate]

end filling

section children
variable {memory : List Str} {total unit : Nat}

theorem sizes_small (some_unit : 0 < total) (some_mb : 0 < unit)
    (counted : total * unit * 1048576 < 2147483648) :
    unit * 1048576 < 2147483648 ∧ total * unit < 2147483648 ∧ total < 2147483648 := by
  have size : total * unit < 2147483648 :=
    Nat.lt_of_le_of_lt (Nat.le_mul_of_pos_right _ (by decide)) counted
  refine ⟨Nat.lt_of_le_of_lt ?_ counted, size, Nat.lt_of_le_of_lt ?_ size⟩
  · exact Nat.mul_le_mul_right _ (Nat.le_mul_of_pos_left unit some_unit)
  · exact Nat.le_mul_of_pos_right total some_mb

theorem unit_bytes_u64 (small : unit < 2147483648) : u64 (unit * mb) = unit * 1048576 := by
  rw [mb_value, u64]
  omega

theorem fresh_units (total n : Nat) (c : Char) :
    ∀ u ∈ List.replicate total (List.replicate n c), u.length = n := by
  intro u member
  rw [List.eq_of_mem_replicate member, List.length_replicate]

theorem size_from_first {rows columns : Nat} (value : Char) (rowsSmall : rows < 2147483648)
    (columnsSmall : columns < 2147483648) (small : rows * columns < 2147483648) :
    verifySize { value, start := 0, end_ := rows, start2 := 0, end2 := columns } = some (rows * columns : Nat) := by
  have size := verify_size_fits (.mk value 0 rows 0 columns)
  dsimp only at size
  rw [Int.sub_zero, Int.sub_zero, ← Int.natCast_mul] at size
  generalize rows * columns = product at small size
  exact size (by omega) (by omega) (by omega) (by omega) (by omega) (by omega)

theorem checks_allocate (d : KsmMergeData) (some_unit : 0 < total) (some_mb : 0 < unit)
    (counted : total * unit * 1048576 < 2147483648) :
    ∃ sizes, (verifyCalls (total * unit : Nat) unit total d).mapM verifySize = some sizes := by
  obtain ⟨unitSmall, sizeSmall, totalSmall⟩ := sizes_small some_unit some_mb counted
  obtain ⟨whole, short⟩ := arguments some_mb unitSmall
  have product : total * (unit * 1048576) < 2147483648 := by
    rw [← Nat.mul_assoc]
    exact counted
  have wholeNat : int32 (u64 (unit * mb)) = (unit * 1048576 : Nat) := by
    rw [whole, Int.natCast_mul]
    rfl
  have shortNat : int32 (u64 (unit * mb - 1)) = (unit * 1048576 - 1 : Nat) := by
    rw [short]
    omega
  unfold verifyCalls
  rw [wholeNat, shortNat]
  generalize unit * 1048576 = length at unitSmall product
  have less : total * (length - 1) ≤ total * length := Nat.mul_le_mul_left _ (Nat.sub_le ..)
  have fewer : total * (length - 1) < 2147483648 := Nat.lt_of_le_of_lt less product
  split
  · have one : (total : Int) - (total - 1) = 1 := by omega
    have last := verify_size_fits (.mk 'e' (total - 1) total (length - 1 : Nat) length)
    dsimp only at last
    rw [one, Int.one_mul] at last
    rw [List.mapM_cons, last (by omega) (by omega) (by omega) (by omega) (by omega) (by omega), List.mapM_cons,
      size_from_first d.data totalSmall (by omega) fewer]
    exact ⟨_, rfl⟩
  · rw [List.mapM_cons, size_from_first d.data totalSmall unitSmall product]
    exact ⟨_, rfl⟩

theorem rounds_filled (ds : List KsmMergeData) (some_unit : 0 < total) (some_mb : 0 < unit)
    (counted : total * unit * 1048576 < 2147483648) (all : memory.length = total)
    (lengths : ∀ u ∈ memory, u.length = unit * 1048576) :
    childRounds (total * unit : Nat) unit total ds memory = some (ds.map fun d =>
      filled total (unit * 1048576) d.data (Differs (total * unit : Nat) d)) := by
  obtain ⟨unitSmall, sizeSmall, _⟩ := sizes_small some_unit some_mb counted
  induction ds generalizing memory with
  | nil => rfl
  | cons d ds ih =>
    obtain ⟨sizes, allocated⟩ := checks_allocate d some_unit some_mb counted
    have rest := ih (filled_length some_unit _)
      (filled_units (c := d.data) (Nat.mul_pos some_mb (by decide)) (Differs (total * unit : Nat) d))
    rw [childRounds, memset_fills d some_unit some_mb sizeSmall unitSmall all lengths,
      Option.bind_eq_bind, Option.bind_some, allocated, Option.bind_eq_bind, Option.bind_some,
      rest, Option.bind_eq_bind, Option.bind_some, List.map_cons, Option.pure_def]

theorem child_filled (ds : List KsmMergeData) (some_unit : 0 < total) (some_mb : 0 < unit)
    (counted : total * unit * 1048576 < 2147483648) :
    createKsmChild (total * unit : Nat) unit ds = some (ds.map fun d =>
      filled total (unit * 1048576) d.data (Differs (total * unit : Nat) d)) := by
  obtain ⟨unitSmall, _, totalSmall⟩ := sizes_small some_unit some_mb counted
  have bytes : u64 (unit * mb) = unit * 1048576 := unit_bytes_u64 (by omega)
  unfold createKsmChild
  rw [quotient_exact some_mb totalSmall, Option.bind_eq_bind, Option.bind_some,
    if_neg (Int.not_lt.mpr (Int.natCast_nonneg total)), bytes, Int.toNat_natCast]
  exact rounds_filled ds some_unit some_mb counted List.length_replicate (fresh_units _ _ _)

theorem child_negative {size unit : Int} (ds : List KsmMergeData) (pos : 0 < size)
    (negative : unit < 0) (parts : unit ∣ size) : createKsmChild size unit ds = none := by
  obtain ⟨q, rfl⟩ := parts
  have less : q < 0 := by
    by_contra high
    have := Int.mul_nonpos_of_nonpos_of_nonneg (show unit ≤ 0 by omega) (show 0 ≤ q by omega)
    omega
  unfold createKsmChild quotient
  rw [if_neg (by omega), Int.mul_tdiv_cancel_left _ (by omega), Option.bind_eq_bind]
  by_cases fits : -2 ^ (32 - 1) ≤ q ∧ q < 2 ^ (32 - 1)
  · rw [signed, if_pos fits, Option.bind_some, if_pos less]
  · rw [signed, if_neg fits, Option.bind_none]

theorem size_as_int {size : Int} (low : 2147483648 ≤ size * 1048576) (small : size < 2147483648)
    (differs : u64 (int32 (u64 (size * mb))) < u64 (size * mb)) : 4294967296 ≤ size * 1048576 := by
  by_contra below
  rw [mb_value, u64_small (by omega) (by omega), int32_wrapped (by omega) (by omega)] at differs
  have wrapped := u64_negative (x := size * 1048576 - 4294967296) (by omega) (by omega)
  have itself := u64_small (x := size * 1048576) (by omega) (by omega)
  omega

/-- A size of 2^31 bytes or more: what the first child allocates for its check is too large, or the
bytes of a unit cannot be counted. -/
theorem child_large (d : KsmMergeData) (ds : List KsmMergeData) (some_unit : 0 < total)
    (some_mb : 0 < unit) (small : total * unit < 2147483648)
    (large : 2147483648 ≤ total * unit * 1048576)
    (whole : d.mergeable_size = int32 (u64 ((total * unit : Nat) * mb))) :
    createKsmChild (total * unit : Nat) unit (d :: ds) = none := by
  have totalSmall : total < 2147483648 :=
    Nat.lt_of_le_of_lt (Nat.le_mul_of_pos_right total some_mb) small
  have unitSmall : unit < 2147483648 :=
    Nat.lt_of_le_of_lt (Nat.le_mul_of_pos_left unit some_unit) small
  have bytes : u64 (unit * mb) = unit * 1048576 := unit_bytes_u64 unitSmall
  unfold createKsmChild
  rw [quotient_exact some_mb totalSmall, Option.bind_eq_bind, Option.bind_some,
    if_neg (Int.not_lt.mpr (Int.natCast_nonneg total)), bytes, Int.toNat_natCast, childRounds]
  by_cases counted : unit * 1048576 < 2147483648
  · rw [memset_fills d some_unit some_mb small counted List.length_replicate (fresh_units _ _ _),
      Option.bind_eq_bind, Option.bind_some]
    have refused : (verifyCalls (total * unit : Nat) unit total d).mapM verifySize = none := by
      obtain ⟨all, short⟩ := arguments some_mb counted
      have product : (2147483648 : Int) ≤ total * (unit * 1048576) := by
        rw [← mul_assoc]
        exact_mod_cast large
      unfold verifyCalls
      rw [all, short]
      split
      · rename_i differs
        have larger : (4294967296 : Int) ≤ total * (unit * 1048576) := by
          rw [whole, Int.natCast_mul] at differs
          rw [← mul_assoc] at product ⊢
          exact size_as_int product (by exact_mod_cast small) differs
        rw [List.mapM_cons, List.mapM_cons]
        cases second : verifySize (.mk d.data 0 total 0 (unit * 1048576 - 1)) with
        | none => cases verifySize (.mk 'e' (total - 1) total (unit * 1048576 - 1) (unit * 1048576)) <;> rfl
        | some size =>
          obtain ⟨value, -, below⟩ := verify_size_some second
          dsimp only at value
          rw [Int.sub_zero, Int.sub_zero, mul_sub] at value
          omega
      · rw [List.mapM_cons]
        cases first : verifySize (.mk d.data 0 total 0 (unit * 1048576)) with
        | none => rfl
        | some size =>
          obtain ⟨value, -, below⟩ := verify_size_some first
          dsimp only at value
          rw [Int.sub_zero, Int.sub_zero] at value
          omega
    rw [refused, Option.bind_eq_bind, Option.bind_none]
  · have unitSize : quotient (total * unit : Nat) total = some (unit : Int) := by
      rw [Nat.mul_comm]
      exact quotient_exact some_unit unitSmall
    have overflow : 2147483647 < unit * 1048576 := Nat.not_lt.mp counted
    have uncounted (memory : List Str) : ksmChildMemset (total * unit : Nat) total d memory = none := by
      rw [ksmChildMemset, unitSize, Option.bind_eq_bind, Option.bind_some, bytes, if_pos overflow]
    rw [uncounted, Option.bind_eq_bind, Option.bind_none]

end children

section pages
variable {ps m total : Nat} {c : Char}

theorem pages_of_filled (pos : 0 < ps) :
    pagesOf ps (List.replicate (m * ps) c) = List.replicate m (List.replicate ps c) := by
  unfold pagesOf
  rw [List.length_replicate, Nat.mul_div_cancel _ pos]
  refine List.eq_replicate_iff.mpr ⟨by simp, fun page member => ?_⟩
  obtain ⟨p, below, rfl⟩ := List.mem_map.mp member
  have room : (p + 1) * ps ≤ m * ps := Nat.mul_le_mul_right _ (List.mem_range.mp below)
  rw [Nat.succ_mul] at room
  rw [List.drop_replicate, List.take_replicate, Nat.min_eq_left (by omega)]

def oddPage (ps : Nat) (c : Char) : Str := List.replicate (ps - 1) c ++ ['e']

theorem pages_of_odd (pos : 0 < ps) (some_page : 0 < m) :
    pagesOf ps (List.replicate (m * ps - 1) c ++ ['e']) =
      List.replicate (m - 1) (List.replicate ps c) ++ [oddPage ps c] := by
  obtain ⟨k, rfl⟩ := Nat.exists_eq_succ_of_ne_zero some_page.ne'
  have split : List.replicate (k.succ * ps - 1) c ++ ['e'] = List.replicate (k * ps) c ++ oddPage ps c := by
    rw [oddPage, ← List.append_assoc, List.replicate_append_replicate, Nat.succ_mul]
    congr 2
    omega
  have length : (oddPage ps c).length = ps := by
    rw [oddPage, List.length_append, List.length_replicate, List.length_singleton]
    omega
  have first := pages_of_filled (m := k) (c := c) pos
  unfold pagesOf at first ⊢
  rw [List.length_replicate, Nat.mul_div_cancel _ pos] at first
  rw [split, List.length_append, List.length_replicate, length, ← Nat.succ_mul,
    Nat.mul_div_cancel _ pos, List.range_succ, List.map_append, Nat.succ_sub_one, ← first]
  congr 1
  · refine List.map_congr_left fun p below => ?_
    have room : (p + 1) * ps ≤ k * ps := Nat.mul_le_mul_right _ (List.mem_range.mp below)
    rw [Nat.succ_mul] at room
    rw [List.drop_append_of_le_length (by rw [List.length_replicate]; omega),
      List.take_append_of_le_length (by rw [List.length_drop, List.length_replicate]; omega)]
  · rw [List.map_singleton, List.drop_append_of_le_length (by rw [List.length_replicate]),
      List.drop_of_length_le (by rw [List.length_replicate]), List.nil_append,
      List.take_of_length_le (by omega)]

theorem contents_append (a b : List Str) : contents ps (a ++ b) = contents ps a + contents ps b := by
  rw [contents, List.flatMap_append, ← Multiset.coe_add]
  rfl

theorem contents_units (total m : Nat) (c : Char) (pos : 0 < ps) :
    contents ps (List.replicate total (List.replicate (m * ps) c)) =
      Multiset.replicate (total * m) (List.replicate ps c) := by
  rw [contents, List.flatMap_replicate, pages_of_filled pos, List.flatten_replicate_replicate, Multiset.coe_replicate]

theorem contents_filled (total m : Nat) (c : Char) (pos : 0 < ps) (differs : Prop)
    [Decidable differs] (same : ¬ differs) : contents ps (filled total (m * ps) c differs) =
      Multiset.replicate (total * m) (List.replicate ps c) := by
  rw [filled, if_neg same]
  exact contents_units total m c pos

theorem contents_odd (pos : 0 < ps) (some_unit : 0 < total) (some_page : 0 < m) (differs : Prop)
    [Decidable differs] (other : differs) : contents ps (filled total (m * ps) c differs) =
      Multiset.replicate (total * m - 1) (List.replicate ps c) + Multiset.replicate 1 (oddPage ps c) := by
  obtain ⟨t, rfl⟩ := Nat.exists_eq_succ_of_ne_zero some_unit.ne'
  have count : t * m + (m - 1) = t.succ * m - 1 := by
    rw [Nat.succ_mul]
    omega
  rw [filled, if_pos other, contents_append, Nat.succ_sub_one, ← count, Multiset.replicate_add, add_assoc]
  congr 1
  · exact contents_units t m c pos
  · rw [contents, List.flatMap_singleton, pages_of_odd pos some_page, ← Multiset.coe_add, Multiset.coe_replicate]
    rfl

theorem contents_children (g : Nat → List Str) (copies : ∀ i, g (i + 3) = g 0) (k : Nat) :
    contents ps ((List.range (k + 3)).flatMap g) =
      contents ps (g 0) + contents ps (g 1) + contents ps (g 2) + k • contents ps (g 0) := by
  induction k with
  | zero =>
    have three : (List.range (0 + 3)).flatMap g = g 0 ++ (g 1 ++ g 2) := by
      simp [List.range_succ]
    rw [three, contents_append, contents_append, zero_nsmul, add_zero, add_assoc]
  | succ k ih =>
    have next : k + 1 + 3 = k + 3 + 1 := by omega
    rw [next, List.range_succ, List.flatMap_append, contents_append, ih, List.flatMap_singleton,
      copies, succ_nsmul, add_assoc]

end pages

section counters
variable {ps m k total unit : Nat}

theorem page_ne {a b : Char} (pos : 0 < ps) (other : a ≠ b) :
    List.replicate ps a ≠ List.replicate ps b := by
  intro same
  have member : a ∈ List.replicate ps b := same ▸ List.mem_replicate.mpr ⟨pos.ne', rfl⟩
  exact other (List.eq_of_mem_replicate member)

theorem odd_page_ne (ps : Nat) : List.replicate ps 'd' ≠ oddPage ps 'd' := by
  intro same
  have member : 'e' ∈ List.replicate ps 'd' := by
    rw [same]
    exact List.mem_append_right _ (List.mem_singleton.mpr rfl)
  exact absurd (List.eq_of_mem_replicate member) (by decide)

def childRuns (total unit : Nat) (i : Nat) : List (List Str) :=
  (ksmData (total * unit : Nat) i).map fun d =>
    filled total (unit * 1048576) d.data (Differs (total * unit : Nat) d)

theorem whole_same {size : Nat} (counted : size * 1048576 < 2147483648) (c : Char) :
    ¬ Differs size { data := c, mergeable_size := int32 (u64 (size * mb)) } := by
  have itself := u64_small (x := size * 1048576) (by omega) (by omega)
  unfold Differs
  dsimp only
  rw [mb_value, itself, int32_small (by omega) (by omega)]
  exact Nat.lt_irrefl _

theorem last_differs {size : Nat} (counted : size * 1048576 < 2147483648) (pos : 0 < size) (c : Char) :
    Differs size { data := c, mergeable_size := int32 (u64 (size * mb - 1)) } := by
  have itself := u64_small (x := size * 1048576) (by omega) (by omega)
  have less := u64_small (x := size * 1048576 - 1) (by omega) (by omega)
  unfold Differs
  dsimp only
  rw [mb_value, less, int32_small (by omega) (by omega)]
  omega

theorem round_contents (k round : Nat) :
    contents ps (roundMemory ((List.range (k + 3)).map (childRuns total unit)) round) =
      contents ps ((childRuns total unit 0).getD round []) + contents ps ((childRuns total unit 1).getD round []) +
        contents ps ((childRuns total unit 2).getD round []) +
        k • contents ps ((childRuns total unit 0).getD round []) := by
  have copies (i : Nat) : ksmData (total * unit : Nat) (i + 3) = ksmData (total * unit : Nat) 0 := rfl
  rw [roundMemory, List.flatMap_map]
  refine contents_children (fun i => (childRuns total unit i).getD round []) (fun i => ?_) k
  rw [childRuns, copies, ← childRuns]

theorem rounds_contents (pos : 0 < ps) (some_unit : 0 < total) (some_page : 0 < m)
    (parts : unit * 1048576 = m * ps) (counted : total * unit * 1048576 < 2147483648)
    (some_mb : 0 < unit) (k : Nat) :
    let runs := (List.range (k + 3)).map (childRuns total unit)
    let page := fun c => List.replicate ps c
    contents ps (roundMemory runs 0) = Multiset.replicate (total * m + k * (total * m)) (page 'c') +
      Multiset.replicate (total * m + total * m) (page 'a') ∧
    contents ps (roundMemory runs 1) = Multiset.replicate (total * m + k * (total * m)) (page 'c') +
      (Multiset.replicate (total * m) (page 'b') + Multiset.replicate (total * m) (page 'a')) ∧
    contents ps (roundMemory runs 2) =
      Multiset.replicate (total * m + total * m + total * m + k * (total * m)) (page 'd') ∧
    contents ps (roundMemory runs 3) =
      Multiset.replicate (total * m + (total * m - 1) + total * m + k * (total * m)) (page 'd') +
        Multiset.replicate 1 (oddPage ps 'd') := by
  have same (c : Char) := contents_filled total m c pos _ (whole_same counted c)
  have odd := contents_odd (c := 'd') pos some_unit some_page _
    (last_differs counted (Nat.mul_pos some_unit some_mb) 'd')
  intro runs page
  refine ⟨?_, ?_, ?_, ?_⟩
  all_goals rw [round_contents]
  all_goals simp only [childRuns, ksmData, List.map_cons, List.getD_cons_zero, List.getD_cons_succ,
    parts, same, odd, Multiset.nsmul_replicate, Multiset.replicate_add, page]
  all_goals abel

end counters

section runs
variable {page : PageSize} {total unit k : Nat}

theorem pages_pos (page : PageSize) : 0 < page.ps ∧ 2 ≤ 1048576 / page.ps ∧ 1048576 / page.ps * page.ps = 1048576 := by
  have pos : 0 < page.ps := Nat.pos_of_dvd_of_pos page.divides (by decide)
  exact ⟨pos, (Nat.le_div_iff_mul_le pos).mpr page.several, Nat.div_mul_cancel page.divides⟩

theorem expected {all : Int} {k : Int} (low : k ≤ all) (small : all - k < 2147483648) :
    int32 (u64 (all - k)) = all - k := by
  rw [u64_small (by omega) (by omega), int32_small (by omega) (by omega)]

theorem same_memory_checks {s : Sizes} {runs : List (List (List Str))} (three : 3 ≤ s.num)
    (small : s.num < 2147483648) (ps : Nat)
    (children : (List.range s.num.toNat).mapM (fun i =>
      createKsmChild s.size s.unit (ksmData s.size i)) = some runs) :
    createSameMemory ps s = (signed 32 (s.size * s.num)).map fun all =>
      groupChecks s (1048576 / ps : Nat) all runs := by
  unfold createSameMemory
  rw [signed_fits (by omega) (by omega), Option.bind_eq_bind, Option.bind_some, if_neg (by omega),
    children, Option.bind_eq_bind, Option.bind_some]
  cases signed 32 (s.size * s.num) <;> rfl

theorem children_filled (some_unit : 0 < total) (some_mb : 0 < unit)
    (counted : total * unit * 1048576 < 2147483648) (num : Nat) :
    (List.range num).mapM (fun i =>
      createKsmChild (total * unit : Nat) unit (ksmData (total * unit : Nat) i)) =
      some ((List.range num).map (childRuns total unit)) := by
  have every : (fun i => createKsmChild (total * unit : Nat) unit (ksmData (total * unit : Nat) i)) =
      fun i => some (childRuns total unit i) := by
    funext i
    exact child_filled _ some_unit some_mb counted
  rw [every]
  exact List.mapM_pure

theorem checks_true_iff (page : PageSize) (some_unit : 0 < total) (some_mb : 0 < unit)
    (counted : total * unit * 1048576 < 2147483648) (k : Nat) {s : Sizes} {all : Int}
    (sizes : all = (total * unit : Nat) * (k + 3 : Nat)) :
    (∀ r ∈ groupChecks s (1048576 / page.ps : Nat) all
        ((List.range (k + 3)).map (childRuns total unit)), TrueCounters page.ps r) ↔
      all * (1048576 / page.ps : Nat) - 1 < 2147483648 := by
  obtain ⟨pos, two, divided⟩ := pages_pos page
  generalize 1048576 / page.ps = pages at two divided ⊢
  have some_page : 0 < unit * pages := Nat.mul_pos some_mb (by omega)
  have parts : unit * 1048576 = unit * pages * page.ps := by
    rw [Nat.mul_assoc, divided]
  obtain ⟨first, second, third, fourth⟩ :=
    rounds_contents pos some_unit some_page parts counted some_mb k
  have several : 2 ≤ total * (unit * pages) :=
    Nat.le_trans two (Nat.le_trans (Nat.le_mul_of_pos_left pages some_mb)
      (Nat.le_mul_of_pos_left _ some_unit))
  have product : all * (pages : Nat) = (total * (unit * pages) * 3 + k * (total * (unit * pages)) : Nat) := by
    rw [sizes]
    push_cast
    ring
  generalize total * (unit * pages) = n at product several first second third fourth
  generalize k * n = others at product first second third fourth
  have ac : List.replicate page.ps 'c' ≠ List.replicate page.ps 'a' := page_ne pos (by decide)
  have bc : List.replicate page.ps 'c' ≠ List.replicate page.ps 'b' := page_ne pos (by decide)
  have ba : List.replicate page.ps 'b' ≠ List.replicate page.ps 'a' := page_ne pos (by decide)
  obtain ⟨r0, o0, u0⟩ := two_values (a := n + others) (b := n + n) ac (by omega) (by omega)
  obtain ⟨r1, o1, u1⟩ := three_values (a := n + others) (b := n) (c := n) bc ac ba (by omega)
    several several
  obtain ⟨r2, o2, u2⟩ := one_value (x := List.replicate page.ps 'd') (a := n + n + n + others)
    (by omega)
  obtain ⟨r3, o3, u3⟩ := one_and_single (a := n + (n - 1) + n + others)
    (odd_page_ne page.ps) (by omega)
  have nothing : contents page.ps [] = 0 := rfl
  obtain ⟨r4, o4, u4⟩ := none_occur Str
  unfold groupChecks
  rw [product]
  simp only [List.forall_mem_cons, TrueCounters, first, second, third, fourth, nothing, r0, o0, u0,
    r1, o1, u1, r2, o2, u2, r3, o3, u3, r4, o4, u4]
  generalize whole_eq : n * 3 + others = whole
  constructor
  · rintro ⟨-, -, ⟨-, less, -⟩, -⟩
    have int := int32_lt (u64 ((whole : Nat) - 1))
    generalize int32 (u64 ((whole : Nat) - 1)) = value at less int
    clear counted parts divided product
    omega
  · intro small
    have low (k : Int) (few : k ≤ 3) : k ≤ (whole : Nat) := by omega
    rw [expected (low 1 (by decide)) (by omega), expected (low 2 (by decide)) (by omega),
      expected (low 3 (by decide)) (by omega)]
    refine ⟨⟨rfl, by omega, rfl⟩, ⟨rfl, by omega, rfl⟩, ⟨rfl, by omega, rfl⟩, ⟨rfl, by omega, rfl⟩,
      ⟨rfl, rfl, rfl⟩, ⟨rfl, rfl, rfl⟩, fun r none => absurd none (List.not_mem_nil)⟩

theorem same_memory_none {s : Sizes} (three : 3 ≤ s.num) (small : s.num < 2147483648) (ps : Nat)
    (first : createKsmChild s.size s.unit (ksmData s.size 0) = none) :
    createSameMemory ps s = none := by
  have children : (List.range s.num.toNat).mapM (fun i =>
      createKsmChild s.size s.unit (ksmData s.size i)) = none := by
    obtain ⟨n, more⟩ := Nat.exists_eq_succ_of_ne_zero (show s.num.toNat ≠ 0 by omega)
    rw [more, List.range_succ_eq_map, List.mapM_cons, first]
    rfl
  unfold createSameMemory
  rw [signed_fits (by omega) (by omega), Option.bind_eq_bind, Option.bind_some, if_neg (by omega), children]
  rfl

theorem product_iff {all : Int} {pages : Nat} {P : Int → Prop} {Q : Prop} (low : 0 ≤ all)
    (two : 2 ≤ pages) (right : P all ↔ Q) (holds : Q ↔ all * pages - 1 < 2147483648) :
    (∃ value, signed 32 all = some value ∧ P value) ↔ Q := by
  by_cases fits : all < 2147483648
  · rw [signed_fits (by omega) fits]
    constructor
    · rintro ⟨value, given, right'⟩
      obtain rfl := Option.some.inj given
      exact right.mp right'
    · intro whole
      exact ⟨_, rfl, right.mpr whole⟩
  · rw [signed_overflow (by omega)]
    have more : all * 2 ≤ all * pages := Int.mul_le_mul_of_nonneg_left (by omega) low
    refine iff_of_false (by rintro ⟨_, impossible, _⟩; cases impossible) ?_
    rw [holds]
    omega

theorem first_data (size : Int) : ∃ d ds, ksmData size 0 = d :: ds ∧ d.mergeable_size = int32 (u64 (size * mb)) := by
  unfold ksmData
  generalize int32 (u64 (size * mb)) = whole
  exact ⟨_, _, rfl, rfl⟩

theorem same_memory_iff (page : PageSize) {s : Sizes} (some_size : 1 ≤ s.size)
    (sizeInt : s.size < 2147483648) (nonzero : s.unit ≠ 0) (parts : s.unit ∣ s.size)
    (three : 3 ≤ s.num) (numInt : s.num < 2147483648) :
    (∃ rounds, createSameMemory page.ps s = some rounds ∧ ∀ r ∈ rounds, TrueCounters page.ps r) ↔
      0 < s.unit ∧ s.size * 1048576 < 2147483648 ∧ s.size * s.num * (1048576 / page.ps : Nat) - 1 < 2147483648 := by
  rcases Int.lt_or_gt_of_ne nonzero with negative | positive
  · rw [same_memory_none three numInt page.ps (child_negative _ (by omega) negative parts)]
    refine iff_of_false ?_ (by omega)
    rintro ⟨_, impossible, _⟩
    cases impossible
  · obtain ⟨size, num, unit⟩ := s
    dsimp only at *
    obtain ⟨unit, rfl⟩ := Int.eq_ofNat_of_zero_le (show 0 ≤ unit by omega)
    obtain ⟨size, rfl⟩ := Int.eq_ofNat_of_zero_le (show 0 ≤ size by omega)
    obtain ⟨total, rfl⟩ := Int.natCast_dvd_natCast.mp parts
    rw [Nat.mul_comm] at some_size sizeInt ⊢
    have some_mb : 0 < unit := by omega
    have some_unit : 0 < total := Nat.pos_of_ne_zero (by rintro rfl; omega)
    have sizeSmall : total * unit < 2147483648 := by exact_mod_cast sizeInt
    obtain ⟨k, rfl⟩ : ∃ k : Nat, num = (k + 3 : Nat) := ⟨(num - 3).toNat, by omega⟩
    by_cases counted : total * unit * 1048576 < 2147483648
    · have children := children_filled some_unit some_mb counted (k + 3)
      have checks := same_memory_checks (s := .mk (total * unit : Nat) (k + 3 : Nat) unit) three
        numInt page.ps children
      have low : 0 ≤ ((total * unit : Nat) : Int) * (k + 3 : Nat) :=
        Int.mul_nonneg (Int.natCast_nonneg _) (Int.natCast_nonneg _)
      have countedInt : ((total * unit : Nat) : Int) * 1048576 < 2147483648 := by
        exact_mod_cast counted
      have iff := product_iff (P := fun all => ∀ r ∈ groupChecks
        (.mk (total * unit : Nat) (k + 3 : Nat) unit) (1048576 / page.ps : Nat) all
        ((List.range (k + 3)).map (childRuns total unit)), TrueCounters page.ps r)
        low (pages_pos page).2.1 (checks_true_iff page some_unit some_mb
        counted k (s := .mk (total * unit : Nat) (k + 3 : Nat) unit) rfl) Iff.rfl
      rw [checks]
      constructor
      · rintro ⟨rounds, run, right⟩
        obtain ⟨all, product, rfl⟩ := Option.map_eq_some_iff.mp run
        exact ⟨positive, countedInt, iff.mp ⟨all, product, right⟩⟩
      · rintro ⟨_, _, whole⟩
        obtain ⟨all, product, right⟩ := iff.mpr whole
        exact ⟨_, Option.map_eq_some_iff.mpr ⟨all, product, rfl⟩, right⟩
    · obtain ⟨d, ds, data, whole⟩ := first_data (total * unit : Nat)
      have first := child_large d ds some_unit some_mb sizeSmall (Nat.not_lt.mp counted) whole
      rw [← data] at first
      rw [same_memory_none (s := .mk (total * unit : Nat) (k + 3 : Nat) unit) three numInt page.ps first]
      refine iff_of_false ?_ ?_
      · rintro ⟨_, impossible, _⟩
        cases impossible
      · rintro ⟨_, small, _⟩
        exact counted (by exact_mod_cast small)

theorem given_checked (o : Option Int32) {default : Int} {P : Int → Prop} (passes : ¬ P default) :
    (o.isSome = true ∧ P (given o default)) ↔ P (given o default) := by
  cases o with
  | none => exact iff_of_false (by simp) passes
  | some v => simp

theorem given_int (o : Option Int32) {default : Int} (int : default < 2147483648) :
    given o default < 2147483648 := by
  cases o with
  | none => exact int
  | some v => exact Int32.toInt_lt v

/-- The counters that are expected are the true ones for just these options. -/
theorem ksm_right_iff (page : PageSize) (o : Options) : KsmRight page o ↔ KsmCond page o := by
  have sizeInt : given o.size 128 < 2147483648 := given_int o.size (by decide)
  have numInt : given o.num 3 < 2147483648 := given_int o.num (by decide)
  unfold KsmRight KsmCond checkKsmOptions
  dsimp only
  have small := given_checked o.size (P := (· < 1)) (show ¬ (128 : Int) < 1 by decide)
  have zero := given_checked o.unit (P := (· = 0)) (show ¬ (1 : Int) = 0 by decide)
  have few := given_checked o.num (P := (· < 3)) (show ¬ (3 : Int) < 3 by decide)
  have larger (pos : 1 ≤ given o.size 128) := given_checked o.unit (P := (· > given o.size 128))
    (show ¬ 1 > given o.size 128 by omega)
  have rest := given_checked o.unit (P := fun unit => (given o.size 128).tmod unit ≠ 0)
    (show ¬ (given o.size 128).tmod 1 ≠ 0 by simp)
  generalize given o.size 128 = size at *
  generalize given o.unit 1 = unit at *
  generalize given o.num 3 = num at *
  by_cases size_small : size < 1
  · rw [if_pos (small.mpr size_small)]
    exact iff_of_true trivial (.inl size_small)
  by_cases unit_larger : unit > size
  · rw [if_neg (small.not.mpr size_small), if_pos ((larger (by omega)).mpr unit_larger)]
    exact iff_of_true trivial (.inr (.inl unit_larger))
  by_cases unit_zero : unit = 0
  · rw [if_neg (small.not.mpr size_small), if_neg ((larger (by omega)).not.mpr unit_larger),
      if_pos (zero.mpr unit_zero)]
    exact iff_of_false id (by omega)
  by_cases parts : unit ∣ size
  · have none_left : ¬ size.tmod unit ≠ 0 := not_not.mpr (Int.dvd_iff_tmod_eq_zero.mp parts)
    by_cases num_few : num < 3
    · rw [if_neg (small.not.mpr size_small), if_neg ((larger (by omega)).not.mpr unit_larger),
        if_neg (zero.not.mpr unit_zero), if_neg (rest.not.mpr none_left), if_pos (few.mpr num_few)]
      exact iff_of_true trivial (.inr (.inr ⟨unit_zero, .inr (.inl num_few)⟩))
    · rw [if_neg (small.not.mpr size_small), if_neg ((larger (by omega)).not.mpr unit_larger),
        if_neg (zero.not.mpr unit_zero), if_neg (rest.not.mpr none_left),
        if_neg (few.not.mpr num_few)]
      have run := same_memory_iff page (s := .mk size num unit) (Int.not_lt.mp size_small) sizeInt
        unit_zero parts (Int.not_lt.mp num_few) numInt
      constructor
      · intro right
        exact .inr (.inr ⟨unit_zero, .inr (.inr (run.mp right))⟩)
      · rintro (small | large | ⟨_, other | less | fits⟩)
        · exact absurd small size_small
        · exact absurd large unit_larger
        · exact absurd parts other
        · exact absurd less num_few
        · exact run.mpr fits
  · have some_left : size.tmod unit ≠ 0 := fun none => parts (Int.dvd_iff_tmod_eq_zero.mpr none)
    rw [if_neg (small.not.mpr size_small), if_neg ((larger (by omega)).not.mpr unit_larger),
      if_neg (zero.not.mpr unit_zero), if_pos (rest.mpr some_left)]
    exact iff_of_true trivial (.inr (.inr ⟨unit_zero, .inl parts⟩))

def smallPages : PageSize where
  ps := 4096
  divides := by decide
  several := by decide

theorem unit_zero_faults : ¬ ∀ page o, KsmRight page o := by
  intro all
  exact all smallPages { size := none, unit := some 0, num := none }

end runs
end VteKsm
