import Vte.Base.CInt
import Vte.Base.Multiples
import Vte.Lib.Pattern

/-!
lib/pattern.c with its `int` arguments: any values may be passed, and a length becomes a `size_t`. The
buffer and the pattern are objects of `buflen` and `patlen` bytes; a result is none when a byte outside
them is touched, an `int` overflows or the loop has not ended.
-/
namespace VtePattern
open Memory CInt Multiples
variable {α : Type}

/-- The `n` bytes that `memcpy` or `memcmp` reads. -/
def read (mem : List α) (pos n : Int) : Option (List α) :=
  if u64 n = 0 then some [] else if 0 ≤ pos then load mem pos.toNat (u64 n) else none

def memcpyArgs (mem : List α) (dst : Int) (pat : List α) (src n : Int) : Option (List α) := do
  let cells ← read pat src n
  if cells = [] then some mem else if 0 ≤ dst then store mem dst.toNat cells else none

def rem (a b : Int) : Option Int := do
  let _ ← checked32 (a.tdiv b)
  some (a.tmod b)

/-- `if (patlen) patshift = patshift % patlen` -/
def reduced (patlen patshift : Int) : Option Int :=
  if patlen ≠ 0 then rem patshift patlen else some patshift

def fillLoopArgs (buflen : Int) : Nat → List α → Int → Int → Option (List α)
  | 0, _, _, _ => none
  | fuel + 1, mem, ncopied, nleft =>
    if ncopied < buflen then do
      let trans := if ncopied < nleft then ncopied else nleft
      -- `cp` is `ncopied` bytes behind `buf`, so that the two parts do not overlap
      let mem ← memcpyArgs mem ncopied mem 0 trans
      let ncopied ← checked32 (ncopied + trans)
      let nleft ← checked32 (nleft - trans)
      fillLoopArgs buflen fuel mem ncopied nleft
    else some mem

def patternFillArgs (fuel : Nat) (buf : List α) (buflen : Int) (pat : List α) (patlen patshift : Int) :
    Option (List α) := do
  let patshift ← reduced patlen patshift
  let trans ← checked32 (patlen - patshift)
  if buflen < trans then memcpyArgs buf 0 pat patshift buflen
  else do
    let mem ← memcpyArgs buf 0 pat patshift trans
    let nleft ← checked32 (buflen - trans)
    let cp := trans
    if patshift > 0 then do
      let trans := patshift
      if nleft < trans then memcpyArgs mem cp pat 0 nleft
      else do
        let mem ← memcpyArgs mem cp pat 0 trans
        let nleft ← checked32 (nleft - trans)
        let cp ← checked32 (cp + trans)
        fillLoopArgs buflen fuel mem cp nleft
    else fillLoopArgs buflen fuel mem cp nleft

section check
variable [DecidableEq α]

/-- Whether `memcmp` finds a difference. -/
def memcmpArgs (left : List α) (pos : Int) (right : List α) (pos' n : Int) : Option Bool := do
  let a ← read left pos n
  let b ← read right pos' n
  some (a ≠ b)

def checkLoopArgs (buflen : Int) (buf : List α) : Nat → Int → Int → Option Int
  | 0, _, _ => none
  | fuel + 1, ncmp, nleft =>
    if ncmp < buflen then do
      let nb := if ncmp < nleft then ncmp else nleft
      let differs ← memcmpArgs buf 0 buf ncmp nb
      if differs then some (-1)
      else do
        let ncmp ← checked32 (ncmp + nb)
        let nleft ← checked32 (nleft - nb)
        checkLoopArgs buflen buf fuel ncmp nleft
    else some 0

def patternCheckArgs (fuel : Nat) (buf : List α) (buflen : Int) (pat : List α) (patlen patshift : Int) :
    Option Int := do
  let patshift ← reduced patlen patshift
  let nb ← checked32 (patlen - patshift)
  if buflen < nb then do
    let differs ← memcmpArgs buf 0 pat patshift buflen
    some (if differs then -1 else 0)
  else do
    let differs ← memcmpArgs buf 0 pat patshift nb
    if differs then some (-1)
    else do
      let nleft ← checked32 (buflen - nb)
      let cp := nb
      if patshift > 0 then do
        let nb := patshift
        if nleft < nb then do
          let differs ← memcmpArgs buf cp pat 0 nleft
          some (if differs then -1 else 0)
        else do
          let differs ← memcmpArgs buf cp pat 0 nb
          if differs then some (-1)
          else do
            let nleft ← checked32 (nleft - nb)
            let cp ← checked32 (cp + nb)
            checkLoopArgs buflen buf fuel cp nleft
      else checkLoopArgs buflen buf fuel cp nleft

end check

structure Args (α : Type) where
  buflen : Int32
  patlen : Int32
  patshift : Int32
  buf : List α
  pat : List α
  buf_length : buf.length = buflen.toInt.toNat
  pat_length : pat.length = patlen.toInt.toNat

/-- The first part of the pattern does not start before it, or nothing is copied; without a pattern
    nothing is asked for. -/
def Sane (buflen patlen patshift : Int) : Prop :=
  0 < patlen ∧ (0 ≤ buflen ∧ 0 ≤ patshift.tmod patlen ∨ buflen = 0 ∧ patlen - patshift.tmod patlen < 2147483648) ∨
  patlen = 0 ∧ buflen = 0 ∧ -2147483648 < patshift ∧ patshift ≤ 0

section reading
variable {mem pat cells later : List α} {pos n : Nat}

theorem read_of_load (loaded : load mem pos n = some cells) (fits : n < 2147483648) :
    read mem pos n = some cells := by
  have size : u64 n = n := by
    have same := @u64_small n (by omega) (by omega)
    exact_mod_cast same
  rw [read, size]
  split
  · rename_i none_read
    subst none_read
    unfold load at loaded
    split at loaded
    · exact loaded
    · cases loaded
  · rw [if_pos (by omega), Int.toNat_natCast, loaded]

theorem memcpy_of_store (loaded : load pat n pos = some cells) (fits : pos < 2147483648) {dst : Nat}
    (stored : store mem dst cells = some later) : memcpyArgs mem dst pat n pos = some later := by
  rw [memcpyArgs, read_of_load loaded fits]
  simp only [Option.bind_eq_bind, Option.bind_some]
  split
  · rename_i none_copied
    subst none_copied
    unfold store at stored
    split at stored
    · rw [List.append_nil, List.length_nil, Nat.add_zero, List.take_append_drop] at stored
      exact stored
    · cases stored
  · rw [if_pos (by omega), Int.toNat_natCast, stored]

theorem memcpy_of_copy_in {cp start : Nat} (copied : copyIn mem cp pat start n = some later)
    (fits : n < 2147483648) : memcpyArgs mem cp pat start n = some later := by
  obtain ⟨cells, loaded, stored⟩ := Option.bind_eq_some_iff.mp copied
  exact memcpy_of_store loaded fits stored

theorem memcpy_of_copy {dst src : Nat} (copied : copy mem dst src n = some later)
    (fits : n < 2147483648) : memcpyArgs mem dst mem src n = some later := by
  unfold copy at copied
  split at copied
  · obtain ⟨cells, loaded, stored⟩ := Option.bind_eq_some_iff.mp copied
    exact memcpy_of_store loaded fits stored
  · cases copied

theorem memcmp_args [DecidableEq α] {pos' : Nat} {differs : Bool}
    (compared : memcmp mem pos pat pos' n = some differs) (fits : n < 2147483648) :
    memcmpArgs mem pos pat pos' n = some differs := by
  obtain ⟨a, first, rest⟩ := Option.bind_eq_some_iff.mp compared
  obtain ⟨b, second, same⟩ := Option.bind_eq_some_iff.mp rest
  rw [memcmpArgs, read_of_load first fits]
  simp only [Option.bind_eq_bind, Option.bind_some]
  rw [read_of_load second fits]
  exact same

theorem read_negative {pos n : Int} (low : -2147483648 ≤ n) (negative : n < 0)
    (size : mem.length < 2147483648) : read mem pos n = none := by
  have huge := u64_negative (by omega) negative
  rw [read, if_neg (by omega)]
  split
  · rw [load, if_neg (by omega)]
  · rfl

theorem read_before {pos n : Int} (before : pos < 0) (some_bytes : 0 < n) (high : n < 2147483648) :
    read mem pos n = none := by
  have same := u64_small (by omega) (show n < 18446744073709551616 by omega)
  rw [read, if_neg (by omega), if_neg (by omega)]

end reading

section counts
variable {mem buf pat later : List α} {buflen patlen shift : Nat}

theorem checked_sub {a b : Nat} (low : b ≤ a) (fits : a < 2147483648) :
    checked32 ((a : Int) - b) = some ((a - b : Nat) : Int) := by
  rw [Int.ofNat_sub low]
  exact checked32_fits ⟨by omega, by omega⟩

theorem checked_add {a b : Nat} (fits : a + b < 2147483648) :
    checked32 ((a : Int) + b) = some ((a + b : Nat) : Int) := by
  rw [Int.natCast_add]
  exact checked32_fits ⟨by omega, by omega⟩

theorem smaller_args (a b : Nat) :
    (if (a : Int) < b then (a : Int) else b) = ((if a < b then a else b : Nat) : Int) := by
  by_cases less : a < b
  · rw [if_pos less, if_pos (by omega)]
  · rw [if_neg less, if_neg (by omega)]

theorem fill_loop_args {ncopied fuel : Nat} (fits : buflen < 2147483648) (bound : ncopied ≤ buflen)
    (filled : fillLoop 0 buflen fuel mem ncopied ncopied (buflen - ncopied) = some later) :
    fillLoopArgs buflen fuel mem ncopied (buflen - ncopied : Nat) = some later := by
  induction fuel generalizing mem ncopied with
  | zero => cases filled
  | succ fuel ih =>
    rw [fillLoop] at filled
    rw [fillLoopArgs]
    by_cases more : ncopied < buflen
    · rw [if_pos more] at filled
      rw [if_pos (by omega)]
      obtain ⟨next, copied, rest⟩ := Option.bind_eq_some_iff.mp filled
      rw [smaller_args]
      have part : (if ncopied < buflen - ncopied then ncopied else buflen - ncopied) ≤ buflen - ncopied := by
        split <;> omega
      generalize (if ncopied < buflen - ncopied then ncopied else buflen - ncopied) = trans at *
      simp only [Option.bind_eq_bind]
      rw [show memcpyArgs mem ncopied mem 0 trans = some next from memcpy_of_copy copied (by omega)]
      simp only [Option.bind_some, checked_add (show ncopied + trans < 2147483648 by omega),
        checked_sub part (show buflen - ncopied < 2147483648 by omega)]
      rw [show buflen - ncopied - trans = buflen - (ncopied + trans) by omega] at rest ⊢
      exact ih (by omega) rest
    · rw [if_neg more] at filled
      rw [if_neg (by omega)]
      exact filled

theorem fill_args_of_fill {fuel : Nat} {patshift : Int} (small : shift < patlen)
    (fits : buflen < 2147483648) (pat_fits : patlen < 2147483648)
    (reduces : reduced patlen patshift = some (shift : Int))
    (filled : patternFill fuel buf 0 buflen pat patlen shift = some later) :
    patternFillArgs fuel buf buflen pat patlen patshift = some later := by
  have same : reducedShift patlen shift = shift := by
    rw [reducedShift, if_pos (by omega), Nat.mod_eq_of_lt small]
  rw [patternFill, same] at filled
  rw [patternFillArgs, reduces]
  simp only [Option.bind_eq_bind, Option.bind_some, checked_sub (Nat.le_of_lt small) pat_fits] at filled ⊢
  by_cases short : buflen < patlen - shift
  · rw [if_pos short] at filled
    rw [if_pos (by omega)]
    exact memcpy_of_copy_in filled (by omega)
  · rw [if_neg short] at filled
    rw [if_neg (by omega)]
    obtain ⟨mem, first, rest⟩ := Option.bind_eq_some_iff.mp filled
    rw [show memcpyArgs buf 0 pat shift (patlen - shift : Nat) = some mem from
      memcpy_of_copy_in first (by omega)]
    simp only [Option.bind_some, checked_sub (show patlen - shift ≤ buflen by omega) fits]
    rw [Nat.zero_add] at rest
    by_cases rotated : 0 < shift
    · rw [if_pos rotated] at rest
      rw [if_pos (by omega)]
      by_cases partly : buflen - (patlen - shift) < shift
      · rw [if_pos partly] at rest
        rw [if_pos (by omega)]
        exact memcpy_of_copy_in rest (by omega)
      · rw [if_neg partly] at rest
        rw [if_neg (by omega)]
        obtain ⟨mem', second, loop⟩ := Option.bind_eq_some_iff.mp rest
        rw [show memcpyArgs mem (patlen - shift : Nat) pat 0 shift = some mem' from
          memcpy_of_copy_in second (by omega)]
        simp only [Option.bind_some, checked_sub (show shift ≤ buflen - (patlen - shift) by omega)
          (show buflen - (patlen - shift) < 2147483648 by omega),
          checked_add (show patlen - shift + shift < 2147483648 by omega)]
        rw [Nat.sub_zero, Nat.sub_sub] at loop
        rw [Nat.sub_sub]
        exact fill_loop_args fits (by omega) loop
    · rw [if_neg rotated] at rest
      rw [if_neg (by omega)]
      exact fill_loop_args fits (by omega) rest

section compared
variable [DecidableEq α] {r : Int}

theorem check_loop_args {ncmp fuel : Nat} (fits : buflen < 2147483648) (bound : ncmp ≤ buflen)
    (checked : checkLoop 0 buflen fuel buf ncmp ncmp (buflen - ncmp) = some r) :
    checkLoopArgs buflen buf fuel ncmp (buflen - ncmp : Nat) = some r := by
  induction fuel generalizing ncmp with
  | zero => cases checked
  | succ fuel ih =>
    rw [checkLoop] at checked
    rw [checkLoopArgs]
    by_cases more : ncmp < buflen
    · rw [if_pos more] at checked
      rw [if_pos (by omega)]
      obtain ⟨differs, compared, rest⟩ := Option.bind_eq_some_iff.mp checked
      rw [smaller_args]
      have part : (if ncmp < buflen - ncmp then ncmp else buflen - ncmp) ≤ buflen - ncmp := by
        split <;> omega
      generalize (if ncmp < buflen - ncmp then ncmp else buflen - ncmp) = nb at *
      simp only [Option.bind_eq_bind]
      rw [show memcmpArgs buf 0 buf ncmp nb = some differs from memcmp_args compared (by omega)]
      simp only [Option.bind_some, checked_add (show ncmp + nb < 2147483648 by omega),
        checked_sub part (show buflen - ncmp < 2147483648 by omega)]
      cases differs with
      | true => exact rest
      | false =>
        rw [if_neg (by decide)] at rest ⊢
        rw [show buflen - ncmp - nb = buflen - (ncmp + nb) by omega] at rest ⊢
        exact ih (by omega) rest
    · rw [if_neg more] at checked
      rw [if_neg (by omega)]
      exact checked

theorem check_args_of_check {fuel : Nat} {patshift : Int} (small : shift < patlen)
    (fits : buflen < 2147483648) (pat_fits : patlen < 2147483648)
    (reduces : reduced patlen patshift = some (shift : Int))
    (checked : patternCheck fuel buf 0 buflen pat patlen shift = some r) :
    patternCheckArgs fuel buf buflen pat patlen patshift = some r := by
  have same : reducedShift patlen shift = shift := by
    rw [reducedShift, if_pos (by omega), Nat.mod_eq_of_lt small]
  rw [patternCheck, same] at checked
  rw [patternCheckArgs, reduces]
  simp only [Option.bind_eq_bind, Option.bind_some, checked_sub (Nat.le_of_lt small) pat_fits] at checked ⊢
  by_cases short : buflen < patlen - shift
  · rw [if_pos short] at checked
    rw [if_pos (by omega)]
    obtain ⟨differs, first, rest⟩ := Option.bind_eq_some_iff.mp checked
    rw [show memcmpArgs buf 0 pat shift buflen = some differs from memcmp_args first (by omega)]
    exact rest
  · rw [if_neg short] at checked
    rw [if_neg (by omega)]
    obtain ⟨differs, first, rest⟩ := Option.bind_eq_some_iff.mp checked
    rw [show memcmpArgs buf 0 pat shift (patlen - shift : Nat) = some differs from
      memcmp_args first (by omega)]
    simp only [Option.bind_some, checked_sub (show patlen - shift ≤ buflen by omega) fits]
    cases differs with
    | true => exact rest
    | false =>
      rw [if_neg (by decide), Nat.zero_add] at rest
      rw [if_neg (by decide)]
      by_cases rotated : 0 < shift
      · rw [if_pos rotated] at rest
        rw [if_pos (by omega)]
        by_cases partly : buflen - (patlen - shift) < shift
        · rw [if_pos partly] at rest
          rw [if_pos (by omega)]
          obtain ⟨differs, second, rest⟩ := Option.bind_eq_some_iff.mp rest
          rw [show memcmpArgs buf (patlen - shift : Nat) pat 0 (buflen - (patlen - shift) : Nat) =
            some differs from memcmp_args second (by omega)]
          exact rest
        · rw [if_neg partly] at rest
          rw [if_neg (by omega)]
          obtain ⟨differs, second, rest⟩ := Option.bind_eq_some_iff.mp rest
          rw [show memcmpArgs buf (patlen - shift : Nat) pat 0 shift = some differs from
            memcmp_args second (by omega)]
          simp only [Option.bind_some, checked_sub (show shift ≤ buflen - (patlen - shift) by omega)
            (show buflen - (patlen - shift) < 2147483648 by omega),
            checked_add (show patlen - shift + shift < 2147483648 by omega)]
          cases differs with
          | true => exact rest
          | false =>
            rw [if_neg (by decide), Nat.sub_zero, Nat.sub_sub] at rest
            rw [if_neg (by decide), Nat.sub_sub]
            exact check_loop_args fits (by omega) rest
      · rw [if_neg rotated] at rest
        rw [if_neg (by omega)]
        exact check_loop_args fits (by omega) rest

end compared
end counts

section sane
variable {buflen patlen patshift shift : Int}

theorem tdiv_fits (low : -2147483648 ≤ patshift) (high : patshift < 2147483648) (positive : 0 < patlen) :
    Fits32 (patshift.tdiv patlen) := by
  rcases Int.le_total 0 patshift with up | down
  · have small := Int.tdiv_le_self patlen up
    have sign := Int.tdiv_nonneg up (Int.le_of_lt positive)
    constructor <;> omega
  · have turned : (-patshift).tdiv patlen = -(patshift.tdiv patlen) := Int.neg_tdiv ..
    have small := Int.tdiv_le_self patlen (show 0 ≤ -patshift by omega)
    have sign := Int.tdiv_nonneg (show 0 ≤ -patshift by omega) (Int.le_of_lt positive)
    constructor <;> omega

theorem reduced_positive (low : -2147483648 ≤ patshift) (high : patshift < 2147483648)
    (positive : 0 < patlen) : reduced patlen patshift = some (patshift.tmod patlen) := by
  rw [reduced, if_pos (by omega), rem, checked32_fits (tdiv_fits low high positive)]
  rfl

theorem reduced_some (reduces : reduced patlen patshift = some shift) :
    patlen ≠ 0 ∧ shift = patshift.tmod patlen ∨ patlen = 0 ∧ shift = patshift := by
  unfold reduced at reduces
  split at reduces
  · rename_i some_pattern
    obtain ⟨_, _, same⟩ := Option.bind_eq_some_iff.mp reduces
    exact .inl ⟨some_pattern, (Option.some.inj same).symm⟩
  · exact .inr ⟨by omega, (Option.some.inj reduces).symm⟩

theorem tmod_above (negative : patlen < 0) : patlen < patshift.tmod patlen := by
  have turned := Int.lt_tmod_of_pos patshift (show 0 < -patlen by omega)
  rw [Int.tmod_neg] at turned
  omega

theorem insane_piece (buflen_low : -2147483648 ≤ buflen) (fits : Fits32 (patlen - shift))
    (insane : ¬ Sane buflen patlen patshift) (reduces : reduced patlen patshift = some shift)
    {pat : List α} (size : pat.length < 2147483648) (buflen_high : buflen < 2147483648) :
    read pat shift (if buflen < patlen - shift then buflen else patlen - shift) = none ∨
      patlen = 0 ∧ shift = 0 ∧ 0 < buflen := by
  obtain ⟨low, high⟩ := fits
  unfold Sane at insane
  by_cases negative : buflen < 0
  · left
    split
    · exact read_negative buflen_low negative size
    · exact read_negative low (by omega) size
  rcases reduced_some reduces with ⟨some_pattern, rfl⟩ | ⟨rfl, rfl⟩
  · left
    by_cases positive : 0 < patlen
    · -- the remainder has the sign of `patshift`
      split
      · exact read_before (by omega) (by omega) buflen_high
      · exact read_before (by omega) (by omega) high
    · have above := @tmod_above patlen patshift (by omega)
      rw [if_neg (by omega)]
      exact read_negative low (by omega) size
  · rcases Int.lt_trichotomy shift 0 with before | rfl | behind
    · left
      split
      · exact read_before before (by omega) buflen_high
      · exact read_before before (by omega) high
    · exact .inr ⟨rfl, rfl, by omega⟩
    · left
      rw [if_neg (by omega)]
      exact read_negative low (by omega) size

end sane

section nothing
variable {mem pat : List α} {buflen pos src : Int}

theorem nothing_copied : memcpyArgs mem pos pat src 0 = some mem := rfl

theorem fill_loop_forever (some_left : 0 < buflen) (fits : buflen < 2147483648) (fuel : Nat) :
    fillLoopArgs buflen fuel mem 0 buflen = none := by
  induction fuel with
  | zero => rfl
  | succ fuel ih =>
    have start : checked32 (0 + 0) = some 0 := rfl
    have same : checked32 (buflen - 0) = some buflen := by
      rw [Int.sub_zero]
      exact checked32_fits ⟨by omega, fits⟩
    rw [fillLoopArgs, if_pos some_left, if_pos some_left]
    simp only [nothing_copied, Option.bind_eq_bind, Option.bind_some, start, same]
    exact ih

variable [DecidableEq α]

theorem nothing_compared : memcmpArgs mem pos pat src 0 = some false := by
  simp [memcmpArgs, read, u64]

theorem check_loop_forever (some_left : 0 < buflen) (fits : buflen < 2147483648) (fuel : Nat) :
    checkLoopArgs buflen mem fuel 0 buflen = none := by
  induction fuel with
  | zero => rfl
  | succ fuel ih =>
    have start : checked32 (0 + 0) = some 0 := rfl
    have same : checked32 (buflen - 0) = some buflen := by
      rw [Int.sub_zero]
      exact checked32_fits ⟨by omega, fits⟩
    rw [checkLoopArgs, if_pos some_left, if_pos some_left]
    simp only [nothing_compared, Option.bind_eq_bind, Option.bind_some, start, same, Bool.false_eq_true, if_false]
    exact ih

end nothing

section calls
variable (a : Args α)

theorem args_bounds : -2147483648 ≤ a.buflen.toInt ∧ a.buflen.toInt < 2147483648 ∧ a.pat.length < 2147483648 := by
  have low := a.buflen.le_toInt
  have high := a.buflen.toInt_lt
  have pat := a.patlen.toInt_lt
  have size := a.pat_length
  omega

def Args.Sane : Prop := VtePattern.Sane a.buflen.toInt a.patlen.toInt a.patshift.toInt

def FillEnds : Prop := ∃ fuel later,
  patternFillArgs fuel a.buf a.buflen.toInt a.pat a.patlen.toInt a.patshift.toInt = some later

def CheckEnds [DecidableEq α] : Prop := ∃ fuel r,
  patternCheckArgs fuel a.buf a.buflen.toInt a.pat a.patlen.toInt a.patshift.toInt = some r

variable {a}

theorem insane_fill (insane : ¬ a.Sane) : ¬ FillEnds a := by
  rintro ⟨fuel, later, filled⟩
  obtain ⟨buflen_low, buflen_high, size⟩ := args_bounds a
  obtain ⟨shift, reduces, rest⟩ := Option.bind_eq_some_iff.mp filled
  obtain ⟨trans, fit, rest⟩ := Option.bind_eq_some_iff.mp rest
  obtain ⟨fits, rfl⟩ := checked32_iff.mp fit
  rcases insane_piece buflen_low fits insane reduces size buflen_high with outside | ⟨none_given, rfl, left⟩
  · split at outside
    · rename_i short
      rw [if_pos short, memcpyArgs, outside] at rest
      cases rest
    · rename_i short
      rw [if_neg short, memcpyArgs, outside] at rest
      cases rest
  · have same : checked32 (a.buflen.toInt - (0 - 0)) = some a.buflen.toInt := by
      rw [Int.sub_zero, Int.sub_zero]
      exact checked32_fits ⟨buflen_low, buflen_high⟩
    rw [none_given, if_neg (by omega)] at rest
    simp only [Int.sub_zero, nothing_copied, Option.bind_eq_bind, Option.bind_some] at rest same
    simp only [same, Option.bind_some, gt_iff_lt, Int.lt_irrefl, if_false, fill_loop_forever left buflen_high] at rest
    cases rest

theorem insane_check [DecidableEq α] (insane : ¬ a.Sane) : ¬ CheckEnds a := by
  rintro ⟨fuel, r, checked⟩
  obtain ⟨buflen_low, buflen_high, size⟩ := args_bounds a
  obtain ⟨shift, reduces, rest⟩ := Option.bind_eq_some_iff.mp checked
  obtain ⟨nb, fit, rest⟩ := Option.bind_eq_some_iff.mp rest
  obtain ⟨fits, rfl⟩ := checked32_iff.mp fit
  have unread : ∀ n, read a.pat shift n = none → memcmpArgs a.buf 0 a.pat shift n = none := by
    intro n outside
    rw [memcmpArgs, outside]
    cases read a.buf 0 n <;> rfl
  rcases insane_piece buflen_low fits insane reduces size buflen_high with outside | ⟨none_given, rfl, left⟩
  · split at outside
    · rename_i short
      rw [if_pos short, unread _ outside] at rest
      cases rest
    · rename_i short
      rw [if_neg short, unread _ outside] at rest
      cases rest
  · have same : checked32 (a.buflen.toInt - (0 - 0)) = some a.buflen.toInt := by
      rw [Int.sub_zero, Int.sub_zero]
      exact checked32_fits ⟨buflen_low, buflen_high⟩
    rw [none_given, if_neg (by omega)] at rest
    simp only [Int.sub_zero, nothing_compared, Option.bind_eq_bind, Option.bind_some, Bool.false_eq_true,
      if_false] at rest same
    simp only [same, Option.bind_some, gt_iff_lt, Int.lt_irrefl, if_false, check_loop_forever left buflen_high] at rest
    cases rest

theorem sane_call (positive : 0 < a.patlen.toInt) (forward : 0 ≤ a.buflen.toInt)
    (inside : 0 ≤ a.patshift.toInt.tmod a.patlen.toInt) :
    ∃ buflen patlen shift : Nat, a.buflen.toInt = buflen ∧ a.patlen.toInt = patlen ∧
      shift < patlen ∧ buflen < 2147483648 ∧ patlen < 2147483648 ∧
      reduced a.patlen.toInt a.patshift.toInt = some (shift : Int) ∧ Call a.buf 0 buflen a.pat patlen := by
  obtain ⟨buflen, ends⟩ := Int.eq_ofNat_of_zero_le forward
  obtain ⟨patlen, size⟩ := Int.eq_ofNat_of_zero_le (Int.le_of_lt positive)
  obtain ⟨shift, start⟩ := Int.eq_ofNat_of_zero_le inside
  have below := Int.tmod_lt_of_pos a.patshift.toInt positive
  have buflen_high := a.buflen.toInt_lt
  have patlen_high := a.patlen.toInt_lt
  have buf_length := a.buf_length
  have pat_length := a.pat_length
  refine ⟨buflen, patlen, shift, ends, size, by omega, by omega, by omega, ?_, by omega, by omega, by omega⟩
  rw [reduced_positive a.patshift.le_toInt a.patshift.toInt_lt positive, start]

theorem sane_empty (sane : a.Sane) : (0 < a.patlen.toInt ∧ 0 ≤ a.buflen.toInt ∧
      0 ≤ a.patshift.toInt.tmod a.patlen.toInt) ∨
    a.buflen.toInt = 0 ∧ ∃ shift, reduced a.patlen.toInt a.patshift.toInt = some shift ∧
      shift ≤ 0 ∧ 0 ≤ a.patlen.toInt - shift ∧ a.patlen.toInt - shift < 2147483648 ∧
      (shift = 0 → a.patlen.toInt = 0) := by
  rcases sane with ⟨positive, ⟨forward, inside⟩ | ⟨ends, fits⟩⟩ | ⟨none_given, ends, low, high⟩
  · exact .inl ⟨positive, forward, inside⟩
  · by_cases inside : 0 ≤ a.patshift.toInt.tmod a.patlen.toInt
    · exact .inl ⟨positive, by omega, inside⟩
    · exact .inr ⟨ends, _, reduced_positive a.patshift.le_toInt a.patshift.toInt_lt positive, by omega,
        by omega, fits, by omega⟩
  · refine .inr ⟨ends, a.patshift.toInt, ?_, high, by omega, by omega, fun _ => none_given⟩
    rw [none_given]
    rfl

theorem sane_fill (sane : a.Sane) : FillEnds a := by
  rcases sane_empty sane with ⟨positive, forward, inside⟩ | ⟨ends, shift, reduces, down, low, high, none_given⟩
  · obtain ⟨buflen, patlen, shift, ends, size, small, fits, pat_fits, reduces, call⟩ :=
      sane_call positive forward inside
    obtain ⟨later, filled, -⟩ := pattern_fill_filled call shift (Nat.lt_succ_self buflen)
    refine ⟨buflen + 1, later, ?_⟩
    rw [size] at reduces
    rw [ends, size]
    exact fill_args_of_fill small fits pat_fits reduces filled
  · refine ⟨1, a.buf, ?_⟩
    rw [patternFillArgs, reduces, ends]
    simp only [Option.bind_eq_bind, Option.bind_some]
    rw [checked32_fits ⟨by omega, high⟩]
    simp only [Option.bind_some]
    by_cases short : 0 < a.patlen.toInt - shift
    · rw [if_pos short, nothing_copied]
    · rw [if_neg short, show a.patlen.toInt - shift = 0 by omega, nothing_copied]
      simp only [Option.bind_some]
      rw [checked32_fits ⟨by omega, by omega⟩, Option.bind_some, if_neg (by omega), fillLoopArgs, if_neg (by omega)]

theorem sane_check [DecidableEq α] (sane : a.Sane) : CheckEnds a := by
  rcases sane_empty sane with ⟨positive, forward, inside⟩ | ⟨ends, shift, reduces, down, low, high, none_given⟩
  · obtain ⟨buflen, patlen, shift, ends, size, small, fits, pat_fits, reduces, call⟩ :=
      sane_call positive forward inside
    obtain ⟨r, checked, -⟩ := pattern_check_verdict call shift (Nat.lt_succ_self buflen)
    refine ⟨buflen + 1, r, ?_⟩
    rw [size] at reduces
    rw [ends, size]
    exact check_args_of_check small fits pat_fits reduces checked
  · refine ⟨1, 0, ?_⟩
    rw [patternCheckArgs, reduces, ends]
    simp only [Option.bind_eq_bind, Option.bind_some]
    rw [checked32_fits ⟨by omega, high⟩]
    simp only [Option.bind_some]
    by_cases short : 0 < a.patlen.toInt - shift
    · rw [if_pos short, nothing_compared]
      rfl
    · rw [if_neg short, show a.patlen.toInt - shift = 0 by omega, nothing_compared]
      simp only [Option.bind_some]
      rw [if_neg (by decide), checked32_fits ⟨by omega, by omega⟩, Option.bind_some, if_neg (by omega),
        checkLoopArgs, if_neg (by omega)]

/-- Both functions end inside the buffer and the pattern just for the arguments that are sane. -/
theorem pattern_ends_iff [DecidableEq α] (a : Args α) :
    (FillEnds a ↔ a.Sane) ∧ (CheckEnds a ↔ a.Sane) :=
  ⟨⟨fun ends => not_not.mp fun insane => insane_fill insane ends, sane_fill⟩,
    ⟨fun ends => not_not.mp fun insane => insane_check insane ends, sane_check⟩⟩

theorem empty_pattern_forever : ¬ FillEnds (α := Nat) ⟨1, 0, 0, [7], [], rfl, rfl⟩ ∧
    ¬ CheckEnds (α := Nat) ⟨1, 0, 0, [7], [], rfl, rfl⟩ := by
  have insane : ¬ Args.Sane (⟨1, 0, 0, [7], [], rfl, rfl⟩ : Args Nat) := by
    unfold Args.Sane VtePattern.Sane
    decide
  exact ⟨insane_fill insane, insane_check insane⟩

end calls
end VtePattern
