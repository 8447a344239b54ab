import Mathlib.Tactic.Ring
import Vte.Io.DioVectors

/-!
The runs of the children of a testblock, in any order of their steps: what a child keeps to in its region of
the file, and how far one child comes on its own.
-/
namespace DioVectors
open Bytes SparseFile Multiples Machine
variable {o : Options} {a : Action} {c idx v : Nat} {s s' : Child} {file file' : List Byte}
  {accesses : List Access}

def place (o : Options) (c idx v : Nat) : Nat := base o c + idx * v * o.bufsize

def mark (c idx : Nat) : Byte := BitVec.ofInt 8 (c + idx)

section numbers

theorem base_succ (o : Options) (c : Nat) : base o (c + 1) = base o c + o.iter * 5 * o.bufsize := by
  rw [base, base]
  ring

theorem base_mono {d : Nat} (le : c ≤ d) : base o c ≤ base o d := by
  have count := Nat.mul_le_mul_right o.bufsize (Nat.mul_le_mul_right 5 (Nat.mul_le_mul_right o.iter le))
  rw [base, base]
  omega

theorem products (low : idx < o.iter) (vector : v < 5) :
    idx * v ≤ (o.iter - 1) * 4 ∧ idx * v * o.bufsize ≤ (o.iter - 1) * 4 * o.bufsize := by
  have pair : idx * v ≤ (o.iter - 1) * 4 := Nat.mul_le_mul (by omega) (by omega)
  exact ⟨pair, Nat.mul_le_mul_right o.bufsize pair⟩

theorem place_inside (low : idx < o.iter) (vector : v < 5) :
    base o c ≤ place o c idx v ∧ place o c idx v + o.bufsize ≤ base o (c + 1) := by
  have pair := (products (o := o) low vector).1
  have count := Nat.mul_le_mul_right o.bufsize (show idx * v + 1 ≤ o.iter * 5 by omega)
  rw [Nat.succ_mul] at count
  rw [place, base_succ]
  omega

theorem place_aligned (accepted : Accepted o) (page : o.offset % 4096 = 0) :
    place o c idx v % 4096 = 0 := by
  have whole : 4096 ∣ o.bufsize := Nat.dvd_of_mod_eq_zero accepted.page
  have start : 4096 ∣ o.offset := Nat.dvd_of_mod_eq_zero page
  rw [place, base]
  exact Nat.mod_eq_zero_of_dvd
    (Nat.dvd_add (Nat.dvd_add start (Nat.dvd_mul_left_of_dvd whole _)) (Nat.dvd_mul_left_of_dvd whole _))

theorem seekoff_some (fits : base o c < 9223372036854775808) (accepted : Accepted o) :
    seekoffOf o c = some (base o c : Int) := by
  have bufsize := accepted.bufsize
  have all : c * o.iter * 5 ≤ c * o.iter * 5 * o.bufsize := Nat.le_mul_of_pos_right _ bufsize
  rw [base] at fits
  have first : checked64 ((c : Int) * o.iter) = some ((c * o.iter : Nat) : Int) := by
    rw [← Int.natCast_mul]
    exact checked64_fits ⟨by omega, by omega⟩
  have second : checked64 (((c * o.iter : Nat) : Int) * nvector) = some ((c * o.iter * 5 : Nat) : Int) := by
    rw [nvector, ← Int.natCast_mul]
    exact checked64_fits ⟨by omega, by omega⟩
  have third : checked64 (((c * o.iter * 5 : Nat) : Int) * o.bufsize) =
      some ((c * o.iter * 5 * o.bufsize : Nat) : Int) := by
    rw [← Int.natCast_mul]
    exact checked64_fits ⟨by omega, by omega⟩
  have last : checked64 ((o.offset : Int) + ((c * o.iter * 5 * o.bufsize : Nat) : Int)) = some (base o c : Int) := by
    rw [← Int.natCast_add]
    exact checked64_fits ⟨by omega, by omega⟩
  rw [seekoffOf, first, Option.bind_eq_bind, Option.bind_some, second, Option.bind_some, third, Option.bind_some, last]

theorem seekoff_exact {x : Int} (computed : seekoffOf o c = some x) : x = base o c := by
  simp only [seekoffOf, Option.bind_eq_bind, Option.bind_eq_some_iff, checked64_iff] at computed
  obtain ⟨x1, ⟨-, rfl⟩, x2, ⟨-, rfl⟩, x3, ⟨-, rfl⟩, -, rfl⟩ := computed
  rw [base, nvector]
  push_cast
  rfl

theorem position_some (small : idx * v * o.bufsize < 2147483648)
    (fits : place o c idx v < 9223372036854775808) (bufsize : 0 < o.bufsize) :
    positionOf o (base o c) idx v = some (place o c idx v : Int) := by
  have pair : idx * v ≤ idx * v * o.bufsize := Nat.le_mul_of_pos_right _ bufsize
  have first : checked32 ((idx : Int) * v) = some ((idx * v : Nat) : Int) := by
    rw [← Int.natCast_mul]
    exact checked32_fits ⟨by omega, by omega⟩
  have second : checked32 (((idx * v : Nat) : Int) * o.bufsize) = some ((idx * v * o.bufsize : Nat) : Int) := by
    rw [← Int.natCast_mul]
    exact checked32_fits ⟨by omega, by omega⟩
  have last : checked64 ((base o c : Int) + ((idx * v * o.bufsize : Nat) : Int)) = some (place o c idx v : Int) := by
    rw [← Int.natCast_add]
    exact checked64_fits ⟨by omega, by rw [place] at fits; omega⟩
  rw [positionOf, first, Option.bind_eq_bind, Option.bind_some, second, Option.bind_some, last]

theorem position_fits {x : Int} (computed : positionOf o (base o c) idx v = some x) :
    idx * v * o.bufsize < 2147483648 ∧ place o c idx v < 9223372036854775808 := by
  simp only [positionOf, Option.bind_eq_bind, Option.bind_eq_some_iff, checked64_iff, checked32_iff,
    Fits32, Fits64] at computed
  obtain ⟨x1, ⟨-, rfl⟩, x2, ⟨⟨-, small⟩, rfl⟩, ⟨-, fits⟩, -⟩ := computed
  rw [place]
  constructor
  · exact_mod_cast small
  · exact_mod_cast fits

end numbers

section fine

/-- The first `n` vectors of the round are in the file. -/
def Written (o : Options) (c idx n : Nat) (file : List Byte) : Prop :=
  ∀ u < n, Filled file (place o c idx u) o.bufsize (mark c idx) ∧ place o c idx u + o.bufsize ≤ file.length

def ReadBack (o : Options) (c : Nat) (s : Child) (n : Nat) : Prop :=
  ∀ u < n, s.iov2.getD u [] = List.replicate o.bufsize (mark c s.idx)

structure InRound (o : Options) (c : Nat) (s : Child) : Prop where
  seekoff : s.seekoff = base o c
  low : s.idx < o.iter
  filled : s.iov1 = vfillbuf o.bufsize (c + s.idx)
  vectors : s.iov2.length = nvector

def Fine (o : Options) (c : Nat) (s : Child) (file : List Byte) : Prop :=
  match s.pc with
  | .start => s.iov2.length = nvector
  | .fill => s.seekoff = base o c ∧ s.idx ≤ o.iter ∧ s.iov2.length = nvector
  | .seekWrite v => InRound o c s ∧ v < 5 ∧ Written o c s.idx v file
  | .write v => InRound o c s ∧ v < 5 ∧ Written o c s.idx v file ∧ s.wpos = place o c s.idx v
  | .sync v => InRound o c s ∧ v < 5 ∧ Written o c s.idx (v + 1) file
  | .seekRead v => InRound o c s ∧ v < 5 ∧ Written o c s.idx 5 file ∧ ReadBack o c s v
  | .read v => InRound o c s ∧ v < 5 ∧ Written o c s.idx 5 file ∧ ReadBack o c s v ∧ s.rpos = place o c s.idx v
  | .compare => InRound o c s ∧ ReadBack o c s 5
  | .ended result => result = .ok

/-- From `file` to `file'` nothing changes outside the region of the child. -/
structure Within (o : Options) (c : Nat) (file file' : List Byte) : Prop where
  length : file.length ≤ file'.length
  outside : ∀ p n x, (p + n ≤ base o c ∨ base o (c + 1) ≤ p) → Filled file p n x → Filled file' p n x

theorem within_same (file : List Byte) : Within o c file file :=
  ⟨Nat.le_refl _, fun _ _ _ _ filled => filled⟩

theorem filled_again {p q n m : Nat} {x : Byte} (filled : Filled file p n x) :
    Filled (writeAt 0 file q (List.replicate m x)) p n x := by
  intro k low
  rw [byte_write]
  split
  · rename_i inside
    rw [List.length_replicate] at inside
    rw [byte_replicate, if_pos (by omega)]
  · exact filled k low

theorem written_next (low : Written o c idx v file) :
    Written o c idx (v + 1)
      (writeAt 0 file (place o c idx v) (List.replicate o.bufsize (mark c idx))) := by
  intro u before
  rw [write_at_length, List.length_replicate]
  by_cases here : u = v
  · subst here
    exact ⟨filled_write _ _ _ _, Nat.le_max_right _ _⟩
  · obtain ⟨filled, inside⟩ := low u (by omega)
    exact ⟨filled_again filled, by omega⟩

theorem within_write (low : idx < o.iter) (vector : v < 5) (x : Byte) :
    Within o c file (writeAt 0 file (place o c idx v) (List.replicate o.bufsize x)) where
  length := by
    rw [write_at_length]
    exact Nat.le_max_left _ _
  outside := by
    intro p n y apart filled
    have inside := place_inside (c := c) low vector
    apply (filled_write_apart ?_).mpr filled
    rw [List.length_replicate]
    omega

theorem written_apart {d n : Nat} (within : Within o d file file') (other : d ≠ c) (low : idx < o.iter)
    (vectors : n ≤ 5) (written : Written o c idx n file) : Written o c idx n file' := by
  intro u before
  obtain ⟨filled, ends⟩ := written u before
  have inside := place_inside (c := c) low (show u < 5 by omega)
  have longer := within.length
  refine ⟨within.outside _ _ _ ?_ filled, by omega⟩
  rcases Nat.lt_or_gt_of_ne other with below | above
  · have := base_mono (o := o) (show d + 1 ≤ c by omega)
    omega
  · have := base_mono (o := o) (show c + 1 ≤ d by omega)
    omega

theorem fine_apart {d : Nat} (within : Within o d file file') (other : d ≠ c) (fine : Fine o c s file) :
    Fine o c s file' := by
  rw [Fine] at fine ⊢
  generalize s.pc = pc at fine ⊢
  cases pc with
  | start => exact fine
  | fill => exact fine
  | seekWrite v => exact ⟨fine.1, fine.2.1, written_apart within other fine.1.low (by omega) fine.2.2⟩
  | write v =>
    exact ⟨fine.1, fine.2.1, written_apart within other fine.1.low (by omega) fine.2.2.1, fine.2.2.2⟩
  | sync v => exact ⟨fine.1, fine.2.1, written_apart within other fine.1.low (by omega) fine.2.2⟩
  | seekRead v =>
    exact ⟨fine.1, fine.2.1, written_apart within other fine.1.low (by omega) fine.2.2.1, fine.2.2.2⟩
  | read v =>
    exact ⟨fine.1, fine.2.1, written_apart within other fine.1.low (by omega) fine.2.2.1, fine.2.2.2⟩
  | compare => exact fine
  | ended result => exact fine

end fine
section steps
variable (accepted : Accepted o)

def InRegion (o : Options) (c : Nat) (x : Access) : Prop :=
  x.child = c ∧ base o c ≤ x.pos ∧ x.pos + x.len ≤ base o (c + 1)

theorem fill_vector (count v : Nat) (x : Int) (vector : v < 5) :
    (vfillbuf count x).getD v [] = List.replicate count (BitVec.ofInt 8 x) := by
  rw [vfillbuf, List.getD_eq_getElem?_getD, List.getElem?_replicate, nvector, if_pos vector]
  rfl

theorem place_small (suits : Suits o) (child : c < o.numchild) (low : idx < o.iter) (vector : v < 5) :
    idx * v * o.bufsize < 2147483648 ∧ place o c idx v < 9223372036854775808 := by
  have size := (products (o := o) low vector).2
  have start := base_mono (o := o) (show c ≤ o.numchild - 1 by omega)
  have product := suits.product
  have position := suits.position
  rw [place]
  omega

theorem fine_after_write (round : InRound o c s) (vector : v < 5)
    (written : Written o c s.idx (v + 1) file) (pc : s.pc = afterWrite v) : Fine o c s file := by
  rw [afterWrite, nvector] at pc
  by_cases more : v + 1 < 5
  · rw [if_pos more] at pc
    rw [Fine, pc]
    exact ⟨round, more, written⟩
  · obtain rfl : v = 4 := by omega
    rw [if_neg more] at pc
    rw [Fine, pc]
    exact ⟨round, by decide, written, fun u before => absurd before (Nat.not_lt_zero u)⟩

theorem fine_after_read (round : InRound o c s) (vector : v < 5) (written : Written o c s.idx 5 file)
    (back : ReadBack o c s (v + 1)) (pc : s.pc = afterRead v) : Fine o c s file := by
  rw [afterRead, nvector] at pc
  by_cases more : v + 1 < 5
  · rw [if_pos more] at pc
    rw [Fine, pc]
    exact ⟨round, more, written, back⟩
  · obtain rfl : v = 4 := by omega
    rw [if_neg more] at pc
    rw [Fine, pc]
    exact ⟨round, back⟩

structure Stepped (o : Options) (c : Nat) (s' : Child) (file file' : List Byte)
    (accesses : List Access) : Prop where
  fine : Fine o c s' file'
  within : Within o c file file'
  accesses : ∀ x ∈ accesses, InRegion o c x

theorem stepped_alone (fine : Fine o c s' file) : Stepped o c s' file file [] :=
  ⟨fine, within_same file, by rintro x ⟨⟩⟩

@[simp] theorem computed_some (s : Child) (x : Int) (next : Int → Child) :
    computed s (some x) next = next x := rfl

theorem lseek_nat (s : Child) (n : Nat) (next : Nat → Child) : lseek s n next = next n := by
  rw [lseek, seek_nat]

include accepted

theorem child_step_fine (suits : Suits o) (page : o.offset % 4096 = 0) (child : c < o.numchild)
    (fine : Fine o c s file) (taken : childStep o a c s file = some (s', file', accesses)) :
    Stepped o c s' file file' accesses := by
  rw [Fine] at fine
  cases pc : s.pc with
  | start =>
    have start : base o c < 9223372036854775808 := by
      have := base_mono (o := o) (show c ≤ o.numchild - 1 by omega)
      have := suits.position
      omega
    rw [childStep] at taken
    simp only [pc, seekoff_some start accepted, computed_some, Option.some.injEq, Prod.mk.injEq] at taken fine
    obtain ⟨rfl, rfl, rfl⟩ := taken
    exact stepped_alone ⟨rfl, Nat.zero_le _, fine⟩
  | fill =>
    rw [childStep] at taken
    simp only [pc] at taken fine
    obtain ⟨seekoff, low, vectors⟩ := fine
    by_cases more : s.idx < o.iter
    · have value : checked32 ((c : Int) + s.idx) = some ((c : Int) + s.idx) := by
        have := suits.value
        exact checked32_fits ⟨by omega, by omega⟩
      simp only [more, if_true, value, computed_some, Option.some.injEq, Prod.mk.injEq] at taken
      obtain ⟨rfl, rfl, rfl⟩ := taken
      exact stepped_alone ⟨⟨seekoff, more, rfl, vectors⟩, by decide, fun u before => absurd before (Nat.not_lt_zero u)⟩
    · simp only [more, if_false, Option.some.injEq, Prod.mk.injEq] at taken
      obtain ⟨rfl, rfl, rfl⟩ := taken
      exact stepped_alone rfl
  | seekWrite v =>
    rw [childStep] at taken
    simp only [pc] at taken fine
    obtain ⟨round, vector, written⟩ := fine
    obtain ⟨product, fits⟩ := place_small suits child round.low vector
    have found : positionOf o s.seekoff s.idx v = some (place o c s.idx v : Int) := by
      rw [round.seekoff]
      exact position_some product fits accepted.bufsize
    simp only [found, computed_some, lseek_nat, Option.some.injEq, Prod.mk.injEq] at taken
    obtain ⟨rfl, rfl, rfl⟩ := taken
    exact stepped_alone ⟨⟨round.seekoff, round.low, round.filled, round.vectors⟩, vector, written, rfl⟩
  | write v =>
    rw [childStep] at taken
    simp only [pc] at taken fine
    obtain ⟨round, vector, written, pos⟩ := fine
    have aligned : place o c s.idx v % 4096 = 0 := place_aligned accepted page
    have buf : s.iov1.getD v [] = List.replicate o.bufsize (mark c s.idx) := by
      rw [round.filled, fill_vector _ _ _ vector]
      rfl
    have next := written_next written
    simp only [pos, aligned, ne_eq, not_true_eq_false, and_false, if_false, buf, List.length_replicate,
      Option.some.injEq, Prod.mk.injEq] at taken
    obtain ⟨rfl, rfl, rfl⟩ := taken
    refine ⟨?_, within_write round.low vector _, ?_⟩
    · cases a.syncs with
      | true => exact ⟨⟨round.seekoff, round.low, round.filled, round.vectors⟩, vector, next⟩
      | false =>
        exact fine_after_write ⟨round.seekoff, round.low, round.filled, round.vectors⟩ vector next rfl
    · intro x among
      obtain rfl := List.mem_singleton.mp among
      exact ⟨rfl, place_inside round.low vector⟩
  | sync v =>
    rw [childStep] at taken
    simp only [pc, Option.some.injEq, Prod.mk.injEq] at taken fine
    obtain ⟨round, vector, next⟩ := fine
    obtain ⟨rfl, rfl, rfl⟩ := taken
    exact stepped_alone
      (fine_after_write ⟨round.seekoff, round.low, round.filled, round.vectors⟩ vector next rfl)
  | seekRead v =>
    rw [childStep] at taken
    simp only [pc] at taken fine
    obtain ⟨round, vector, written, back⟩ := fine
    obtain ⟨product, fits⟩ := place_small suits child round.low vector
    have found : positionOf o s.seekoff s.idx v = some (place o c s.idx v : Int) := by
      rw [round.seekoff]
      exact position_some product fits accepted.bufsize
    simp only [found, computed_some, lseek_nat, Option.some.injEq, Prod.mk.injEq] at taken
    obtain ⟨rfl, rfl, rfl⟩ := taken
    exact stepped_alone
      ⟨⟨round.seekoff, round.low, round.filled, round.vectors⟩, vector, written, back, rfl⟩
  | read v =>
    rw [childStep] at taken
    simp only [pc] at taken fine
    obtain ⟨round, vector, written, back, pos⟩ := fine
    have aligned : place o c s.idx v % 4096 = 0 := place_aligned accepted page
    obtain ⟨filled, ends⟩ := written v vector
    have buf := (read_filled ends).mpr filled
    simp only [pos, aligned, ne_eq, not_true_eq_false, and_false, false_or, buf, List.length_replicate,
      Nat.lt_irrefl, if_false, Option.some.injEq, Prod.mk.injEq] at taken
    obtain ⟨rfl, rfl, rfl⟩ := taken
    have vectors : (s.iov2.set v (List.replicate o.bufsize (mark c s.idx))).length = nvector := by
      rw [List.length_set]
      exact round.vectors
    have next : ∀ u < v + 1, (s.iov2.set v (List.replicate o.bufsize (mark c s.idx))).getD u [] =
        List.replicate o.bufsize (mark c s.idx) := by
      intro u before
      rw [List.getD_eq_getElem?_getD]
      by_cases here : u = v
      · subst here
        rw [List.getElem?_set_self (by rw [round.vectors, nvector]; omega)]
        rfl
      · rw [List.getElem?_set_ne (Ne.symm here), ← List.getD_eq_getElem?_getD]
        exact back u (by omega)
    refine ⟨?_, within_same file, ?_⟩
    · exact fine_after_read ⟨round.seekoff, round.low, round.filled, vectors⟩ vector written next rfl
    · intro x among
      obtain rfl := List.mem_singleton.mp among
      exact ⟨rfl, place_inside round.low vector⟩
  | compare =>
    rw [childStep] at taken
    simp only [pc] at taken fine
    obtain ⟨round, back⟩ := fine
    have same : vbufcmp s.iov1 s.iov2 = true := by
      rw [vbufcmp, List.all_eq_true]
      intro v vector
      have low : v < 5 := List.mem_range.mp vector
      rw [bufcmp, List.all_eq_true, round.filled, fill_vector _ _ _ low, back v low]
      intro k _
      exact decide_eq_true rfl
    simp only [same, if_true, Option.some.injEq, Prod.mk.injEq] at taken
    obtain ⟨rfl, rfl, rfl⟩ := taken
    exact stepped_alone ⟨round.seekoff, round.low, round.vectors⟩
  | ended result =>
    rw [childStep] at taken
    simp only [pc] at taken
    cases taken

end steps
section system

structure Whole (o : Options) (s : State) : Prop where
  fine : ∀ c < o.numchild, Fine o c (s.children c) s.file
  inside : ∀ x ∈ s.log, InRegion o x.child x

theorem whole_initial (file : List Byte) : Whole o (initial file) where
  fine := fun _ _ => rfl
  inside := by rintro x ⟨⟩

theorem whole_good {s : State} (whole : Whole o s) : Good o s where
  inside := fun x among => (whole.inside x among).2
  apart := by
    intro x first y second other
    obtain ⟨-, x0, x1⟩ := whole.inside x first
    obtain ⟨-, y0, y1⟩ := whole.inside y second
    rcases Nat.lt_or_gt_of_ne other with below | above
    · have := base_mono (o := o) (show x.child + 1 ≤ y.child by omega)
      omega
    · have := base_mono (o := o) (show y.child + 1 ≤ x.child by omega)
      omega
  clean := by
    intro c low result ended
    have fine := whole.fine c low
    rw [Fine, ended] at fine
    exact fine

theorem step_taken {s t : State} (taken : step o a c s = some t) : c < o.numchild ∧
    ∃ child file accesses, childStep o a c (s.children c) s.file = some (child, file, accesses) ∧
      t = ⟨fun k => if k = c then child else s.children k, file, s.log ++ accesses⟩ := by
  rw [step] at taken
  split at taken
  · rename_i low
    obtain ⟨⟨child, file, accesses⟩, moved, rfl⟩ := Option.map_eq_some_iff.mp taken
    exact ⟨low, child, file, accesses, moved, rfl⟩
  · cases taken

theorem step_whole (accepted : Accepted o) (suits : Suits o) (page : o.offset % 4096 = 0) {s t : State}
    (whole : Whole o s) (taken : step o a c s = some t) : Whole o t := by
  obtain ⟨low, child, file, accesses, moved, rfl⟩ := step_taken taken
  obtain ⟨fine, within, inside⟩ := child_step_fine accepted suits page low (whole.fine c low) moved
  constructor
  · intro k kept
    by_cases here : k = c
    · subst here
      simpa only [if_true] using fine
    · simpa only [here, if_false] using fine_apart within (Ne.symm here) (whole.fine k kept)
  · intro x among
    rcases List.mem_append.mp among with before | new
    · exact whole.inside x before
    · have there := inside x new
      rwa [← there.1] at there

theorem run_whole (accepted : Accepted o) (suits : Suits o) (page : o.offset % 4096 = 0) {acts : List Nat}
    {s t : State} (whole : Whole o s) (ran : run (step o a) acts s = some t) : Whole o t :=
  run_invariant (fun _ _ _ whole taken => step_whole accepted suits page whole taken) whole ran

end system
end DioVectors
