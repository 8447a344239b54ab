import Vte.Base.Memory

/-!
lib/pattern.c: a buffer filled with, or compared with, a repeated pattern. The buffer is a part of a
memory block, the pattern an object of its own; a result is none when a copy leaves its block or the
loop has not ended.
-/
namespace VtePattern
open Memory
variable {α : Type}

def copyIn (mem : List α) (cp : Nat) (pat : List α) (start n : Nat) : Option (List α) := do
  let cells ← load pat start n
  store mem cp cells

def fillLoop (buf buflen : Nat) : Nat → List α → Nat → Nat → Nat → Option (List α)
  | 0, _, _, _, _ => none
  | fuel + 1, mem, cp, ncopied, nleft =>
    if ncopied < buflen then do
      let trans := if ncopied < nleft then ncopied else nleft
      let mem ← copy mem cp buf trans
      fillLoop buf buflen fuel mem (cp + trans) (ncopied + trans) (nleft - trans)
    else some mem

/-- `if (patlen) patshift = patshift % patlen` -/
def reducedShift (patlen patshift : Nat) : Nat :=
  if patlen ≠ 0 then patshift % patlen else patshift

/-- The memory after `pattern_fill`, which always returns 0. -/
def patternFill (fuel : Nat) (mem : List α) (buf buflen : Nat) (pat : List α)
    (patlen patshift : Nat) : Option (List α) := do
  let patshift := reducedShift patlen patshift
  let trans := patlen - patshift
  if buflen < trans then copyIn mem buf pat patshift buflen
  else
    let mem ← copyIn mem buf pat patshift trans
    let nleft := buflen - trans
    let cp := buf + trans
    if 0 < patshift then
      if nleft < patshift then copyIn mem cp pat 0 nleft
      else
        let mem ← copyIn mem cp pat 0 patshift
        let nleft := nleft - patshift
        let cp := cp + patshift
        fillLoop buf buflen fuel mem cp (cp - buf) nleft
    else fillLoop buf buflen fuel mem cp (cp - buf) nleft

section check
variable [DecidableEq α]

/-- Whether `memcmp` finds a difference. -/
def memcmp (left : List α) (pos : Nat) (right : List α) (pos' n : Nat) : Option Bool := do
  let a ← load left pos n
  let b ← load right pos' n
  some (a ≠ b)

def checkLoop (buf buflen : Nat) : Nat → List α → Nat → Nat → Nat → Option Int
  | 0, _, _, _, _ => none
  | fuel + 1, mem, cp, ncmp, nleft =>
    if ncmp < buflen then do
      let nb := if ncmp < nleft then ncmp else nleft
      let differs ← memcmp mem buf mem cp nb
      if differs then some (-1)
      else checkLoop buf buflen fuel mem (cp + nb) (ncmp + nb) (nleft - nb)
    else some 0

def patternCheck (fuel : Nat) (mem : List α) (buf buflen : Nat) (pat : List α)
    (patlen patshift : Nat) : Option Int := do
  let patshift := reducedShift patlen patshift
  let nb := patlen - patshift
  if buflen < nb then
    let differs ← memcmp mem buf pat patshift buflen
    some (if differs then -1 else 0)
  else
    let differs ← memcmp mem buf pat patshift nb
    if differs then some (-1)
    else
      let nleft := buflen - nb
      let cp := buf + nb
      if 0 < patshift then
        if nleft < patshift then
          let differs ← memcmp mem cp pat 0 nleft
          some (if differs then -1 else 0)
        else
          let differs ← memcmp mem cp pat 0 patshift
          if differs then some (-1)
          else
            let nleft := nleft - patshift
            let cp := cp + patshift
            checkLoop buf buflen fuel mem cp (cp - buf) nleft
      else checkLoop buf buflen fuel mem cp (cp - buf) nleft

end check

def periodic (pat : List α) (patlen patshift i : Nat) : Option α := pat[(i + patshift) % patlen]?

structure Call (mem : List α) (buf buflen : Nat) (pat : List α) (patlen : Nat) : Prop where
  some_pattern : 1 ≤ patlen
  pattern : patlen ≤ pat.length
  buffer : buf + buflen ≤ mem.length

section period
variable {pat : List α} {patlen patshift : Nat}

theorem periodic_add {i whole : Nat} (multiple : patlen ∣ whole) :
    periodic pat patlen patshift (whole + i) = periodic pat patlen patshift i := by
  obtain ⟨k, rfl⟩ := multiple
  rw [periodic, periodic, Nat.add_assoc, Nat.mul_add_mod]

theorem shift_lt (patshift : Nat) (some_pattern : 1 ≤ patlen) :
    reducedShift patlen patshift < patlen := by
  rw [reducedShift, if_pos (by omega)]
  exact Nat.mod_lt _ (by omega)

theorem periodic_head {i : Nat} (some_pattern : 1 ≤ patlen)
    (early : i < patlen - reducedShift patlen patshift) :
    periodic pat patlen patshift i = pat[reducedShift patlen patshift + i]? := by
  rw [reducedShift, if_pos (by omega)] at *
  rw [periodic, Nat.add_mod, Nat.mod_eq_of_lt (show i < patlen by omega), Nat.mod_eq_of_lt (by omega), Nat.add_comm]

theorem periodic_tail {i : Nat} (some_pattern : 1 ≤ patlen)
    (late : i < reducedShift patlen patshift) :
    periodic pat patlen patshift (patlen - reducedShift patlen patshift + i) = pat[i]? := by
  have small := shift_lt patshift some_pattern
  rw [reducedShift, if_pos (by omega)] at *
  have turned : (patlen - patshift % patlen + i + patshift) % patlen = i := by
    rw [Nat.add_mod, ← Nat.mod_mod patshift patlen, ← Nat.add_mod, Nat.mod_mod,
      show patlen - patshift % patlen + i + patshift % patlen = patlen + i by omega,
      Nat.add_mod_left, Nat.mod_eq_of_lt (by omega)]
  rw [periodic, turned]

theorem period_parts (pat : List α) (patshift : Nat) (some_pattern : 1 ≤ patlen) :
    ∃ shift, reducedShift patlen patshift = shift ∧ shift < patlen ∧
      (∀ i, i < patlen - shift → periodic pat patlen patshift i = pat[shift + i]?) ∧
      ∀ i, i < shift → periodic pat patlen patshift (patlen - shift + i) = pat[i]? :=
  ⟨_, rfl, shift_lt patshift some_pattern, fun _ early => periodic_head some_pattern early,
    fun _ late => periodic_tail some_pattern late⟩

theorem next_piece {buflen done nb : Nat} (some_done : 1 ≤ done) (going : done < buflen)
    (whole : patlen ∣ done ∨ done = buflen)
    (size : nb = if done < buflen - done then done else buflen - done) :
    patlen ∣ done ∧ 1 ≤ nb ∧ nb ≤ done ∧ done + nb ≤ buflen ∧ (patlen ∣ done + nb ∨ done + nb = buflen) := by
  have period : patlen ∣ done := by
    rcases whole with period | ended
    · exact period
    · omega
  by_cases doubles : done < buflen - done
  · rw [if_pos doubles] at size
    subst size
    exact ⟨period, some_done, Nat.le_refl nb, by omega, .inl (Nat.dvd_add period period)⟩
  · rw [if_neg doubles] at size
    exact ⟨period, by omega, by omega, by omega, .inr (by omega)⟩

end period

section fill
variable {mem pat : List α} {buf buflen patlen patshift : Nat}

theorem copy_in_some (mem pat : List α) (cp start n : Nat) (source : start + n ≤ pat.length)
    (inside : cp + n ≤ mem.length) :
    ∃ later, copyIn mem cp pat start n = some later ∧ Frame mem later cp n ∧
      Holds later cp n fun i => pat[start + i]? := by
  obtain ⟨cells, loaded, size, values⟩ := load_some source
  obtain ⟨later, stored, frame, holds⟩ := store_some mem cp cells (by omega)
  rw [size] at frame holds
  refine ⟨later, ?_, frame, holds_congr holds values⟩
  rw [copyIn, loaded]
  exact stored

theorem fill_loop_periodic (mem : List α) (ncopied fuel : Nat) (inside : buf + buflen ≤ mem.length)
    (some_copied : 1 ≤ ncopied) (bound : ncopied ≤ buflen)
    (whole : patlen ∣ ncopied ∨ ncopied = buflen)
    (holds : Holds mem buf ncopied (periodic pat patlen patshift))
    (some_fuel : buflen - ncopied < fuel) :
    ∃ later, fillLoop buf buflen fuel mem (buf + ncopied) ncopied (buflen - ncopied) = some later ∧
      Frame mem later buf buflen ∧ Holds later buf buflen (periodic pat patlen patshift) := by
  induction fuel generalizing mem ncopied with
  | zero => omega
  | succ fuel ih =>
    rw [fillLoop]
    by_cases full : ncopied = buflen
    · subst full
      rw [if_neg (by omega)]
      exact ⟨mem, rfl, frame_refl mem buf ncopied, holds⟩
    · rw [if_pos (by omega)]
      obtain ⟨nb, size⟩ : ∃ nb, nb =
          if ncopied < buflen - ncopied then ncopied else buflen - ncopied := ⟨_, rfl⟩
      obtain ⟨period, some_bytes, behind, within, next⟩ :=
        next_piece some_copied (by omega) whole size
      rw [← size]
      obtain ⟨later, copied, frame, cells⟩ := copy_some mem (buf + ncopied) buf nb
        (.inl (by omega)) (by omega) (by omega)
      have longer : Holds later buf (ncopied + nb) (periodic pat patlen patshift) := by
        apply holds_append holds frame
        apply holds_congr cells
        intro i low
        rw [periodic_add period]
        exact holds i (by omega)
      obtain ⟨final, returned, rest, complete⟩ := ih later (ncopied + nb)
        (by rw [frame.length]; exact inside) (by omega) (by omega) next longer (by omega)
      refine ⟨final, ?_, ⟨by rw [rest.length, frame.length], ?_⟩, complete⟩
      · simp only [copied, Option.bind_eq_bind, Option.bind_some]
        rw [Nat.add_assoc, show buflen - ncopied - nb = buflen - (ncopied + nb) by omega]
        exact returned
      · intro k apart
        rw [rest.outside k apart, frame.outside k (by omega)]

/-- What `pattern_fill` leaves: the pattern in the buffer, every other cell as it was. -/
def Filled (mem : List α) (buf buflen : Nat) (pat : List α) (patlen patshift : Nat)
    (later : List α) : Prop :=
  Frame mem later buf buflen ∧ Holds later buf buflen (periodic pat patlen patshift)

theorem pattern_fill_filled (call : Call mem buf buflen pat patlen) (patshift : Nat) {fuel : Nat}
    (some_fuel : buflen < fuel) :
    ∃ later, patternFill fuel mem buf buflen pat patlen patshift = some later ∧
      Filled mem buf buflen pat patlen patshift later := by
  obtain ⟨some_pattern, pattern, buffer⟩ := call
  obtain ⟨shift, reduced, small, head, tail⟩ := period_parts pat patshift some_pattern
  rw [patternFill, reduced]
  by_cases short : buflen < patlen - shift
  · simp only [if_pos short]
    obtain ⟨later, copied, frame, cells⟩ := copy_in_some mem pat buf shift buflen
      (by omega) buffer
    exact ⟨later, copied, frame, holds_congr cells fun i low => (head i (by omega)).symm⟩
  · simp only [if_neg short]
    obtain ⟨mem₁, copied, frame, cells⟩ := copy_in_some mem pat buf shift
      (patlen - shift) (by omega) (by omega)
    have first : Holds mem₁ buf (patlen - shift) (periodic pat patlen patshift) :=
      holds_congr cells fun i low => (head i low).symm
    have size : mem₁.length = mem.length := frame.length
    simp only [copied, Option.bind_eq_bind, Option.bind_some]
    by_cases rotated : 0 < shift
    · rw [if_pos rotated]
      by_cases partly : buflen - (patlen - shift) < shift
      · rw [if_pos partly]
        obtain ⟨later, rest, change, more⟩ := copy_in_some mem₁ pat
          (buf + (patlen - shift)) 0 (buflen - (patlen - shift)) (by omega) (by omega)
        refine ⟨later, rest, frame_step frame change (by omega) (by omega), ?_⟩
        have both := holds_append first change (holds_congr more fun i low => by
          rw [tail i (by omega), Nat.zero_add])
        rwa [show patlen - shift + (buflen - (patlen - shift)) = buflen by omega] at both
      · rw [if_neg partly]
        obtain ⟨mem₂, rest, change, more⟩ := copy_in_some mem₁ pat
          (buf + (patlen - shift)) 0 shift (by omega) (by omega)
        have both := holds_append first change (holds_congr more fun i low => by
          rw [tail i (by omega), Nat.zero_add])
        rw [show patlen - shift + shift = patlen by omega] at both
        obtain ⟨later, looped, frame', complete⟩ := fill_loop_periodic mem₂ patlen fuel
          (show buf + buflen ≤ mem₂.length by rw [change.length]; omega) some_pattern (by omega)
          (.inl (Nat.dvd_refl patlen)) both (by omega)
        refine ⟨later, ?_, ?_, complete⟩
        · simp only [rest, Option.bind_some]
          rw [show buf + (patlen - shift) + shift = buf + patlen by omega, show buf + patlen - buf = patlen by omega,
            show buflen - (patlen - shift) - shift = buflen - patlen by omega]
          exact looped
        · have joined := frame_step (n := buflen) frame change (by omega) (by omega)
          exact frame_step (k := 0) joined frame' (by omega) (by omega)
    · obtain rfl : shift = 0 := by omega
      rw [if_neg rotated]
      simp only [Nat.sub_zero] at *
      obtain ⟨later, looped, frame', complete⟩ := fill_loop_periodic mem₁ patlen fuel
        (show buf + buflen ≤ mem₁.length by omega) some_pattern (by omega)
        (.inl (Nat.dvd_refl patlen)) first (by omega)
      refine ⟨later, ?_, frame_step (k := 0) frame frame' (by omega) (by omega), complete⟩
      rw [show buf + patlen - buf = patlen by omega]
      exact looped

end fill

section verdict
variable [DecidableEq α] {mem pat : List α} {buf buflen patlen patshift : Nat}

/-- The value returned says whether `p` holds. -/
def Verdict (r : Int) (p : Prop) : Prop := (r = 0 ∧ p) ∨ (r = -1 ∧ ¬ p)

theorem memcmp_some (left right : List α) (pos pos' n : Nat) (inside : pos + n ≤ left.length)
    (source : pos' + n ≤ right.length) :
    ∃ differs, memcmp left pos right pos' n = some differs ∧
      (differs = false ↔ Holds left pos n fun i => right[pos' + i]?) := by
  obtain ⟨a, first, -⟩ := load_some inside
  obtain ⟨b, second, -⟩ := load_some source
  refine ⟨decide (a ≠ b), ?_, ?_⟩
  · rw [memcmp, first, second]
    rfl
  · rw [decide_eq_false_iff_not, not_not]
    exact load_eq_iff first second

theorem verdict_of_memcmp {differs : Bool} {p : Prop} (meaning : differs = false ↔ p) :
    Verdict (if differs then -1 else 0) p := by
  cases differs with
  | false => exact .inl ⟨rfl, meaning.mp rfl⟩
  | true => exact .inr ⟨rfl, fun holds => absurd (meaning.mpr holds) (by decide)⟩

theorem memcmp_longer {expected : Nat → Option α} (mem pat : List α) (buf done start n : Nat)
    (inside : buf + done + n ≤ mem.length) (source : start + n ≤ pat.length)
    (holds : Holds mem buf done expected)
    (next : ∀ i, i < n → expected (done + i) = pat[start + i]?) :
    ∃ differs, memcmp mem (buf + done) pat start n = some differs ∧
      (differs = false ↔ Holds mem buf (done + n) expected) := by
  obtain ⟨differs, compared, meaning⟩ := memcmp_some mem pat (buf + done) start n inside source
  refine ⟨differs, compared, ?_⟩
  rw [meaning, holds_split]
  constructor
  · intro same
    exact ⟨holds, holds_congr same fun i low => (next i low).symm⟩
  · rintro ⟨-, same⟩
    exact holds_congr same next

omit [DecidableEq α] in
theorem wrong_prefix {expected : Nat → Option α} {n : Nat} (part : n ≤ buflen)
    (wrong : ¬ Holds mem buf n expected) : Verdict (-1) (Holds mem buf buflen expected) := by
  refine .inr ⟨rfl, ?_⟩
  rw [show buflen = n + (buflen - n) by omega, holds_split]
  exact fun whole => wrong whole.1

theorem check_loop_verdict {ncmp fuel : Nat} (inside : buf + buflen ≤ mem.length)
    (some_compared : 1 ≤ ncmp) (bound : ncmp ≤ buflen) (whole : patlen ∣ ncmp ∨ ncmp = buflen)
    (holds : Holds mem buf ncmp (periodic pat patlen patshift)) (some_fuel : buflen - ncmp < fuel) :
    ∃ r, checkLoop buf buflen fuel mem (buf + ncmp) ncmp (buflen - ncmp) = some r ∧
      Verdict r (Holds mem buf buflen (periodic pat patlen patshift)) := by
  induction fuel generalizing ncmp with
  | zero => omega
  | succ fuel ih =>
    rw [checkLoop]
    by_cases full : ncmp = buflen
    · subst full
      rw [if_neg (by omega)]
      exact ⟨0, rfl, .inl ⟨rfl, holds⟩⟩
    · rw [if_pos (by omega)]
      obtain ⟨nb, size⟩ : ∃ nb, nb = if ncmp < buflen - ncmp then ncmp else buflen - ncmp :=
        ⟨_, rfl⟩
      obtain ⟨period, some_bytes, behind, within, next⟩ :=
        next_piece some_compared (by omega) whole size
      rw [← size]
      obtain ⟨differs, compared, meaning⟩ := memcmp_some mem mem buf (buf + ncmp) nb (by omega)
        (by omega)
      -- the piece compared is right when it agrees with the prefix
      have piece : differs = false ↔ Holds mem buf (ncmp + nb) (periodic pat patlen patshift) := by
        rw [meaning, holds_split]
        constructor
        · intro same
          refine ⟨holds, fun i low => ?_⟩
          exact (same i low).symm.trans ((holds i (by omega)).trans (periodic_add period).symm)
        · rintro ⟨-, next⟩ i low
          exact (holds i (by omega)).trans ((periodic_add period).symm.trans (next i low).symm)
      simp only [compared, Option.bind_eq_bind, Option.bind_some]
      cases differs with
      | true => exact ⟨-1, rfl, wrong_prefix within fun right => nomatch piece.mpr right⟩
      | false =>
        obtain ⟨r, returned, verdict⟩ :=
          ih (by omega) (by omega) next (piece.mp rfl) (by omega)
        refine ⟨r, ?_, verdict⟩
        rw [if_neg (by decide), Nat.add_assoc, show buflen - ncmp - nb = buflen - (ncmp + nb) by omega]
        exact returned

theorem pattern_check_verdict (call : Call mem buf buflen pat patlen) (patshift : Nat) {fuel : Nat}
    (some_fuel : buflen < fuel) :
    ∃ r, patternCheck fuel mem buf buflen pat patlen patshift = some r ∧
      Verdict r (Holds mem buf buflen (periodic pat patlen patshift)) := by
  obtain ⟨some_pattern, pattern, buffer⟩ := call
  obtain ⟨shift, reduced, small, head, tail⟩ := period_parts pat patshift some_pattern
  rw [patternCheck, reduced]
  have nothing : Holds mem buf 0 (periodic pat patlen patshift) := fun i low => absurd low (by omega)
  by_cases short : buflen < patlen - shift
  · obtain ⟨differs, compared, meaning⟩ := memcmp_longer mem pat buf 0 shift buflen (by omega)
      (by omega) nothing fun i low => by
        rw [Nat.zero_add]
        exact head i (by omega)
    rw [Nat.zero_add] at meaning
    rw [Nat.add_zero] at compared
    simp only [if_pos short, compared]
    exact ⟨_, rfl, verdict_of_memcmp meaning⟩
  · obtain ⟨differs, compared, meaning⟩ := memcmp_longer mem pat buf 0 shift
      (patlen - shift) (by omega) (by omega) nothing fun i low => by
        rw [Nat.zero_add]
        exact head i low
    rw [Nat.zero_add] at meaning
    rw [Nat.add_zero] at compared
    simp only [if_neg short, compared, Option.bind_eq_bind, Option.bind_some]
    cases differs with
    | true => exact ⟨-1, rfl, wrong_prefix (by omega) fun right => nomatch meaning.mpr right⟩
    | false =>
      have first := meaning.mp rfl
      rw [if_neg (by decide)]
      by_cases rotated : 0 < shift
      · rw [if_pos rotated]
        by_cases partly : buflen - (patlen - shift) < shift
        · obtain ⟨differs, compared, meaning⟩ := memcmp_longer mem pat buf _ 0
            (buflen - (patlen - shift)) (by omega) (by omega) first fun i low => by
              rw [Nat.zero_add]
              exact tail i (by omega)
          rw [show patlen - shift + (buflen - (patlen - shift)) = buflen by omega] at meaning
          rw [if_pos partly, compared]
          exact ⟨_, rfl, verdict_of_memcmp meaning⟩
        · obtain ⟨differs, compared, meaning⟩ := memcmp_longer mem pat buf _ 0 shift (by omega)
            (by omega) first fun i low => by
              rw [Nat.zero_add]
              exact tail i low
          rw [show patlen - shift + shift = patlen by omega] at meaning
          simp only [if_neg partly, compared, Option.bind_some]
          cases differs with
          | true => exact ⟨-1, rfl, wrong_prefix (by omega) fun right => nomatch meaning.mpr right⟩
          | false =>
            rw [if_neg (by decide), show buf + (patlen - shift) + shift = buf + patlen by omega,
              show buf + patlen - buf = patlen by omega,
              show buflen - (patlen - shift) - shift = buflen - patlen by omega]
            exact check_loop_verdict buffer some_pattern (by omega) (.inl (Nat.dvd_refl patlen))
              (meaning.mp rfl) (by omega)
      · obtain rfl : shift = 0 := by omega
        rw [if_neg rotated]
        simp only [Nat.sub_zero] at *
        rw [show buf + patlen - buf = patlen by omega]
        exact check_loop_verdict buffer some_pattern (by omega) (.inl (Nat.dvd_refl patlen)) first
          (by omega)

end verdict

section agree
variable [DecidableEq α] {mem pat : List α} {buf buflen patlen : Nat}

/-- `pattern_fill` writes the repeated pattern and nothing else, and `pattern_check` returns 0 just
    when the buffer holds it. -/
theorem pattern_fill_check (call : Call mem buf buflen pat patlen) (patshift : Nat) {fuel : Nat}
    (some_fuel : buflen < fuel) :
    (∃ later, patternFill fuel mem buf buflen pat patlen patshift = some later ∧ later.length = mem.length ∧
      (∀ i, i < buflen → later[buf + i]? = pat[(i + patshift) % patlen]?) ∧
      ∀ k, k < buf ∨ buf + buflen ≤ k → later[k]? = mem[k]?) ∧
    ∃ r, patternCheck fuel mem buf buflen pat patlen patshift = some r ∧
      (r = 0 ↔ ∀ i, i < buflen → mem[buf + i]? = pat[(i + patshift) % patlen]?) := by
  obtain ⟨later, filled, frame, holds⟩ := pattern_fill_filled call patshift some_fuel
  obtain ⟨r, returned, verdict⟩ := pattern_check_verdict call patshift some_fuel
  refine ⟨⟨later, filled, frame.length, holds, frame.outside⟩, r, returned, ?_⟩
  rcases verdict with ⟨rfl, right⟩ | ⟨rfl, wrong⟩
  · exact ⟨fun _ => right, fun _ => rfl⟩
  · exact ⟨fun zero => absurd zero (by decide), fun right => absurd right wrong⟩

theorem rotated_filled :
    (∃ later, patternFill 20 (List.replicate 10 'z') 2 7 ['a', 'b', 'c'] 3 5 = some later ∧ later.length = 10 ∧
      (∀ i, i < 7 → later[2 + i]? = ['a', 'b', 'c'][(i + 5) % 3]?) ∧
      ∀ k, k < 2 ∨ 2 + 7 ≤ k → later[k]? = (List.replicate 10 'z')[k]?) ∧
    ∃ r, patternCheck 20 (List.replicate 10 'z') 2 7 ['a', 'b', 'c'] 3 5 = some r ∧
      (r = 0 ↔ ∀ i, i < 7 → (List.replicate 10 'z')[2 + i]? = ['a', 'b', 'c'][(i + 5) % 3]?) :=
  pattern_fill_check ⟨by decide, by decide, by decide⟩ 5 (by decide)

end agree
end VtePattern
