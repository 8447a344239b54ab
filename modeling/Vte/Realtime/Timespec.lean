import Mathlib.Tactic.Ring
import Vte.Base.CInt

/-!
testcases/realtime/lib/librttest.c: sums and differences of timespecs, their normal form, and the way
to nanoseconds and back. The fields are longs of 64 bits; one that does not fit has no result. The
pointers are not NULL.
-/
namespace VteTimespec
open CInt

def nsPerSec : Int := 1000000000

structure Timespec where
  sec : Int
  nsec : Int
deriving DecidableEq

section code

/-- `k` is added to `tv_sec`, and as many seconds are taken from `tv_nsec`. -/
def Timespec.carry (t : Timespec) (k : Int) : Option Timespec :=
  (signed 64 (t.sec + k)).bind fun sec =>
    (signed 64 (t.nsec - k * nsPerSec)).map fun nsec => { sec, nsec }

theorem carry_some {t u : Timespec} {k : Int} (carried : t.carry k = some u) :
    u.sec = t.sec + k ∧ u.nsec = t.nsec - k * nsPerSec := by
  obtain ⟨sec, first, rest⟩ := Option.bind_eq_some_iff.mp carried
  obtain ⟨nsec, second, rfl⟩ := Option.map_eq_some_iff.mp rest
  unfold signed at first second
  split at first
  · split at second
    · exact ⟨(Option.some.inj first).symm, (Option.some.inj second).symm⟩
    · cases second
  · cases first

def carryUp (t : Timespec) : Option Timespec :=
  if t.nsec > nsPerSec then
    match _next : t.carry 1 with
    | some u => carryUp u
    | none => none
  else some t
termination_by t.nsec.toNat
decreasing_by
  have fields := carry_some _next
  unfold nsPerSec at *
  omega

/-- `while (ts->tv_nsec < -NS_PER_SEC)` -/
def carryDown (t : Timespec) : Option Timespec :=
  if t.nsec < -nsPerSec then
    match _next : t.carry (-1) with
    | some u => carryDown u
    | none => none
  else some t
termination_by (-t.nsec).toNat
decreasing_by
  have fields := carry_some _next
  unfold nsPerSec at *
  omega

def tsNormalize (t : Timespec) : Option Timespec := do
  let t ← carryUp t
  let t ← carryDown t
  let t ← if t.sec > 0 ∧ t.nsec < 0 then t.carry (-1) else some t
  if t.sec < 0 ∧ t.nsec > 0 then t.carry 1 else some t

def tsMinus (tsEnd tsStart : Timespec) : Option Timespec := do
  let sec ← signed 64 (tsEnd.sec - tsStart.sec)
  let nsec ← signed 64 (tsEnd.nsec - tsStart.nsec)
  tsNormalize { sec, nsec }

def tsPlus (a b : Timespec) : Option Timespec := do
  let sec ← signed 64 (a.sec + b.sec)
  let nsec ← signed 64 (a.nsec + b.nsec)
  tsNormalize { sec, nsec }

def tsToNsec (ts : Timespec) : Option (Option Nat) := do
  let t ← tsNormalize ts
  if t.sec ≤ 0 ∧ t.nsec < 0 then some none else some (some (u64 (ts.sec * nsPerSec + ts.nsec)))

def nsecToTs (ns : Nat) : Timespec where
  sec := s64 (ns / nsPerSec)
  nsec := s64 (ns % nsPerSec)

end code

section spec

def Timespec.total (t : Timespec) : Int := t.sec * nsPerSec + t.nsec

/-- The normal form: less than a second in `tv_nsec`, and no two signs. -/
structure Timespec.Normal (t : Timespec) : Prop where
  low : -nsPerSec < t.nsec
  high : t.nsec < nsPerSec
  positive : 0 < t.sec → 0 ≤ t.nsec
  negative : t.sec < 0 → t.nsec ≤ 0

structure Timespec.Fits (t : Timespec) : Prop where
  secLow : -9223372036854775808 ≤ t.sec
  secHigh : t.sec < 9223372036854775808
  nsecLow : -9223372036854775808 ≤ t.nsec
  nsecHigh : t.nsec < 9223372036854775808
  totalLow : -9223372036854775809 * nsPerSec < t.total
  totalHigh : t.total < 9223372036854775808 * nsPerSec

/-- Whole seconds in `tv_nsec`, with the sign of the total. -/
def Timespec.WholeSeconds (t : Timespec) : Prop :=
  nsPerSec ∣ t.nsec ∧ (0 < t.nsec ∧ 0 < t.total ∨ t.nsec < 0 ∧ t.total < 0)

end spec

section loops
variable {t u : Timespec}

theorem carry_fits {k : Int} (secLow : -9223372036854775808 ≤ t.sec + k)
    (secHigh : t.sec + k < 9223372036854775808)
    (nsecLow : -9223372036854775808 ≤ t.nsec - k * nsPerSec)
    (nsecHigh : t.nsec - k * nsPerSec < 9223372036854775808) :
    t.carry k = some { sec := t.sec + k, nsec := t.nsec - k * nsPerSec } := by
  rw [Timespec.carry, signed_fits secLow secHigh, signed_fits nsecLow nsecHigh]
  rfl

theorem carry_total {k : Int} (carried : t.carry k = some u) : u.total = t.total := by
  obtain ⟨sec, nsec⟩ := carry_some carried
  rw [Timespec.total, Timespec.total, sec, nsec]
  ring

theorem carry_up_some (t : Timespec) (wide : t.nsec < 9223372036854775808)
    (low : -9223372036854775808 ≤ t.sec) (total : t.total < 9223372036854775808 * nsPerSec) :
    ∃ u, carryUp t = some u ∧ u.total = t.total ∧ u.nsec ≤ nsPerSec ∧
      (u = t ∨ 0 < u.nsec ∧ 0 < t.nsec ∧ -9223372036854775808 ≤ u.sec) := by
  fun_induction carryUp t with
  | case1 t above u next ih =>
    obtain ⟨sec, nsec⟩ := carry_some next
    have same := carry_total next
    unfold nsPerSec at above nsec
    obtain ⟨v, done, kept, small, moved⟩ := ih (by omega) (by omega) (by rwa [same])
    refine ⟨v, done, kept.trans same, small, .inr ?_⟩
    rcases moved with rfl | ⟨some_left, _, within⟩
    · omega
    · omega
  | case2 t above next =>
    unfold Timespec.total nsPerSec at total
    unfold nsPerSec at above
    rw [carry_fits (by omega) (by omega) (by unfold nsPerSec; omega) (by unfold nsPerSec; omega)] at next
    cases next
  | case3 t within => exact ⟨t, rfl, rfl, by omega, .inl rfl⟩

theorem carry_down_some (t : Timespec) (wide : -9223372036854775808 ≤ t.nsec)
    (high : t.sec < 9223372036854775808) (total : -9223372036854775809 * nsPerSec < t.total) :
    ∃ u, carryDown t = some u ∧ u.total = t.total ∧ -nsPerSec ≤ u.nsec ∧
      (u = t ∨ u.nsec < 0 ∧ t.nsec < 0 ∧ u.sec < 9223372036854775808) := by
  fun_induction carryDown t with
  | case1 t below u next ih =>
    obtain ⟨sec, nsec⟩ := carry_some next
    have same := carry_total next
    unfold nsPerSec at below nsec
    obtain ⟨v, done, kept, small, moved⟩ := ih (by omega) (by omega) (by rwa [same])
    refine ⟨v, done, kept.trans same, small, .inr ?_⟩
    rcases moved with rfl | ⟨some_left, _, within⟩
    · omega
    · omega
  | case2 t below next =>
    unfold Timespec.total nsPerSec at total
    unfold nsPerSec at below
    rw [carry_fits (by omega) (by omega) (by unfold nsPerSec; omega) (by unfold nsPerSec; omega)] at next
    cases next
  | case3 t within => exact ⟨t, rfl, rfl, by omega, .inl rfl⟩

structure Carried (t u : Timespec) : Prop where
  total : u.total = t.total
  low : -nsPerSec ≤ u.nsec
  high : u.nsec ≤ nsPerSec
  positive : 0 < t.nsec ↔ 0 < u.nsec
  negative : t.nsec < 0 ↔ u.nsec < 0
  secLow : -9223372036854775808 ≤ u.sec
  secHigh : u.sec < 9223372036854775808

theorem loops_carried (fits : t.Fits) :
    ∃ u v, carryUp t = some u ∧ carryDown u = some v ∧ Carried t v := by
  obtain ⟨secLow, secHigh, nsecLow, nsecHigh, totalLow, totalHigh⟩ := fits
  obtain ⟨u, up, upTotal, upSmall, upMoved⟩ := carry_up_some t nsecHigh secLow totalHigh
  have upHigh : u.sec < 9223372036854775808 := by
    rcases upMoved with rfl | ⟨some_left, _, _⟩
    · exact secHigh
    · rw [← upTotal] at totalHigh
      unfold Timespec.total nsPerSec at totalHigh
      omega
  have upLow : -9223372036854775808 ≤ u.nsec := by
    rcases upMoved with rfl | ⟨some_left, _, _⟩
    · exact nsecLow
    · omega
  obtain ⟨v, down, downTotal, downSmall, downMoved⟩ :=
    carry_down_some u upLow upHigh (by rwa [upTotal])
  refine ⟨u, v, up, down, downTotal.trans upTotal, downSmall, ?_, ?_, ?_, ?_, ?_⟩
  · unfold nsPerSec at *
    rcases downMoved with rfl | ⟨some_left, _, _⟩
    · exact upSmall
    · omega
  · rcases upMoved with rfl | ⟨_, _, _⟩ <;> rcases downMoved with rfl | ⟨_, _, _⟩ <;> omega
  · rcases upMoved with rfl | ⟨_, _, _⟩ <;> rcases downMoved with rfl | ⟨_, _, _⟩ <;> omega
  · rcases downMoved with rfl | ⟨some_left, _, _⟩
    · rcases upMoved with rfl | ⟨_, _, low⟩
      · exact secLow
      · exact low
    · rw [← upTotal, ← downTotal] at totalLow
      unfold Timespec.total nsPerSec at *
      omega
  · rcases downMoved with rfl | ⟨some_left, _, high⟩
    · exact upHigh
    · exact high

end loops

section repairs
variable {t u v : Timespec}

theorem normal_iff : t.Normal ↔ (-nsPerSec < t.nsec ∧ t.nsec < nsPerSec) ∧
    (0 < t.sec → 0 ≤ t.nsec) ∧ (t.sec < 0 → t.nsec ≤ 0) :=
  ⟨fun ⟨low, high, positive, negative⟩ => ⟨⟨low, high⟩, positive, negative⟩,
    fun ⟨⟨low, high⟩, positive, negative⟩ => ⟨low, high, positive, negative⟩⟩

theorem normalize_cases (fits : t.Fits) : ∃ u v, tsNormalize t = some u ∧ Carried t v ∧
    (0 < v.sec ∧ v.nsec < 0 ∧ u.sec = v.sec - 1 ∧ u.nsec = v.nsec + nsPerSec ∨
      v.sec < 0 ∧ 0 < v.nsec ∧ u.sec = v.sec + 1 ∧ u.nsec = v.nsec - nsPerSec ∨
      ¬ (0 < v.sec ∧ v.nsec < 0) ∧ ¬ (v.sec < 0 ∧ 0 < v.nsec) ∧ u = v) := by
  obtain ⟨w, v, up, down, carried⟩ := loops_carried fits
  obtain ⟨-, low, high, -, -, secLow, secHigh⟩ := id carried
  unfold nsPerSec at low high
  unfold tsNormalize
  rw [up, Option.bind_eq_bind, Option.bind_some, down, Option.bind_some]
  by_cases first : v.sec > 0 ∧ v.nsec < 0
  · have carry := carry_fits (t := v) (k := -1) (by omega) (by omega) (by unfold nsPerSec; omega)
      (by unfold nsPerSec; omega)
    rw [if_pos first, carry, Option.bind_some]
    dsimp only
    rw [if_neg (by omega)]
    refine ⟨_, v, rfl, carried, .inl ⟨first.1, first.2, rfl, ?_⟩⟩
    dsimp only
    omega
  · rw [if_neg first, Option.bind_some]
    dsimp only
    by_cases second : v.sec < 0 ∧ v.nsec > 0
    · have carry := carry_fits (t := v) (k := 1) (by omega) (by omega) (by unfold nsPerSec; omega)
        (by unfold nsPerSec; omega)
      rw [if_pos second, carry]
      refine ⟨_, v, rfl, carried, .inr (.inl ⟨second.1, second.2, rfl, ?_⟩)⟩
      dsimp only
      omega
    · rw [if_neg second]
      exact ⟨v, v, rfl, carried, .inr (.inr ⟨first, second, rfl⟩)⟩

theorem normalize_some (fits : t.Fits) :
    ∃ u, tsNormalize t = some u ∧ u.total = t.total ∧ (u.Normal ↔ ¬ t.WholeSeconds) := by
  obtain ⟨u, v, done, carried, cases⟩ := normalize_cases fits
  obtain ⟨total, low, high, positive, negative, secLow, secHigh⟩ := carried
  have whole : nsPerSec ∣ t.nsec ↔ nsPerSec ∣ v.nsec := by
    unfold Timespec.total nsPerSec at *
    omega
  unfold Timespec.WholeSeconds
  rw [whole, positive, negative, ← total]
  refine ⟨u, done, ?_, normal_iff.trans ?_⟩
  · unfold Timespec.total
    rcases cases with ⟨_, _, sec, nsec⟩ | ⟨_, _, sec, nsec⟩ | ⟨_, _, rfl⟩
    · rw [sec, nsec]
      ring
    · rw [sec, nsec]
      ring
    · rfl
  · unfold Timespec.total nsPerSec at *
    rcases cases with ⟨_, _, sec, nsec⟩ | ⟨_, _, sec, nsec⟩ | ⟨_, _, rfl⟩
    · omega
    · omega
    · omega

theorem negative_some (fits : t.Fits) : ∃ u, tsNormalize t = some u ∧
    (u.sec ≤ 0 ∧ u.nsec < 0 ↔ t.total < 0 ∧ ¬ (nsPerSec ∣ t.nsec ∧ 0 ≤ t.nsec)) := by
  obtain ⟨u, v, done, carried, cases⟩ := normalize_cases fits
  obtain ⟨total, low, high, positive, negative, -, -⟩ := carried
  have whole : nsPerSec ∣ t.nsec ↔ nsPerSec ∣ v.nsec := by
    unfold Timespec.total nsPerSec at *
    omega
  rw [whole, ← Int.not_lt, negative, ← total]
  refine ⟨u, done, ?_⟩
  unfold Timespec.total nsPerSec at *
  rcases cases with ⟨_, _, sec, nsec⟩ | ⟨_, _, sec, nsec⟩ | ⟨_, _, rfl⟩
  · omega
  · omega
  · omega

end repairs

section results
variable {t a b : Timespec} {ns : Nat}

def NormalizeRight (t : Timespec) : Prop :=
  ∃ u, tsNormalize t = some u ∧ u.Normal ∧ u.total = t.total

def Timespec.sum (a b : Timespec) : Timespec where
  sec := a.sec + b.sec
  nsec := a.nsec + b.nsec

def Timespec.difference (a b : Timespec) : Timespec where
  sec := a.sec - b.sec
  nsec := a.nsec - b.nsec

def PlusRight (a b : Timespec) : Prop :=
  ∃ u, tsPlus a b = some u ∧ u.Normal ∧ u.total = a.total + b.total

def MinusRight (a b : Timespec) : Prop :=
  ∃ u, tsMinus a b = some u ∧ u.Normal ∧ u.total = a.total - b.total

def ToNsecRight (t : Timespec) : Prop :=
  ∃ r, tsToNsec t = some r ∧ (r = none ↔ t.total < 0) ∧ ∀ ns ∈ r, (ns : Int) = t.total

/-- A negative number of whole seconds, without a negative `tv_nsec`. -/
def Timespec.NegativeSeconds (t : Timespec) : Prop :=
  t.total < 0 ∧ nsPerSec ∣ t.nsec ∧ 0 ≤ t.nsec

theorem normalize_right_iff (fits : t.Fits) : NormalizeRight t ↔ ¬ t.WholeSeconds := by
  obtain ⟨u, done, total, normal⟩ := normalize_some fits
  rw [← normal]
  constructor
  · rintro ⟨v, same, right, _⟩
    rw [done] at same
    rwa [Option.some.inj same]
  · intro right
    exact ⟨u, done, right, total⟩

theorem plus_normalizes (fits : (a.sum b).Fits) : tsPlus a b = tsNormalize (a.sum b) := by
  rw [tsPlus, signed_fits fits.secLow fits.secHigh, signed_fits fits.nsecLow fits.nsecHigh]
  rfl

theorem minus_normalizes (fits : (a.difference b).Fits) :
    tsMinus a b = tsNormalize (a.difference b) := by
  rw [tsMinus, signed_fits fits.secLow fits.secHigh, signed_fits fits.nsecLow fits.nsecHigh]
  rfl

theorem plus_right_iff (fits : (a.sum b).Fits) : PlusRight a b ↔ ¬ (a.sum b).WholeSeconds := by
  have total : (a.sum b).total = a.total + b.total := by
    unfold Timespec.total Timespec.sum
    ring
  rw [← normalize_right_iff fits, PlusRight, plus_normalizes fits, ← total]
  rfl

theorem minus_right_iff (fits : (a.difference b).Fits) :
    MinusRight a b ↔ ¬ (a.difference b).WholeSeconds := by
  have total : (a.difference b).total = a.total - b.total := by
    unfold Timespec.total Timespec.difference
    ring
  rw [← normalize_right_iff fits, MinusRight, minus_normalizes fits, ← total]
  rfl

theorem to_nsec_some (fits : t.Fits) : tsToNsec t =
    some (if t.total < 0 ∧ ¬ (nsPerSec ∣ t.nsec ∧ 0 ≤ t.nsec) then none else some (u64 t.total)) := by
  obtain ⟨u, done, negative⟩ := negative_some fits
  rw [tsToNsec, done, Option.bind_eq_bind, Option.bind_some, ← Timespec.total]
  by_cases fails : t.total < 0 ∧ ¬ (nsPerSec ∣ t.nsec ∧ 0 ≤ t.nsec)
  · rw [if_pos fails, if_pos (negative.mpr fails)]
  · rw [if_neg fails, if_neg fun sign => fails (negative.mp sign)]

theorem to_nsec_right_iff (fits : t.Fits) :
    ToNsecRight t ↔ ¬ t.NegativeSeconds ∧ t.total < 18446744073709551616 := by
  rw [ToNsecRight, to_nsec_some fits, Timespec.NegativeSeconds]
  by_cases fails : t.total < 0 ∧ ¬ (nsPerSec ∣ t.nsec ∧ 0 ≤ t.nsec)
  · rw [if_pos fails]
    refine iff_of_true ⟨none, rfl, iff_of_true rfl fails.1, fun ns stored => nomatch stored⟩ ?_
    exact ⟨fun seconds => fails.2 seconds.2, by omega⟩
  · rw [if_neg fails]
    constructor
    · rintro ⟨r, same, sign, value⟩
      obtain rfl := Option.some.inj same
      have positive : ¬ t.total < 0 := fun negative => nomatch sign.mpr negative
      have stored := value _ rfl
      unfold u64 at stored
      exact ⟨fun seconds => positive seconds.1, by omega⟩
    · rintro ⟨calm, small⟩
      have positive : ¬ t.total < 0 := by
        intro negative
        exact fails ⟨negative, fun seconds => calm ⟨negative, seconds⟩⟩
      refine ⟨_, rfl, iff_of_false (fun stored => nomatch stored) positive, ?_⟩
      intro ns stored
      obtain rfl := Option.some.inj stored
      exact u64_small (by omega) small

theorem nsec_round (small : ns < 18446744073709551616) : tsToNsec (nsecToTs ns) = some (some ns) := by
  have sec : s64 ((ns : Int) / nsPerSec) = ns / nsPerSec := by
    unfold nsPerSec
    exact s64_small (by omega) (by omega)
  have nsec : s64 ((ns : Int) % nsPerSec) = ns % nsPerSec := by
    unfold nsPerSec
    exact s64_small (by omega) (by omega)
  have total : Timespec.total { sec := ns / nsPerSec, nsec := ns % nsPerSec } = ns :=
    Int.ediv_mul_add_emod _ _
  have fits : Timespec.Fits { sec := ns / nsPerSec, nsec := ns % nsPerSec } := by
    have secs : 0 ≤ (ns : Int) / nsPerSec ∧ (ns : Int) / nsPerSec < 9223372036854775808 := by
      unfold nsPerSec
      omega
    have nsecs : 0 ≤ (ns : Int) % nsPerSec ∧ (ns : Int) % nsPerSec < 9223372036854775808 := by
      unfold nsPerSec
      omega
    constructor
    · exact Int.le_trans (by decide) secs.1
    · exact secs.2
    · exact Int.le_trans (by decide) nsecs.1
    · exact nsecs.2
    · rw [total]
      unfold nsPerSec
      omega
    · rw [total]
      unfold nsPerSec
      omega
  have value : u64 ns = ns := by
    have same := u64_small (x := ns) (by omega) (by omega)
    omega
  rw [nsecToTs, sec, nsec, to_nsec_some fits, total, if_neg (by omega), value]

/-- Sums and differences are in normal form but where whole seconds are left in `tv_nsec`, and the
nanoseconds are right but for a negative number of seconds. -/
theorem timespec_right_iff (fits : t.Fits) (sumFits : (a.sum b).Fits)
    (differenceFits : (a.difference b).Fits) (small : ns < 18446744073709551616) :
    (NormalizeRight t ↔ ¬ t.WholeSeconds) ∧ (PlusRight a b ↔ ¬ (a.sum b).WholeSeconds) ∧
      (MinusRight a b ↔ ¬ (a.difference b).WholeSeconds) ∧
      (ToNsecRight t ↔ ¬ t.NegativeSeconds ∧ t.total < 18446744073709551616) ∧
      tsToNsec (nsecToTs ns) = some (some ns) :=
  ⟨normalize_right_iff fits, plus_right_iff sumFits, minus_right_iff differenceFits,
    to_nsec_right_iff fits, nsec_round small⟩

/-- A thousand million nanoseconds stay where they are, and minus one second is not negative. -/
theorem whole_second_left : ¬ (∀ t : Timespec, t.Fits → NormalizeRight t) ∧
    ¬ ∀ t : Timespec, t.Fits → ToNsecRight t := by
  have oneFits : Timespec.Fits { sec := 0, nsec := 1000000000 } := by
    constructor <;> decide
  have minusFits : Timespec.Fits { sec := -1, nsec := 0 } := by
    constructor <;> decide
  constructor
  · intro all
    exact (normalize_right_iff oneFits).mp (all _ oneFits) ⟨by decide, .inl ⟨by decide, by decide⟩⟩
  · intro all
    exact ((to_nsec_right_iff minusFits).mp (all _ minusFits)).1 ⟨by decide, by decide, by decide⟩

/-- Half a second with fields of two signs, and a sum that is a little more than two seconds. -/
theorem half_seconds_right : (NormalizeRight { sec := -1, nsec := 1500000000 }) ∧
    PlusRight { sec := 1, nsec := 500000000 } { sec := 0, nsec := 500000001 } := by
  have right := timespec_right_iff (t := { sec := -1, nsec := 1500000000 })
    (a := { sec := 1, nsec := 500000000 }) (b := { sec := 0, nsec := 500000001 })
    (by constructor <;> decide) (by constructor <;> decide) (by constructor <;> decide)
    (show 5 < 18446744073709551616 by decide)
  exact ⟨right.1.mpr (by rintro ⟨whole, -⟩; revert whole; decide),
    right.2.1.mpr (by rintro ⟨whole, -⟩; revert whole; decide)⟩

end results
end VteTimespec
