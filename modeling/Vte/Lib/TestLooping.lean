import Mathlib.Order.Monotone.Defs
import Vte.Lib.ParseOptsSound

/-!
How long `usc_test_looping` keeps its caller going: while the count is not reached or the duration has not elapsed, and
for ever if 0 is given.
-/
namespace ParseOpts
open Text CInt Digits SigBits Floats

theorem microseconds_close {x : ℚ} {d : Nat} (fits : microseconds (.finite x) = some d) :
    |(d : ℚ) - x * 1000000| ≤ 2 + |x * 1000000| / 2 ^ 23 := by
  have rounded := round_to_close 24 (-149) (x * 1000000)
  have last_bit : (2 : ℚ) ^ max (lastBit 24 (x * 1000000)) (-149) ≤ 1 + |x * 1000000| / 2 ^ 23 := by
    have least : (2 : ℚ) ^ (-149 : ℤ) ≤ 1 := zpow_le_one_of_nonpos₀ (by norm_num) (by norm_num)
    have some_size : 0 ≤ |x * 1000000| / 2 ^ 23 := by positivity
    rcases max_choice (lastBit 24 (x * 1000000)) (-149) with here | here
    · rw [here]
      by_cases zero : x * 1000000 = 0
      · rw [zero, lastBit, abs_zero, Int.log_zero_right]
        norm_num
      · have small := last_bit_small 24 (x * 1000000) zero
        have halved : |x * 1000000| * 2 / 2 ^ 24 = |x * 1000000| / 2 ^ 23 := by ring
        linarith
    · rw [here]
      linarith
  rw [microseconds, Value.times, float, narrow] at fits
  generalize roundTo 24 (-149) (x * 1000000) = y at fits rounded
  have whole : |(d : ℚ) - y| ≤ 1 := by
    split at fits
    · cases fits
    · rw [Value.toU64] at fits
      split at fits
      · rename_i range
        cases fits
        have low := Int.floor_le y
        have high := Int.lt_floor_add_one y
        rw [abs_le]
        rcases le_or_gt 0 ⌊y⌋ with nonneg | negative
        · have same : ((⌊y⌋.toNat : ℕ) : ℚ) = ⌊y⌋ := by exact_mod_cast Int.toNat_of_nonneg nonneg
          rw [same]
          constructor <;> linarith
        · have below : y < 0 := Int.floor_lt.mp negative |>.trans_eq Int.cast_zero
          rw [Int.toNat_of_nonpos (le_of_lt negative), Nat.cast_zero]
          constructor <;> linarith [range.1]
      · cases fits
  have apart := abs_sub_le (d : ℚ) y (x * 1000000)
  linarith

theorem one_second_close : |((1000000 : Nat) : ℚ) - 1 * 1000000| ≤ 2 + |1 * 1000000| / 2 ^ 23 :=
  microseconds_close (x := 1) (d := 1000000) (by decide +kernel)

section delays
variable {clock : Nat → Nat} {g : Globals} {fuel finish ct readings counter : Nat} {s : Statics}
  {r r' : Except Fault (Bool × Statics)}

theorem wait_more {waited : Except Fault Nat} (ended : wait clock g finish fuel ct readings = some waited) :
    wait clock g finish (fuel + 1) ct readings = some waited := by
  induction fuel generalizing ct readings with
  | zero => cases ended
  | succ fuel ih =>
    rw [wait] at ended ⊢
    by_cases early : ct < finish
    · rw [if_pos early] at ended ⊢
      cases hook : (if g.STD_LD_recfun = 0 then .ok () else usc_recressive_func g : Except Fault Unit) with
      | error fault =>
        rw [hook] at ended
        exact ended
      | ok _ =>
        rw [hook] at ended
        exact ih ended
    · rw [if_neg early] at ended ⊢
      exact ended

theorem wait_over (late : finish ≤ ct) : wait clock g finish 1 ct readings = some (.ok readings) := by
  rw [wait, if_neg (Nat.not_lt.mpr late)]

theorem wait_ends (no_hook : g.STD_LD_recfun = 0) {j : Nat} (past : finish ≤ clock j) :
    ∀ ahead ct readings, readings + ahead = j →
      ∃ fuel last, readings ≤ last ∧ wait clock g finish fuel ct readings = some (.ok last) := by
  have goes_on {fuel ct readings : Nat} (early : ct < finish) : wait clock g finish (fuel + 1) ct readings =
      wait clock g finish fuel (clock readings) (readings + 1) := by
    rw [wait, if_pos early, if_pos no_hook]
  intro ahead
  induction ahead with
  | zero =>
    intro ct readings here
    by_cases early : ct < finish
    · refine ⟨2, readings + 1, Nat.le_succ _, ?_⟩
      rw [goes_on early]
      exact wait_over (by rw [← Nat.add_zero readings, here]; exact past)
    · exact ⟨1, readings, Nat.le_refl _, wait_over (Nat.not_lt.mp early)⟩
  | succ ahead ih =>
    intro ct readings here
    by_cases early : ct < finish
    · obtain ⟨fuel, last, later, ended⟩ := ih (clock readings) (readings + 1) (by omega)
      exact ⟨fuel + 1, last, by omega, by rw [goes_on early, ended]⟩
    · exact ⟨1, readings, Nat.le_refl _, wait_over (Nat.not_lt.mp early)⟩

theorem looping_more (ended : usc_test_looping clock g fuel counter s = some r) :
    usc_test_looping clock g (fuel + 1) counter s = some r := by
  rw [usc_test_looping] at ended ⊢
  by_cases first_time : s.first_time
  · rw [if_pos first_time] at ended ⊢
    exact ended
  · rw [if_neg first_time] at ended ⊢
    rw [again] at ended ⊢
    by_cases no_delay : g.STD_LOOP_DELAY.isZero
    · rw [if_pos no_delay] at ended ⊢
      exact ended
    · rw [if_neg no_delay] at ended ⊢
      dsimp only at ended ⊢
      cases waits : wait clock g (u64 (clock s.readings + s.delay : Nat)) fuel (clock s.readings) (s.readings + 1) with
      | none =>
        rw [waits] at ended
        cases ended
      | some waited =>
        rw [waits] at ended
        rw [wait_more waits]
        exact ended

theorem evaluates_unique (one : Evaluates clock g counter s r) (other : Evaluates clock g counter s r') : r = r' := by
  have more {fuel : Nat} {r : Except Fault (Bool × Statics)} (ended : usc_test_looping clock g fuel counter s = some r)
      (extra : Nat) : usc_test_looping clock g (fuel + extra) counter s = some r := by
    induction extra with
    | zero => exact ended
    | succ extra ih => exact looping_more ih
  obtain ⟨fuel, ended⟩ := one
  obtain ⟨fuel', ended'⟩ := other
  have same := more ended' fuel
  rw [Nat.add_comm, more ended fuel'] at same
  exact Option.some.inj same

end delays

section rounds
variable {env : Str → Option Str} {opts : List Opt} {clock : Nat → Nat} {g : Globals} {counter now : Nat} {s : Statics}

theorem forever_some_zero (forever : Forever env opts) : SomeZero env opts := by
  rcases forever with zero | ⟨d, given, zero⟩
  · exact .inr (.inr (.inl zero))
  · rw [given_duration] at given
    rcases last_argument 'I' opts with ⟨none_given, last, _⟩ | ⟨arg, member, last, _⟩
    · rw [last] at given
      refine .inr (.inr (.inr ⟨none_given, ?_⟩))
      rcases Option.or_eq_some_iff.mp given with duration | ⟨_, walltime⟩
      · exact .inr ⟨d, duration, zero⟩
      · exact .inl ⟨d, walltime, zero⟩
    · rw [last] at given
      cases given
      exact .inr (.inl ⟨arg, member, zero⟩)

structure Ready (env : Str → Option Str) (opts : List Opt) (clock : Nat → Nat) (counter : Nat) (s : Statics) : Prop where
  later : s.first_time = false
  stop : (duration env opts).isZero = false → ∃ d, microseconds (duration env opts) = some d ∧
    s.stop_time = u64 (d + clock 0 : Nat) ∧ counter < s.readings ∧ (counter = 0 → s.readings = 1)
  delay : (delay env opts).isZero = false → microseconds (delay env opts) = some s.delay

structure Between (env : Str → Option Str) (opts : List Opt) (clock : Nat → Nat) (counter : Nat) (s : Statics) :
    Prop where
  start : counter = 0 → s = statics
  later : 0 < counter → Keep env opts clock 0 (clock 1) ∧ s.first_time = false ∧
    ((duration env opts).isZero = false → ∃ d, microseconds (duration env opts) = some d ∧
      s.stop_time = u64 (d + clock 0 : Nat) ∧ counter < s.readings) ∧
    ((delay env opts).isZero = false → microseconds (delay env opts) = some s.delay)

theorem ready_first (parsed : Parsed env opts g) (suits : Suits env opts clock) :
    ∃ s, first clock g statics = .ok s ∧ Ready env opts clock 0 s := by
  rw [first, parsed.duration, parsed.delay]
  cases timed : (duration env opts).isZero with
  | true =>
    cases delays : (delay env opts).isZero with
    | true => exact ⟨_, rfl, ⟨rfl, by simp [timed], by simp [delays]⟩⟩
    | false =>
      obtain ⟨d, fits, _⟩ := suits.delay_fits delays
      rw [fits]
      exact ⟨_, rfl, ⟨rfl, by simp [timed], fun _ => fits⟩⟩
  | false =>
    obtain ⟨d, fits, _⟩ := suits.duration_fits timed
    rw [fits]
    cases delays : (delay env opts).isZero with
    | true => exact ⟨_, rfl, ⟨rfl, fun _ => ⟨d, fits, rfl, Nat.one_pos, fun _ => rfl⟩, by simp [delays]⟩⟩
    | false =>
      obtain ⟨d', fits', _⟩ := suits.delay_fits delays
      rw [fits']
      exact ⟨_, rfl, ⟨rfl, fun _ => ⟨d, fits, rfl, Nat.one_pos, fun _ => rfl⟩, fun _ => fits'⟩⟩

theorem ready_again (parsed : Parsed env opts g) (suits : Suits env opts clock) (between : Between env opts clock counter s)
    (later : 0 < counter) : ∃ fuel s', again clock g fuel s = some (.ok s') ∧ Ready env opts clock counter s' := by
  obtain ⟨kept, started, stop, delayed⟩ := between.later later
  have ready {readings : Nat} (more : s.readings ≤ readings) :
      Ready env opts clock counter { s with readings := readings } := by
    refine ⟨started, fun timed => ?_, delayed⟩
    obtain ⟨d, fits, value, behind⟩ := stop timed
    exact ⟨d, fits, value, Nat.lt_of_lt_of_le behind more, fun zero => absurd zero (Nat.ne_of_gt later)⟩
  cases delays : (delay env opts).isZero with
  | true =>
    refine ⟨0, s, ?_, ready (Nat.le_refl _)⟩
    rw [again, parsed.delay, if_pos delays]
  | false =>
    have fits := delayed delays
    obtain ⟨d, fits', passes⟩ := suits.delay_fits delays
    rw [fits] at fits'
    cases fits'
    have ends : ∃ fuel last, s.readings + 1 ≤ last ∧
        wait clock g (u64 (clock s.readings + s.delay : Nat)) fuel (clock s.readings) (s.readings + 1) =
          some (.ok last) := by
      have no_wait (none : u64 (clock s.readings + s.delay : Nat) ≤ clock s.readings) : ∃ fuel last, s.readings + 1 ≤ last ∧
          wait clock g (u64 (clock s.readings + s.delay : Nat)) fuel (clock s.readings) (s.readings + 1) =
            some (.ok last) := ⟨1, _, Nat.le_refl _, wait_over none⟩
      rcases suits.delaying kept with no_hook | no_delay | ⟨d, again_fits, none⟩
      · obtain ⟨j, ahead, past⟩ := passes kept s.readings
        by_cases here : j = s.readings
        · exact no_wait (here ▸ past)
        · exact wait_ends (parsed.delaying.trans no_hook) past (j - (s.readings + 1)) _ _ (by omega)
      · rw [delays] at no_delay
        cases no_delay
      · rw [fits] at again_fits
        cases again_fits
        exact no_wait (none _)
    obtain ⟨fuel, last, more, ended⟩ := ends
    refine ⟨fuel, { s with readings := last }, ?_, ready (Nat.le_of_succ_le more)⟩
    rw [again, parsed.delay, if_neg (by simp [delays])]
    dsimp only
    rw [ended]
    rfl

theorem keep_now {now' : Nat} (untimed : (duration env opts).isZero = true) :
    Keep env opts clock counter now ↔ Keep env opts clock counter now' := by
  simp [Keep, untimed]

theorem keeps_iff (parsed : Parsed env opts g) (suits : Suits env opts clock) (ready : Ready env opts clock counter s) :
    (g.STD_INFINITE || (decide (g.STD_LOOP_COUNT ≠ 0) && decide ((counter : Int) < g.STD_LOOP_COUNT)) ||
      (!g.STD_LOOP_DURATION.isZero && decide (clock s.readings < s.stop_time))) = true ↔
    Keep env opts clock counter (clock s.readings) := by
  by_cases forever : Forever env opts
  · have infinite := parsed.infinite.mpr (forever_some_zero forever)
    rw [infinite]
    exact iff_of_true rfl (.inl forever)
  · have finite : g.STD_INFINITE = false := by
      rw [Bool.eq_false_iff]
      exact fun infinite => forever (suits.settled (parsed.infinite.mp infinite))
    have counted := parsed.count fun zero => forever (.inl zero)
    have timed : (!(duration env opts).isZero && decide (clock s.readings < s.stop_time)) = true ↔
        (duration env opts).isZero = false ∧ ∃ d, microseconds (duration env opts) = some d ∧ clock s.readings < clock 0 + d := by
      cases timed : (duration env opts).isZero with
      | true => simp
      | false =>
        obtain ⟨d, fits, value, _⟩ := ready.stop timed
        obtain ⟨d', fits', room⟩ := suits.duration_fits timed
        rw [fits] at fits'
        cases fits'
        have no_wrap : u64 (d + clock 0 : Nat) = d + clock 0 := by
          have small := u64_small (x := (d + clock 0 : Nat)) (by omega) (by have := room.resolve_left forever; omega)
          exact_mod_cast small
        rw [value, no_wrap, fits]
        simp [Nat.add_comm]
    rw [finite, counted, parsed.duration, Bool.false_or, Bool.or_eq_true, timed, Keep]
    simp only [forever, false_or, Bool.and_eq_true, decide_eq_true_eq]
    refine or_congr_left ⟨And.right, fun below => ⟨?_, below⟩⟩
    omega

theorem decision_keeps (parsed : Parsed env opts g) (suits : Suits env opts clock)
    (ready : Ready env opts clock counter s) (kept : 0 < counter → Keep env opts clock 0 (clock 1)) :
    ∃ keeps s', decision clock g counter s = .ok (keeps, s') ∧
      (keeps = true ↔ Keep env opts clock counter (clock (s'.readings - 1))) ∧
      (keeps = true → Between env opts clock (counter + 1) s') := by
  have value := keeps_iff parsed suits ready
  have first_kept (keep : Keep env opts clock counter (clock s.readings)) : Keep env opts clock 0 (clock 1) := by
    rcases Nat.eq_zero_or_pos counter with rfl | later
    · cases timed : (duration env opts).isZero with
      | true => exact (keep_now timed).mp keep
      | false =>
        obtain ⟨_, _, _, _, one⟩ := ready.stop timed
        rw [one rfl] at keep
        exact keep
    · exact kept later
  unfold decision
  dsimp only
  generalize next : (if g.STD_LOOP_DURATION.isZero then s else { s with readings := s.readings + 1 }) = s'
  have same : s'.first_time = s.first_time ∧ s'.stop_time = s.stop_time ∧ s'.delay = s.delay := by
    rw [← next]
    split <;> exact ⟨rfl, rfl, rfl⟩
  have reading (timed : (duration env opts).isZero = false) : s'.readings = s.readings + 1 := by
    rw [← next, parsed.duration, if_neg (by simp [timed])]
  have keep_iff : Keep env opts clock counter (clock (s'.readings - 1)) ↔ Keep env opts clock counter (clock s.readings) := by
    cases timed : (duration env opts).isZero with
    | true => exact keep_now timed
    | false => rw [reading timed, Nat.add_sub_cancel]
  rw [← keep_iff] at value
  generalize (g.STD_INFINITE || (decide (g.STD_LOOP_COUNT ≠ 0) && decide ((counter : Int) < g.STD_LOOP_COUNT)) ||
    (!g.STD_LOOP_DURATION.isZero && decide (clock s.readings < s.stop_time))) = keeps at value ⊢
  cases keeps with
  | false => exact ⟨false, s', rfl, value, fun never => by cases never⟩
  | true =>
    have keep := first_kept (keep_iff.mp (value.mp rfl))
    rw [if_pos rfl, if_pos (parsed.looping.trans (suits.looping keep))]
    refine ⟨true, s', rfl, value, fun _ => ⟨fun never => absurd never (Nat.succ_ne_zero _), fun _ => ⟨keep, ?_, fun timed => ?_, fun delays => ?_⟩⟩⟩
    · rw [same.1, ready.later]
    · obtain ⟨d, fits, stop, behind, _⟩ := ready.stop timed
      refine ⟨d, fits, by rw [same.2.1, stop], ?_⟩
      rw [reading timed]
      exact Nat.succ_lt_succ behind
    · rw [same.2.2, ready.delay delays]

theorem evaluates_keeps (parsed : Parsed env opts g) (suits : Suits env opts clock)
    (between : Between env opts clock counter s) :
    ∃ keeps s', Evaluates clock g counter s (.ok (keeps, s')) ∧
      (keeps = true ↔ Keep env opts clock counter (clock (s'.readings - 1))) ∧
      (keeps = true → Between env opts clock (counter + 1) s') := by
  rcases Nat.eq_zero_or_pos counter with rfl | later
  · cases between.start rfl
    obtain ⟨s₁, done, ready⟩ := ready_first parsed suits
    obtain ⟨keeps, s', decided, value, next⟩ := decision_keeps parsed suits ready fun never => absurd never (Nat.lt_irrefl 0)
    refine ⟨keeps, s', ⟨0, ?_⟩, value, next⟩
    have started : statics.first_time = true := rfl
    rw [usc_test_looping, if_pos started, done]
    exact congrArg some decided
  · obtain ⟨fuel, s₁, done, ready⟩ := ready_again parsed suits between later
    obtain ⟨keeps, s', decided, value, next⟩ :=
      decision_keeps parsed suits ready fun later => (between.later later).1
    refine ⟨keeps, s', ⟨fuel, ?_⟩, value, next⟩
    rw [usc_test_looping, if_neg (by simp [(between.later later).2.1]), done]
    exact congrArg some decided

theorem loops_between (parsed : Parsed env opts g) (suits : Suits env opts clock) (loops : Loops clock g counter s) :
    Between env opts clock counter s := by
  induction loops with
  | start => exact ⟨fun _ => rfl, fun never => absurd never (Nat.lt_irrefl 0)⟩
  | next _ returns ih =>
    obtain ⟨keeps, s', evaluates, _, next⟩ := evaluates_keeps parsed suits ih
    cases evaluates_unique returns evaluates
    exact next rfl

theorem loops_forever (parsed : Parsed env opts g) (suits : Suits env opts clock) (monotone : Monotone clock)
    (elapses : ∀ d, microseconds (duration env opts) = some d → ∃ i, clock 0 + d ≤ clock i)
    (loops : ∀ counter, ∃ s, Loops clock g counter s) : Forever env opts := by
  have reached : ∃ i, ∀ d, microseconds (duration env opts) = some d → clock 0 + d ≤ clock i := by
    cases fits : microseconds (duration env opts) with
    | none => exact ⟨0, fun d never => by cases never⟩
    | some d =>
      obtain ⟨i, past⟩ := elapses d fits
      exact ⟨i, fun d' same => Option.some.inj same ▸ past⟩
  obtain ⟨i, past⟩ := reached
  obtain ⟨last, at_last⟩ := loops (max i (count env opts).toNat + 1)
  cases at_last with
  | next before returns =>
    obtain ⟨keeps, s', evaluates, value, next⟩ := evaluates_keeps parsed suits (loops_between parsed suits before)
    cases evaluates_unique returns evaluates
    rcases value.mp rfl with forever | below | ⟨timed, d, fits, early⟩
    · exact forever
    · omega
    · obtain ⟨_, _, after, _⟩ := (next rfl).later (Nat.succ_pos _)
      obtain ⟨_, _, _, behind⟩ := after timed
      have late := monotone (show i ≤ last.readings - 1 by omega)
      have elapsed := past d fits
      omega

theorem looping_sound (parsed : Parsed env opts g) (suits : Suits env opts clock) (monotone : Monotone clock) :
    Sound env opts clock g := by
  refine ⟨fun counter s loops => ?_, fun elapses => ⟨loops_forever parsed suits monotone elapses, fun forever counter => ?_⟩⟩
  · obtain ⟨keeps, s', evaluates, value, _⟩ := evaluates_keeps parsed suits (loops_between parsed suits loops)
    exact ⟨⟨_, evaluates⟩, fun r returns => ⟨keeps, s', evaluates_unique returns evaluates, value⟩⟩
  · induction counter with
    | zero => exact ⟨statics, .start⟩
    | succ counter ih =>
      obtain ⟨s, loops⟩ := ih
      obtain ⟨keeps, s', evaluates, value, _⟩ := evaluates_keeps parsed suits (loops_between parsed suits loops)
      cases value.mpr (.inl forever)
      exact ⟨s', .next loops evaluates⟩

/-- The evaluations after an accepted command line, under a clock that does not go back. -/
theorem usc_test_looping_sound {malloc : Nat → Option Nat} {user_optarr : List UserOption} {args : List Str}
    (accepted : parse_opts env malloc user_optarr args = .ok g) (monotone : Monotone clock)
    (suits : Suits env (given_options env user_optarr args) clock) :
    Sound env (given_options env user_optarr args) clock g :=
  looping_sound (parse_opts_parsed accepted) suits monotone

end rounds

theorem usc_test_looping_sound_three :
    ∃ g, parse_opts (fun name => if name = "USC_ITERATIONS".toList then some "0".toList else none) some []
        ["-i".toList, "5".toList, "-I0.001".toList, "-i3".toList] = .ok g ∧
      Sound (fun name => if name = "USC_ITERATIONS".toList then some "0".toList else none)
        (given_options (fun name => if name = "USC_ITERATIONS".toList then some "0".toList else none) []
          ["-i".toList, "5".toList, "-I0.001".toList, "-i3".toList]) (fun i => 1000000 + 400 * i) g := by
  obtain ⟨g, accepted⟩ : ∃ g, parse_opts (fun name => if name = "USC_ITERATIONS".toList then some "0".toList else none)
      some [] ["-i".toList, "5".toList, "-I0.001".toList, "-i3".toList] = .ok g := ⟨_, rfl⟩
  refine ⟨g, accepted, usc_test_looping_sound accepted (fun i j before => ?_) ⟨fun zero => ?_, ?_, ?_, ?_, ?_⟩⟩
  · exact Nat.add_le_add_left (Nat.mul_le_mul_left 400 before) 1000000
  · exfalso
    rcases zero with zero | zero | zero | ⟨none_given, _⟩
    · exact absurd zero (by decide +kernel)
    · exact absurd zero (by decide +kernel)
    · exact absurd zero (by decide +kernel)
    · exact absurd none_given (by decide +kernel)
  · exact fun _ => ⟨1000, by decide +kernel, .inr (by decide)⟩
  · intro delays
    exact absurd delays (by decide +kernel)
  · exact fun _ => by decide +kernel
  · exact fun _ => .inl (by decide +kernel)

theorem bigstack_null :
    ∃ g, parse_opts (fun name => if name = "USC_LP_RECFUN".toList then some "1".toList else none) some [] [] = .ok g ∧
      ¬ Sound (fun name => if name = "USC_LP_RECFUN".toList then some "1".toList else none)
        (given_options (fun name => if name = "USC_LP_RECFUN".toList then some "1".toList else none) [] []) id g := by
  obtain ⟨g, accepted⟩ : ∃ g, parse_opts (fun name => if name = "USC_LP_RECFUN".toList then some "1".toList else none)
      some [] [] = .ok g := ⟨_, rfl⟩
  have null : (parse_opts (fun name => if name = "USC_LP_RECFUN".toList then some "1".toList else none) some [] []).toOption.bind
      (fun g => usc_test_looping id g 0 0 statics) = some (.error .null) := by decide +kernel
  rw [accepted] at null
  refine ⟨g, accepted, fun sound => ?_⟩
  obtain ⟨keeps, s', ok, _⟩ := (sound.each 0 statics .start).2 (.error .null) ⟨0, null⟩
  cases ok

end ParseOpts
