import Vte.Lib.ParseOpts

/-!
What `parse_opts` makes of the options and the environment, and how long `usc_test_looping` keeps a caller going.
-/
namespace ParseOpts
open Text CInt Digits Floats Function

section parsing
variable {env : Str → Option Str} {user_optarr : List UserOption} {opts : List Opt} {opt : Char} {optarg : Option Str}
  {p p' : Parse}

theorem arguments_found (c : Char) : arguments c (.found opt optarg :: opts) =
    if opt = c then optarg.getD [] :: arguments c opts else arguments c opts := by
  rw [arguments, List.filterMap_cons]
  by_cases same : opt = c
  · simp only [if_pos same]
    rfl
  · simp only [if_neg same]
    rfl

/-- What the options have set, by the arguments of `-i`, `-I` and `-P`. -/
structure After (opts : List Opt) (p p' : Parse) : Prop where
  iteration : p'.OPT_iteration = (p.OPT_iteration || !(arguments 'i' opts).isEmpty)
  duration_bit : p'.OPT_duration = (p.OPT_duration || !(arguments 'I' opts).isEmpty)
  delay_bit : p'.OPT_delay = (p.OPT_delay || !(arguments 'P' opts).isEmpty)
  count : p'.STD_LOOP_COUNT = ((arguments 'i' opts).getLast?.map atoi).getD p.STD_LOOP_COUNT
  duration : p'.STD_LOOP_DURATION =
    ((arguments 'I' opts).getLast?.map fun arg => float (atof arg)).getD p.STD_LOOP_DURATION
  delay : p'.STD_LOOP_DELAY = ((arguments 'P' opts).getLast?.map fun arg => float (atof arg)).getD p.STD_LOOP_DELAY
  infinite : p'.STD_INFINITE = true ↔ p.STD_INFINITE = true ∨ (∃ arg ∈ arguments 'i' opts, atoi arg = 0) ∨
    ∃ arg ∈ arguments 'I' opts, (float (atof arg)).isZero = true
  recfun : p'.STD_LP_recfun = p.STD_LP_recfun ∧ p'.STD_LD_recfun = p.STD_LD_recfun ∧ p'.STD_bigstack = p.STD_bigstack

theorem after_nil (p : Parse) : After [] p p := by
  constructor <;> simp [arguments]

theorem after_option (done : option_case user_optarr opt optarg p = .ok p') :
    After [.found opt optarg] p p' := by
  have alone (c : Char) : arguments c [.found opt optarg] = if opt = c then [optarg.getD []] else [] :=
    arguments_found c
  unfold option_case at done
  split at done
  · cases done
  · cases done
  case h_11 => cases done
  case h_12 not_i not_P not_I _ _ _ _ _ _ =>
    unfold user_option at done
    split at done
    · cases done
    · cases done
      have no_i : arguments 'i' [.found opt optarg] = [] := by rw [alone, if_neg not_i]
      have no_P : arguments 'P' [.found opt optarg] = [] := by rw [alone, if_neg not_P]
      have no_I : arguments 'I' [.found opt optarg] = [] := by rw [alone, if_neg not_I]
      constructor <;> simp [no_i, no_P, no_I]
  all_goals
    cases done
    constructor <;> simp [alone]

theorem After.cons {p'' : Parse} (first : After [.found opt optarg] p p') (rest : After opts p' p'') :
    After (.found opt optarg :: opts) p p'' := by
  have split (c : Char) : arguments c (.found opt optarg :: opts) =
      arguments c [.found opt optarg] ++ arguments c opts := by
    rw [arguments, arguments, arguments, ← List.filterMap_append]
    rfl
  have last (c : Char) {α : Type} (f : Str → α) (old : α) :
      ((arguments c (.found opt optarg :: opts)).getLast?.map f).getD old =
        ((arguments c opts).getLast?.map f).getD (((arguments c [.found opt optarg]).getLast?.map f).getD old) := by
    rw [split, List.getLast?_append]
    cases (arguments c opts).getLast? <;> rfl
  have some_argument (c : Char) : (!(arguments c (.found opt optarg :: opts)).isEmpty) =
      ((!(arguments c [.found opt optarg]).isEmpty) || !(arguments c opts).isEmpty) := by
    rw [split]
    cases arguments c [.found opt optarg] <;> rfl
  refine ⟨?_, ?_, ?_, ?_, ?_, ?_, ?_, ?_⟩
  · rw [rest.iteration, first.iteration, some_argument, Bool.or_assoc]
  · rw [rest.duration_bit, first.duration_bit, some_argument, Bool.or_assoc]
  · rw [rest.delay_bit, first.delay_bit, some_argument, Bool.or_assoc]
  · rw [last, rest.count, first.count]
  · rw [last, rest.duration, first.duration]
  · rw [last, rest.delay, first.delay]
  · rw [rest.infinite, first.infinite, split, split]
    simp only [List.mem_append, or_and_right, exists_or, or_assoc]
    exact or_congr_right (or_congr_right or_left_comm)
  · rw [rest.recfun.1, rest.recfun.2.1, rest.recfun.2.2]
    exact first.recfun

theorem options_after (done : options user_optarr opts p = .ok p') : After opts p p' := by
  induction opts generalizing p with
  | nil =>
    rw [options] at done
    cases done
    exact after_nil _
  | cons o opts ih =>
    cases o with
    | unknown => cases done
    | found opt optarg =>
      rw [options] at done
      cases one : option_case user_optarr opt optarg p with
      | error stop =>
        rw [one] at done
        cases done
      | ok p₁ =>
        rw [one] at done
        exact (after_option one).cons (ih done)

def iterations (env : Str → Option Str) : Option Int := (env "USC_ITERATIONS".toList).bind sscanf_i

theorem env_iteration_eq (env : Str → Option Str) (p : Parse) : env_iteration env p = { p with
      STD_INFINITE := p.STD_INFINITE || (!p.OPT_iteration && iterations env == some 0)
      STD_LOOP_COUNT := if p.OPT_iteration ∨ iterations env = some 0 then p.STD_LOOP_COUNT
        else (iterations env).getD p.STD_LOOP_COUNT } := by
  obtain ⟨g, bit, _, _, _⟩ := p
  rw [env_iteration, iterations]
  cases bit <;> cases (env "USC_ITERATIONS".toList).bind sscanf_i with
  | none => simp
  | some k => by_cases zero : k = 0 <;> simp [zero]

theorem env_no_func_check_eq (env : Str → Option Str) (p : Parse) : env_no_func_check env p =
    { p with STD_FUNCTIONAL_TEST := p.STD_FUNCTIONAL_TEST && (env "USC_NO_FUNC_CHECK".toList).isNone } := by
  rw [env_no_func_check]
  cases env "USC_NO_FUNC_CHECK".toList <;> simp

theorem env_duration_eq (env : Str → Option Str) (name : Str) (p : Parse) : env_duration env name p = { p with
      STD_INFINITE := p.STD_INFINITE || (!p.OPT_duration && (env_value env name).any Value.isZero)
      STD_LOOP_DURATION := if p.OPT_duration then p.STD_LOOP_DURATION
        else (env_value env name).getD p.STD_LOOP_DURATION } := by
  obtain ⟨g, _, bit, _, _⟩ := p
  rw [env_duration, env_value]
  cases bit <;> cases (env name).bind sscanf_f with
  | none => simp
  | some ftmp => by_cases nonneg : ftmp.nonneg <;> simp [nonneg, Option.filter]

theorem env_delay_eq (env : Str → Option Str) (p : Parse) : env_delay env p = { p with
      STD_LOOP_DELAY := if p.OPT_delay then p.STD_LOOP_DELAY
        else (env_value env "USC_LOOP_DELAY".toList).getD p.STD_LOOP_DELAY } := by
  obtain ⟨g, _, _, bit, _⟩ := p
  rw [env_delay, env_value]
  cases bit <;> cases (env "USC_LOOP_DELAY".toList).bind sscanf_f with
  | none => simp
  | some ftmp => by_cases nonneg : ftmp.nonneg <;> simp [nonneg, Option.filter]

theorem env_copies_eq (env : Str → Option Str) (p : Parse) : env_copies env p = { p with
      STD_COPIES := if p.OPT_copies then p.STD_COPIES
        else ((env "USC_COPIES".toList).bind sscanf_d).getD p.STD_COPIES } := by
  obtain ⟨g, _, _, _, bit⟩ := p
  rw [env_copies]
  cases bit <;> cases (env "USC_COPIES".toList).bind sscanf_d <;> simp

/-- The variables that `usc_test_looping` goes by. -/
structure Parsed (env : Str → Option Str) (opts : List Opt) (g : Globals) : Prop where
  count : given_count env opts ≠ some 0 → g.STD_LOOP_COUNT = count env opts
  infinite : g.STD_INFINITE = true ↔ SomeZero env opts
  duration : g.STD_LOOP_DURATION = duration env opts
  delay : g.STD_LOOP_DELAY = delay env opts
  looping : g.STD_LP_recfun = (hook env "USC_LP_RECFUN".toList).getD 0
  delaying : g.STD_LD_recfun = (hook env "USC_LD_RECFUN".toList).getD 0
  bigstack : g.STD_bigstack = none

theorem last_argument (c : Char) (opts : List Opt) :
    (arguments c opts = [] ∧ (arguments c opts).getLast? = none ∧ (!(arguments c opts).isEmpty) = false) ∨
      ∃ arg ∈ arguments c opts, (arguments c opts).getLast? = some arg ∧ (!(arguments c opts).isEmpty) = true := by
  generalize arguments c opts = args
  cases args with
  | nil => exact .inl ⟨rfl, rfl, rfl⟩
  | cons arg args => exact .inr ⟨_, List.getLast_mem (List.cons_ne_nil arg args), List.getLast?_eq_some_getLast _, rfl⟩

theorem given_count_zero : (∃ arg ∈ arguments 'i' opts, atoi arg = 0) ∨ given_count env opts = some 0 ↔
    (∃ arg ∈ arguments 'i' opts, atoi arg = 0) ∨ (!(arguments 'i' opts).isEmpty) = false ∧ iterations env = some 0 := by
  rw [given_count]
  rcases last_argument 'i' opts with ⟨_, last, bit⟩ | ⟨arg, member, last, bit⟩
  · rw [last, bit]
    exact or_congr_right ⟨fun zero => ⟨rfl, zero⟩, And.right⟩
  · rw [last, bit]
    simp only [Option.some.injEq, Bool.true_eq_false, false_and, or_false]
    exact or_iff_left_of_imp fun zero => ⟨arg, member, zero⟩

theorem env_value_zero (name : Str) : (env_value env name).any Value.isZero = true ↔ ZeroValue env name := by
  rw [ZeroValue]
  cases env_value env name <;> simp

section environment
variable (malloc : Nat → Option Nat) (after : After opts ⟨globals, false, false, false, false⟩ p)
include after

theorem environment_count (other : given_count env opts ≠ some 0) :
    (environment env malloc p).STD_LOOP_COUNT = count env opts := by
  unfold environment
  simp only [env_iteration_eq, env_no_func_check_eq, env_duration_eq, env_delay_eq, env_copies_eq, special]
  rw [after.iteration, after.count]
  rw [count]
  rw [given_count] at other ⊢
  rcases last_argument 'i' opts with ⟨_, last, bit⟩ | ⟨arg, _, last, bit⟩
  · rw [last] at other
    have not_zero : iterations env ≠ some 0 := other
    rw [last, bit, if_neg (by simpa using not_zero)]
    rfl
  · rw [last, bit, if_pos (.inl rfl)]
    rfl

theorem environment_duration : (environment env malloc p).STD_LOOP_DURATION = duration env opts := by
  unfold environment
  simp only [env_iteration_eq, env_no_func_check_eq, env_duration_eq, env_delay_eq, env_copies_eq, special]
  rw [after.duration_bit, after.duration, duration, given_duration]
  rcases last_argument 'I' opts with ⟨_, last, bit⟩ | ⟨arg, _, last, bit⟩
  · rw [last, bit]
    cases env_value env "USC_DURATION".toList <;> rfl
  · rw [last, bit]
    rfl

theorem environment_delay : (environment env malloc p).STD_LOOP_DELAY = delay env opts := by
  unfold environment
  simp only [env_iteration_eq, env_no_func_check_eq, env_duration_eq, env_delay_eq, env_copies_eq, special]
  rw [after.delay_bit, after.delay, delay, given_delay]
  rcases last_argument 'P' opts with ⟨_, last, bit⟩ | ⟨arg, _, last, bit⟩
  · rw [last, bit]
    rfl
  · rw [last, bit]
    rfl

theorem environment_infinite : (environment env malloc p).STD_INFINITE = true ↔ SomeZero env opts := by
  unfold environment
  simp only [env_iteration_eq, env_no_func_check_eq, env_duration_eq, env_delay_eq, env_copies_eq, special]
  have no_zero : globals.STD_INFINITE = false := rfl
  have bit : (!(arguments 'I' opts).isEmpty) = false ↔ arguments 'I' opts = [] := by simp
  simp only [Bool.or_eq_true, Bool.and_eq_true, after.infinite, after.iteration, after.duration_bit, no_zero,
    env_value_zero, Bool.false_or, Bool.not_eq_true', beq_iff_eq, bit, Bool.false_eq_true, false_or]
  have joined {i I given unset no_I walltime duration : Prop} (counts : i ∨ given ↔ i ∨ unset) :
      (((i ∨ I) ∨ unset) ∨ no_I ∧ walltime) ∨ no_I ∧ duration ↔ i ∨ I ∨ given ∨ no_I ∧ (walltime ∨ duration) := by
    tauto
  exact joined given_count_zero

end environment

theorem environment_parsed (malloc : Nat → Option Nat)
    (after : After opts ⟨globals, false, false, false, false⟩ p) :
    Parsed env opts (environment env malloc p).toGlobals := by
  refine ⟨environment_count malloc after, environment_infinite malloc after, environment_duration malloc after,
    environment_delay malloc after, ?_, ?_, ?_⟩
  all_goals
    unfold environment
    simp only [env_iteration_eq, env_no_func_check_eq, env_duration_eq, env_delay_eq, env_copies_eq, special]
  · rw [after.recfun.1]
    rfl
  · rw [after.recfun.2.1]
    rfl
  · rw [after.recfun.2.2]
    simp [bigstack, globals]

theorem parse_opts_parsed {malloc : Nat → Option Nat} {args : List Str} {g : Globals}
    (accepted : parse_opts env malloc user_optarr args = .ok g) :
    Parsed env (given_options env user_optarr args) g := by
  unfold parse_opts at accepted
  split at accepted
  · cases accepted
  · dsimp only at accepted
    split at accepted
    · cases accepted
    · split at accepted
      · cases accepted
      · rename_i p parsed
        cases accepted
        exact environment_parsed malloc (options_after parsed)

end parsing
end ParseOpts
