import Mathlib.Logic.Function.Basic
import Vte.Base.Floats
import Vte.Lib.ParseRanges

/-!
lib/parse_opts.c: `parse_opts`, which takes the standard options from the arguments and the environment, and
`usc_test_looping`, which the tests ask before each round.
-/
namespace ParseOpts
open Text CInt Digits Floats Function

/-- `atoi`: the number as a `long`, cut to an `int`. -/
def atoi (s : Str) : Int :=
  let (negative, s) := signOf (s.dropWhile isSpace)
  int32 (nearest64 negative (number 10 s))

def sscanf_i (s : Str) : Option Int := (VteParseRanges.scanInt s).map Prod.fst

def sscanf_d (s : Str) : Option Int :=
  let (negative, s) := signOf (s.dropWhile isSpace)
  if s.takeWhile Char.isDigit = [] then none else some (int32 (nearest64 negative (number 10 s)))

section getopt

/-- What `getopt` returns, with `optarg`. -/
inductive Opt where
  | found (c : Char) (optarg : Option Str)
  | unknown
deriving DecidableEq

def takes (optionstr : Str) (c : Char) : Option Bool :=
  if c = ':' ∨ c = ';' then none
  else
    match optionstr.dropWhile (· != c) with
    | [] => none
    | _ :: ':' :: _ => some true
    | _ => some false

def cluster (optionstr : Str) : Str → List Opt × Option Char
  | [] => ([], none)
  | c :: cs =>
    match takes optionstr c with
    | none => (.unknown :: (cluster optionstr cs).1, (cluster optionstr cs).2)
    | some false => (.found c none :: (cluster optionstr cs).1, (cluster optionstr cs).2)
    | some true => if cs = [] then ([], some c) else ([.found c (some cs)], none)

/-- Arguments that are no options are passed over, or end them when `POSIXLY_CORRECT` is set. -/
def getopt (optionstr : Str) (posixly_correct : Bool) : Option Char → List Str → List Opt
  | none, [] => []
  | some _, [] => [.unknown]
  | some c, arg :: args => .found c (some arg) :: getopt optionstr posixly_correct none args
  | none, arg :: args =>
    if arg = "--".toList then []
    else
      match arg with
      | '-' :: c :: cs =>
        (cluster optionstr (c :: cs)).1 ++ getopt optionstr posixly_correct (cluster optionstr (c :: cs)).2 args
      | _ => if posixly_correct then [] else getopt optionstr posixly_correct none args

example : getopt "c:efi:".toList false none ["-fi5".toList, "x".toList, "-i".toList, "0".toList, "--".toList] =
    [.found 'f' none, .found 'i' (some "5".toList), .found 'i' (some "0".toList)] := by decide

end getopt

/-- A user's option, and whether it has a `flag`. -/
structure UserOption where
  option : Str
  flag : Bool

structure Globals where
  STD_FUNCTIONAL_TEST : Bool
  STD_TIMING_ON : Bool
  STD_PAUSE : Bool
  STD_INFINITE : Bool
  STD_LOOP_COUNT : Int
  STD_COPIES : Int
  STD_ERRNO_LOG : Bool
  STD_LOOP_DURATION : Value
  STD_LOOP_DELAY : Value
  STD_TP_barrier : Int
  STD_LP_barrier : Int
  STD_TP_shmem_sz : Int
  STD_LD_shmem : Int
  STD_LP_shmem : Int
  STD_LD_recfun : Int
  STD_LP_recfun : Int
  STD_TP_sbrk : Int
  STD_LP_sbrk : Int
  /-- its address -/
  STD_bigstack : Option Nat
  /-- the user's flags and arguments -/
  flag : Nat → Bool
  arg : Nat → Option Str

def globals : Globals where
  STD_FUNCTIONAL_TEST := true
  STD_TIMING_ON := false
  STD_PAUSE := false
  STD_INFINITE := false
  STD_LOOP_COUNT := 1
  STD_COPIES := 1
  STD_ERRNO_LOG := false
  STD_LOOP_DURATION := .finite 0
  STD_LOOP_DELAY := .finite 0
  STD_TP_barrier := 0
  STD_LP_barrier := 0
  STD_TP_shmem_sz := 0
  STD_LD_shmem := 0
  STD_LP_shmem := 0
  STD_LD_recfun := 0
  STD_LP_recfun := 0
  STD_TP_sbrk := 0
  STD_LP_sbrk := 0
  STD_bigstack := none
  flag _ := false
  arg _ := none

structure Parse extends Globals where
  OPT_iteration : Bool
  OPT_duration : Bool
  OPT_delay : Bool
  OPT_copies : Bool

/-- Why `parse_opts` does not return `NULL`. -/
inductive Stop where
  | message (text : Str)
  /-- shows the help and exits -/
  | help
deriving DecidableEq

section options
variable (user_optarr : List UserOption)

def std_options : Str := "c:efhi:I:pP:t".toList

def optionstr : Str :=
  user_optarr.foldl (fun s o =>
    match o.option with
    | [] => s
    | c :: _ => if c ∈ s then s else s ++ o.option) std_options

def user_option (opt : Char) (optarg : Option Str) (p : Parse) : Except Stop Parse :=
  match user_optarr.findIdx? fun o => o.option.head? == some opt with
  | none => .error (.message ("parse_opts: ERROR - option:\"".toList ++ opt :: "\" NOT FOUND... INTERNAL ERROR".toList))
  | some i =>
    let has_flag := (user_optarr[i]?.map UserOption.flag).getD false
    let has_arg := (user_optarr[i]?.map fun o => o.option.getLast? == some ':').getD false
    .ok { p with
      flag := if has_flag then update p.flag i true else p.flag
      arg := if has_arg then update p.arg i optarg else p.arg }

def option_case (opt : Char) (optarg : Option Str) (p : Parse) : Except Stop Parse :=
  match opt with
  | '?' => .error (.message "Unknown option".toList)
  | ':' => .error (.message "Missing argument".toList)
  | 'i' =>
    let count := atoi (optarg.getD [])
    .ok { p with OPT_iteration := true, STD_LOOP_COUNT := count, STD_INFINITE := p.STD_INFINITE || count == 0 }
  | 'P' => .ok { p with OPT_delay := true, STD_LOOP_DELAY := float (atof (optarg.getD [])) }
  | 'I' =>
    let duration := float (atof (optarg.getD []))
    .ok { p with
      OPT_duration := true, STD_LOOP_DURATION := duration, STD_INFINITE := p.STD_INFINITE || duration.isZero }
  | 'c' => .ok { p with OPT_copies := true, STD_COPIES := atoi (optarg.getD []) }
  | 'f' => .ok { p with STD_FUNCTIONAL_TEST := false }
  | 'p' => .ok { p with STD_PAUSE := true }
  | 't' => .ok { p with STD_TIMING_ON := true }
  | 'e' => .ok { p with STD_ERRNO_LOG := true }
  | 'h' => .error .help
  | opt => user_option user_optarr opt optarg p

def options : List Opt → Parse → Except Stop Parse
  | [], p => .ok p
  | .unknown :: _, _ => .error (.message "Unknown option".toList)
  | .found opt optarg :: opts, p =>
    match option_case user_optarr opt optarg p with
    | .error stop => .error stop
    | .ok p => options opts p

end options

section environment
variable (env : Str → Option Str)

def env_iteration (p : Parse) : Parse :=
  if p.OPT_iteration then p
  else
    match (env "USC_ITERATIONS".toList).bind sscanf_i with
    | none => p
    | some k => if k = 0 then { p with STD_INFINITE := true } else { p with STD_LOOP_COUNT := k }

def env_no_func_check (p : Parse) : Parse :=
  if (env "USC_NO_FUNC_CHECK".toList).isSome then { p with STD_FUNCTIONAL_TEST := false } else p

/-- For `USC_LOOP_WALLTIME`, and then for `USC_DURATION`. -/
def env_duration (name : Str) (p : Parse) : Parse :=
  if p.OPT_duration then p
  else
    match (env name).bind sscanf_f with
    | none => p
    | some ftmp =>
      if ftmp.nonneg then { p with STD_LOOP_DURATION := ftmp, STD_INFINITE := p.STD_INFINITE || ftmp.isZero } else p

def env_delay (p : Parse) : Parse :=
  if p.OPT_delay then p
  else
    match (env "USC_LOOP_DELAY".toList).bind sscanf_f with
    | none => p
    | some ftmp => if ftmp.nonneg then { p with STD_LOOP_DELAY := ftmp } else p

def env_copies (p : Parse) : Parse :=
  if p.OPT_copies then p
  else
    match (env "USC_COPIES".toList).bind sscanf_d with
    | none => p
    | some k => { p with STD_COPIES := k }

def hook (name : Str) : Option Int := ((env name).bind sscanf_i).filter fun k => decide (0 ≤ k)

def barrier (name : Str) (old : Int) : Int :=
  match env name with
  | none => old
  | some _ => (hook env name).getD 1

def bigstack (malloc : Nat → Option Nat) (name : Str) (old : Option Nat) : Option Nat :=
  if (hook env name).isSome ∧ old ≠ none then malloc 4096 else old

def special (malloc : Nat → Option Nat) (p : Parse) : Parse :=
  { p with
    STD_TP_barrier := barrier env "USC_TP_BARRIER".toList p.STD_TP_barrier
    STD_LP_barrier := barrier env "USC_LP_BARRIER".toList p.STD_LP_barrier
    STD_TP_shmem_sz := (hook env "USC_TP_SHMEM".toList).getD p.STD_TP_shmem_sz
    STD_LP_shmem := (hook env "USC_LP_SHMEM".toList).getD p.STD_LP_shmem
    STD_LD_shmem := (hook env "USC_LD_SHMEM".toList).getD p.STD_LD_shmem
    STD_TP_sbrk := (hook env "USC_TP_SBRK".toList).getD p.STD_TP_sbrk
    STD_LP_sbrk := (hook env "USC_LP_SBRK".toList).getD p.STD_LP_sbrk
    STD_LP_recfun := (hook env "USC_LP_RECFUN".toList).getD p.STD_LP_recfun
    STD_LD_recfun := (hook env "USC_LD_RECFUN".toList).getD p.STD_LD_recfun
    STD_bigstack := bigstack env malloc "USC_LD_RECFUN".toList
      (bigstack env malloc "USC_LP_RECFUN".toList p.STD_bigstack) }

def environment (malloc : Nat → Option Nat) (p : Parse) : Parse :=
  special env malloc (env_copies env (env_delay env (env_duration env "USC_DURATION".toList
    (env_duration env "USC_LOOP_WALLTIME".toList (env_no_func_check env (env_iteration env p))))))

def given_options (user_optarr : List UserOption) (args : List Str) : List Opt :=
  getopt (optionstr user_optarr) (env "POSIXLY_CORRECT".toList).isSome none args

def parse_opts (malloc : Nat → Option Nat) (user_optarr : List UserOption) (args : List Str) : Except Stop Globals :=
  if user_optarr.any fun o => 2 < o.option.length then
    .error (.message "parse_opts: ERROR - Only short options are allowed".toList)
  else
    let optstrlen := std_options.length + (user_optarr.map fun o => o.option.length).sum + 1
    match malloc optstrlen with
    | none => .error (.message "parse_opts: ERROR - Could not allocate memory for optionstr".toList)
    | some _ =>
      match options user_optarr (given_options env user_optarr args) ⟨globals, false, false, false, false⟩ with
      | .error stop => .error stop
      | .ok p => .ok (environment env malloc p).toGlobals

end environment

structure Statics where
  first_time : Bool
  stop_time : Nat
  delay : Nat
  readings : Nat
deriving DecidableEq

def statics : Statics := ⟨true, 0, 0, 0⟩

/-- What an evaluation runs into: a use of a null pointer, or a conversion that is not defined. -/
inductive Fault where
  | null
  | undefined
deriving DecidableEq

def microseconds (duration : Value) : Option Nat := (float (duration.times 1000000)).toU64

section looping
/- The clock at each of its readings, in microseconds. -/
variable (clock : Nat → Nat) (g : Globals)

/-- Passes `*STD_bigstack` by value, whatever the depth is. -/
def usc_recressive_func : Except Fault Unit :=
  match g.STD_bigstack with
  | none => .error .null
  | some _ => .ok ()

/-- `if (first_time)`, with the next reading. -/
def first (s : Statics) : Except Fault Statics := do
  let s := { s with first_time := false }
  let s ←
    if g.STD_LOOP_DURATION.isZero then .ok s
    else
      match microseconds g.STD_LOOP_DURATION with
      | none => .error .undefined
      | some duration =>
        .ok { s with stop_time := u64 (duration + clock s.readings : Nat), readings := s.readings + 1 }
  if g.STD_LOOP_DELAY.isZero then .ok s
  else
    match microseconds g.STD_LOOP_DELAY with
    | none => .error .undefined
    | some delay => .ok { s with delay := delay }

/-- The loop until `finish`, with `ct` the last reading; the number of readings. -/
def wait (finish : Nat) : Nat → Nat → Nat → Option (Except Fault Nat)
  | 0, _, _ => none
  | fuel + 1, ct, readings =>
    if ct < finish then
      match if g.STD_LD_recfun = 0 then .ok () else usc_recressive_func g with
      | .error fault => some (.error fault)
      | .ok _ => wait finish fuel (clock readings) (readings + 1)
    else some (.ok readings)

def again (fuel : Nat) (s : Statics) : Option (Except Fault Statics) :=
  if g.STD_LOOP_DELAY.isZero then some (.ok s)
  else
    let ct := clock s.readings
    let finish := u64 (ct + s.delay : Nat)
    (wait clock g finish fuel ct (s.readings + 1)).map fun waited =>
      waited.map fun readings => { s with readings := readings }

def decision (counter : Int) (s : Statics) : Except Fault (Bool × Statics) :=
  let within := !g.STD_LOOP_DURATION.isZero && decide (clock s.readings < s.stop_time)
  let s := if g.STD_LOOP_DURATION.isZero then s else { s with readings := s.readings + 1 }
  if g.STD_INFINITE || (decide (g.STD_LOOP_COUNT ≠ 0) && decide (counter < g.STD_LOOP_COUNT)) || within then
    if g.STD_LP_recfun = 0 then .ok (true, s)
    else (usc_recressive_func g).map fun _ => (true, s)
  else .ok (false, s)

def usc_test_looping (fuel : Nat) (counter : Int) (s : Statics) : Option (Except Fault (Bool × Statics)) :=
  match if s.first_time then some (first clock g s) else again clock g fuel s with
  | none => none
  | some (.error fault) => some (.error fault)
  | some (.ok s) => some (decision clock g counter s)

def Evaluates (counter : Nat) (s : Statics) (r : Except Fault (Bool × Statics)) : Prop :=
  ∃ fuel, usc_test_looping clock g fuel counter s = some r

/-- A caller is about to make the evaluation for `counter`: all before it have returned 1. -/
inductive Loops : Nat → Statics → Prop where
  | start : Loops 0 statics
  | next {counter s s'} (before : Loops counter s) (returns : Evaluates clock g counter s (.ok (true, s'))) :
    Loops (counter + 1) s'

end looping

def arguments (c : Char) (opts : List Opt) : List Str :=
  opts.filterMap fun
    | .found opt optarg => if opt = c then some (optarg.getD []) else none
    | .unknown => none

section effective
variable (env : Str → Option Str) (opts : List Opt) (clock : Nat → Nat)

def given_count : Option Int :=
  match (arguments 'i' opts).getLast? with
  | some arg => some (atoi arg)
  | none => (env "USC_ITERATIONS".toList).bind sscanf_i

def env_value (name : Str) : Option Value := ((env name).bind sscanf_f).filter Value.nonneg

def given_duration : Option Value :=
  match (arguments 'I' opts).getLast? with
  | some arg => some (float (atof arg))
  | none => (env_value env "USC_DURATION".toList).or (env_value env "USC_LOOP_WALLTIME".toList)

def given_delay : Option Value :=
  match (arguments 'P' opts).getLast? with
  | some arg => some (float (atof arg))
  | none => env_value env "USC_LOOP_DELAY".toList

def count : Int := (given_count env opts).getD 1
def duration : Value := (given_duration env opts).getD (.finite 0)
def delay : Value := (given_delay env opts).getD (.finite 0)

def Forever : Prop := given_count env opts = some 0 ∨ ∃ d, given_duration env opts = some d ∧ d.isZero

def ZeroValue (name : Str) : Prop := ∃ d, env_value env name = some d ∧ d.isZero

def SomeZero : Prop :=
  (∃ arg ∈ arguments 'i' opts, atoi arg = 0) ∨ (∃ arg ∈ arguments 'I' opts, (float (atof arg)).isZero) ∨
    given_count env opts = some 0 ∨
    arguments 'I' opts = [] ∧ (ZeroValue env "USC_LOOP_WALLTIME".toList ∨ ZeroValue env "USC_DURATION".toList)

def Keep (counter : Nat) (now : Nat) : Prop :=
  Forever env opts ∨ (counter : Int) < count env opts ∨
    (duration env opts).isZero = false ∧ ∃ d, microseconds (duration env opts) = some d ∧ now < clock 0 + d

structure Sound (g : Globals) : Prop where
  each : ∀ counter s, Loops clock g counter s → (∃ r, Evaluates clock g counter s r) ∧
    ∀ r, Evaluates clock g counter s r → ∃ keeps s', r = .ok (keeps, s') ∧
      (keeps = true ↔ Keep env opts clock counter (clock (s'.readings - 1)))
  forever : (∀ d, microseconds (duration env opts) = some d → ∃ i, clock 0 + d ≤ clock i) →
    ((∀ counter, ∃ s, Loops clock g counter s) ↔ Forever env opts)

/-- A given 0 is in effect, durations and delays are numbers of microseconds, and the hooks that use the buffer are
off where they would be reached. -/
structure Suits : Prop where
  settled : SomeZero env opts → Forever env opts
  duration_fits : (duration env opts).isZero = false → ∃ d, microseconds (duration env opts) = some d ∧
    (Forever env opts ∨ clock 0 + d < 18446744073709551616)
  delay_fits : (delay env opts).isZero = false → ∃ d, microseconds (delay env opts) = some d ∧
    (Keep env opts clock 0 (clock 1) → ∀ i, ∃ j, i ≤ j ∧ u64 (clock i + d : Nat) ≤ clock j)
  looping : Keep env opts clock 0 (clock 1) → (hook env "USC_LP_RECFUN".toList).getD 0 = 0
  delaying : Keep env opts clock 0 (clock 1) → (hook env "USC_LD_RECFUN".toList).getD 0 = 0 ∨ (delay env opts).isZero ∨
    ∃ d, microseconds (delay env opts) = some d ∧ ∀ i, u64 (clock i + d : Nat) ≤ clock i

end effective
end ParseOpts
