import Vte.Base.CString

/-!
lib/search_path.c: the search for a command along PATH. Every copy into an array of `PATH_MAX` bytes
is checked, and every path given to `access` is recorded.
-/
namespace SearchPath
open Text CString

def PATH_MAX : Nat := 4096

/-- The system around the call. What `getcwd` leaves in its buffer when it fails is a string too. -/
structure Env where
  path : Option CStr
  access : Str → Int → Bool
  cwd : Except Str Str
  fits : ∀ s, cwd = .ok s ∨ cwd = .error s → s.length < PATH_MAX

/-- How a call ends: with a value and the contents of `res_path`, or by writing past an array. -/
inductive Outcome
  | returned (value : Int) (res_path : Str)
  | overflow
deriving DecidableEq

structure Result where
  outcome : Outcome
  checked : List Str
deriving DecidableEq

/-- A string copied into an array of `PATH_MAX` bytes and returned from there. -/
def returnIn (value : Int) (res_path : Str) : Outcome :=
  if res_path.length < PATH_MAX then .returned value res_path else .overflow

def notFoundText (cmd : Str) : Str := "file ".toList ++ (cmd ++ " not found".toList)

def relativeTooLong : Str :=
  "cmd (as relative path) and cwd is longer than ".toList ++ decimal PATH_MAX

def unableText (toolong : BitVec 32) : Str :=
  if toolong = 0 then "Unable to find file".toList
  else "Unable to find file, ".toList ++ (decimal toolong.toInt ++ " path/file strings were too long".toList)

def join (dir cmd : Str) : Str := dir ++ '/' :: cmd

section search
variable (env : Env) (cmd : Str) (access_mode : Int) (fullpath : Bool)

def givenPath : Result :=
  if env.access cmd access_mode then
    if cmd.head? ≠ some '/' then
      match env.cwd with
      | .error left => ⟨returnIn (-1) left, [cmd]⟩
      | .ok curpath =>
        if curpath.length + cmd.length + 1 > PATH_MAX then ⟨returnIn (-1) relativeTooLong, [cmd]⟩
        else ⟨returnIn 0 (join curpath cmd), [cmd]⟩
    else ⟨returnIn 0 cmd, [cmd]⟩
  else ⟨returnIn (-1) (notFoundText cmd), [cmd]⟩

structure State where
  cp : Nat
  path : Nat
  lastpath : Bool
  toolong : BitVec 32
  curpath : Str
  checked : List Str

/-- Where the next pass begins: `cp` is taken to be past the first pass once it has moved. -/
def State.start (s : State) : Nat := if s.cp ≠ 0 then s.cp + 1 else s.cp

/-- The first byte from `cp` on that ends a component. -/
def componentEnd (mem : Str) (cp : Nat) : Nat :=
  cp + ((mem.drop cp).takeWhile fun c => c != ':' && c != nul).length

/-- `curpath`, with the working directory put into it unless it is there. -/
def currentPath (curpath : Str) : Except Str Str :=
  if curpath = [] then env.cwd else .ok curpath

/-- The path for a component whose joined path fits: the text that `access` gets, none when the full
    path is too long; with `curpath`. -/
def resPath (curpath tmppath : Str) : Except Str (Option Str × Str) :=
  let res_path := join tmppath cmd
  if fullpath ∧ res_path.head? ≠ some '/' then do
    let curpath ← currentPath env curpath
    if curpath.length + res_path.length + 2 > PATH_MAX then .ok (none, curpath)
    else .ok (some (join curpath res_path), curpath)
  else .ok (some res_path, curpath)

/-- The component in `tmppath` is checked: its length, then its path. -/
def checkComponent (tmppath : Str) (s : State) : State ⊕ Result :=
  if tmppath.length + cmd.length + 2 > PATH_MAX then .inl { s with toolong := s.toolong + 1 }
  else
    match resPath env cmd fullpath s.curpath tmppath with
    | .error left => .inr ⟨returnIn (-1) left, s.checked⟩
    | .ok (none, curpath) => .inl { s with curpath, toolong := s.toolong + 1 }
    | .ok (some res_path, curpath) =>
      let checked := s.checked ++ [res_path]
      if env.access res_path access_mode then .inr ⟨returnIn 0 res_path, checked⟩
      else .inl { s with curpath, checked }

/-- One pass of the loop over `mem`, the text of PATH with its NUL; `path` is set already before the
    first. -/
def round (mem : Str) (s : State) : State ⊕ Result :=
  let path := if s.cp ≠ 0 then s.start else s.path
  let cp := componentEnd mem s.start
  if cp - path ≥ PATH_MAX then .inr ⟨.overflow, s.checked⟩
  else
    let lastpath := s.lastpath || mem[cp]? == some nul
    checkComponent env cmd access_mode fullpath ((mem.drop path).take (cp - path))
      { s with cp, path, lastpath }

def scan (mem : Str) : Nat → State → Option Result
  | 0, _ => none
  | fuel + 1, s =>
    if s.lastpath then some ⟨returnIn 1 (unableText s.toolong), s.checked⟩
    else
      match round env cmd access_mode fullpath mem s with
      | .inl s => scan mem fuel s
      | .inr result => some result

def searchPath (fuel : Nat) : Option Result :=
  if '/' ∈ cmd then some (givenPath env cmd access_mode)
  else
    match env.path with
    | none => some ⟨returnIn (-1) "Unable to get PATH env. variable".toList, []⟩
    | some pathenv => scan env cmd access_mode fullpath pathenv.block fuel ⟨0, 0, false, 0, [], []⟩

end search

/-- A path to check, and the path to return when it is accessible: none when the arrays do not hold
    that, or when there is no working directory. -/
structure Probe where
  path : Str
  answer : Option Str

def fit (path : Str) : Option Str := if path.length < PATH_MAX then some path else none

section purpose
variable (env : Env) (cmd : Str) (access_mode : Int) (fullpath : Bool)

def dirName (component : Str) : Str := if component = [] then ['.'] else component

/-- The path that a component stands for. An error when the full path is asked for and there is none;
    nothing when it is too long. -/
def candidate (component : Str) : Except Str (Option Str) :=
  let joined := join (dirName component) cmd
  if fullpath ∧ joined.length < PATH_MAX ∧ joined.head? ≠ some '/' then do
    let cwd ← env.cwd
    .ok (fit (join cwd joined))
  else .ok (fit joined)

def componentProbes : List Str → List Probe
  | [] => []
  | component :: rest =>
    match candidate env cmd fullpath component with
    | .error _ => []
    | .ok none => componentProbes rest
    | .ok (some path) => ⟨path, some path⟩ :: componentProbes rest

def givenProbe : Probe where
  path := cmd
  answer :=
    if cmd.head? = some '/' then fit cmd
    else
      match env.cwd with
      | .error _ => none
      | .ok cwd => fit (join cwd cmd)

def components : List Str :=
  match env.path with
  | none => []
  | some pathenv => pathenv.chars.splitOn ':'

def probes : List Probe :=
  if '/' ∈ cmd then [givenProbe env cmd]
  else componentProbes env cmd fullpath (components env)

def firstHit (list : List Probe) : Option Probe := list.find? fun p => env.access p.path access_mode

/-- The search visits the paths in order up to the first accessible one and returns that; without one
    it fails. -/
structure Meets (list : List Probe) (result : Result) : Prop where
  visited : result.checked = (list.takeWhile fun p => !env.access p.path access_mode).map Probe.path ++
    (firstHit env access_mode list).toList.map Probe.path
  found : ∀ p path, firstHit env access_mode list = some p → p.answer = some path → result.outcome = .returned 0 path
  failed : (∀ p path, firstHit env access_mode list = some p → p.answer ≠ some path) →
    ∃ value text, value ≠ 0 ∧ result.outcome = .returned value text

def Passed (component : Str) : Prop :=
  ∃ path?, candidate env cmd fullpath component = .ok path? ∧
    ∀ path, path? = some path → env.access path access_mode = false

def GivenFits : Prop :=
  if env.access cmd access_mode then
    if cmd.head? = some '/' then cmd.length < PATH_MAX
    else ∀ cwd, env.cwd = .ok cwd → cwd.length + cmd.length + 1 ≠ PATH_MAX
  else cmd.length + 15 < PATH_MAX

/-- Every component that the search comes to fits `tmppath`, and none is empty unless the command is
    too long for any component. -/
def ComponentsFit (list : List Str) : Prop :=
  ∀ before component after, list = before ++ component :: after →
    (∀ b ∈ before, Passed env cmd access_mode fullpath b) →
    component.length < PATH_MAX ∧ (component = [] → PATH_MAX < cmd.length + 2)

def Sane : Prop :=
  if '/' ∈ cmd then GivenFits env cmd access_mode
  else (∀ pathenv, env.path = some pathenv → pathenv.chars.head? ≠ some ':') ∧
    ComponentsFit env cmd access_mode fullpath (components env)

end purpose

section meeting
variable {env : Env} {cmd : Str} {access_mode : Int} {fullpath : Bool}

theorem meets_returned {list : List Probe} {result : Result}
    (meets : Meets env access_mode list result) :
    ∃ value text, result.outcome = .returned value text := by
  by_cases hit : ∃ p path, firstHit env access_mode list = some p ∧ p.answer = some path
  · obtain ⟨p, path, first, answer⟩ := hit
    exact ⟨0, path, meets.found p path first answer⟩
  · obtain ⟨value, text, _, outcome⟩ := meets.failed fun p path first answer =>
      hit ⟨p, path, first, answer⟩
    exact ⟨value, text, outcome⟩

theorem visited_probe {list : List Probe} {result : Result} {path : Str}
    (meets : Meets env access_mode list result) (checked : path ∈ result.checked) :
    ∃ p ∈ list, p.path = path := by
  rw [meets.visited, List.mem_append, List.mem_map, List.mem_map] at checked
  rcases checked with ⟨p, passed, same⟩ | ⟨p, hit, same⟩
  · exact ⟨p, (List.takeWhile_sublist _).subset passed, same⟩
  · exact ⟨p, List.mem_of_find?_eq_some (Option.mem_toList.mp hit), same⟩

theorem meets_nil {value : Int} {text : Str} (fails : value ≠ 0) :
    Meets env access_mode [] ⟨.returned value text, []⟩ :=
  ⟨rfl, fun _ _ first => absurd first (by simp [firstHit]), fun _ => ⟨value, text, fails, rfl⟩⟩

theorem meets_hit {p : Probe} {rest : List Probe} {outcome : Outcome}
    (hit : env.access p.path access_mode = true)
    (found : ∀ path, p.answer = some path → outcome = .returned 0 path)
    (failed : p.answer = none → ∃ value text, value ≠ 0 ∧ outcome = .returned value text) :
    Meets env access_mode (p :: rest) ⟨outcome, [p.path]⟩ := by
  have first : firstHit env access_mode (p :: rest) = some p := by
    simp [firstHit, hit]
  refine ⟨?_, ?_, ?_⟩
  · simp [first, hit]
  · intro q path other answer
    rw [first] at other
    obtain rfl := Option.some.inj other
    exact found path answer
  · intro nothing
    apply failed
    cases answer : p.answer with
    | none => rfl
    | some path => exact absurd answer (nothing p path first)

theorem meets_miss {p : Probe} {rest : List Probe} {outcome : Outcome} {checked : List Str}
    (miss : env.access p.path access_mode = false)
    (meets : Meets env access_mode rest ⟨outcome, checked⟩) :
    Meets env access_mode (p :: rest) ⟨outcome, p.path :: checked⟩ := by
  have first : firstHit env access_mode (p :: rest) = firstHit env access_mode rest := by
    simp [firstHit, miss]
  refine ⟨?_, ?_, ?_⟩
  · have visited := meets.visited
    simp only at visited
    simp [first, miss, visited]
  · rw [first]
    exact meets.found
  · rw [first]
    exact meets.failed

end meeting

section given
variable {env : Env} {cmd : Str} {access_mode : Int}

theorem return_in_room {value : Int} {text : Str} (room : text.length < PATH_MAX) :
    returnIn value text = .returned value text := if_pos room

theorem return_in_full {value : Int} {text : Str} (full : ¬ text.length < PATH_MAX) :
    returnIn value text = .overflow := if_neg full

theorem cwd_failure_fits {left : Str} (failed : env.cwd = .error left) : left.length < PATH_MAX :=
  env.fits left (.inr failed)

theorem meets_room {list : List Probe} {value : Int} {text : Str} {checked : List Str}
    (meets : Meets env access_mode list ⟨returnIn value text, checked⟩) :
    text.length < PATH_MAX := by
  by_contra full
  obtain ⟨value', text', outcome⟩ := meets_returned meets
  simp only [return_in_full full] at outcome
  cases outcome

theorem join_length (dir cmd : Str) : (join dir cmd).length = dir.length + cmd.length + 1 := by
  simp [join]
  omega

theorem not_found_text_length (cmd : Str) : (notFoundText cmd).length = cmd.length + 15 := by
  have before : "file ".toList.length = 5 := by decide
  have after : " not found".toList.length = 10 := by decide
  change ("file ".toList ++ (cmd ++ " not found".toList)).length = _
  simp only [List.length_append, before, after]
  omega

theorem fit_some {path text : Str} (room : path.length < PATH_MAX) :
    fit path = some text ↔ path = text := by
  rw [fit, if_pos room, Option.some.injEq]

theorem given_answers {path : Str} (hit : env.access cmd access_mode = true)
    (answer : (givenProbe env cmd).answer = fit path) (room : path.length < PATH_MAX) :
    Meets env access_mode [givenProbe env cmd] ⟨returnIn 0 path, [cmd]⟩ := by
  refine meets_hit (p := givenProbe env cmd) hit ?_ ?_
  · intro text same
    rw [answer, fit_some room] at same
    rw [return_in_room room, same]
  · intro nothing
    rw [answer, fit, if_pos room] at nothing
    cases nothing

theorem given_fails {left : Str} (hit : env.access cmd access_mode = true)
    (answer : (givenProbe env cmd).answer = none) (room : left.length < PATH_MAX) :
    Meets env access_mode [givenProbe env cmd] ⟨returnIn (-1) left, [cmd]⟩ := by
  refine meets_hit (p := givenProbe env cmd) hit ?_ ?_
  · intro path same
    rw [answer] at same
    cases same
  · intro _
    exact ⟨-1, left, by decide, return_in_room room⟩

theorem given_hit_iff (hit : env.access cmd access_mode = true) :
    Meets env access_mode [givenProbe env cmd] (givenPath env cmd access_mode) ↔
      if cmd.head? = some '/' then cmd.length < PATH_MAX
      else ∀ cwd, env.cwd = .ok cwd → cwd.length + cmd.length + 1 ≠ PATH_MAX := by
  by_cases absolute : cmd.head? = some '/'
  · have result : givenPath env cmd access_mode = ⟨returnIn 0 cmd, [cmd]⟩ := by
      simp [givenPath, hit, absolute]
    have answer : (givenProbe env cmd).answer = fit cmd := if_pos absolute
    rw [result, if_pos absolute]
    exact ⟨meets_room, given_answers hit answer⟩
  · rw [if_neg absolute]
    cases got : env.cwd with
    | error left =>
      have result : givenPath env cmd access_mode = ⟨returnIn (-1) left, [cmd]⟩ := by
        simp [givenPath, hit, absolute, got]
      have answer : (givenProbe env cmd).answer = none := by
        simp [givenProbe, absolute, got]
      rw [result]
      exact ⟨fun _ cwd other => (nomatch other), fun _ => given_fails hit answer (cwd_failure_fits got)⟩
    | ok cwd =>
      have answer : (givenProbe env cmd).answer = fit (join cwd cmd) := by
        simp [givenProbe, absolute, got]
      have size := join_length cwd cmd
      by_cases long : cwd.length + cmd.length + 1 > PATH_MAX
      · have result : givenPath env cmd access_mode = ⟨returnIn (-1) relativeTooLong, [cmd]⟩ := by
          simp [givenPath, hit, absolute, got, long]
        have nothing : (givenProbe env cmd).answer = none := by
          rw [answer, fit, if_neg (by omega)]
        rw [result]
        refine ⟨fun _ cwd' same => ?_, fun _ => given_fails hit nothing (by decide)⟩
        cases same
        omega
      · have result : givenPath env cmd access_mode = ⟨returnIn 0 (join cwd cmd), [cmd]⟩ := by
          simp [givenPath, hit, absolute, got, long]
        rw [result]
        constructor
        · intro meets cwd' same
          cases same
          have room := meets_room meets
          omega
        · intro other
          have exact_fit := other cwd rfl
          exact given_answers hit answer (by omega)

theorem given_iff : Meets env access_mode [givenProbe env cmd] (givenPath env cmd access_mode) ↔
    GivenFits env cmd access_mode := by
  unfold GivenFits
  cases hit : env.access cmd access_mode with
  | true => exact given_hit_iff hit
  | false =>
    have result : givenPath env cmd access_mode = ⟨returnIn (-1) (notFoundText cmd), [cmd]⟩ := by
      simp [givenPath, hit]
    have size := not_found_text_length cmd
    rw [result]
    constructor
    · intro meets
      have room := meets_room meets
      show cmd.length + 15 < PATH_MAX
      omega
    · intro short
      have room : (notFoundText cmd).length < PATH_MAX := by
        have : cmd.length + 15 < PATH_MAX := short
        omega
      rw [return_in_room room]
      exact meets_miss (p := givenProbe env cmd) hit (meets_nil (by decide))

end given

section checking
variable {env : Env} {cmd : Str} {access_mode : Int} {fullpath : Bool}

/-- `curpath` is empty or has the working directory. -/
def Knows (env : Env) (curpath : Str) : Prop := curpath = [] ∨ env.cwd = .ok curpath

/-- A check that lets the search go on leaves the pointers alone and has looked at `new`. -/
structure Next (env : Env) (s later : State) (new : List Str) : Prop where
  cp : later.cp = s.cp
  path : later.path = s.path
  lastpath : later.lastpath = s.lastpath
  checked : later.checked = s.checked ++ new
  knows : Knows env later.curpath

theorem current_path {curpath : Str} (knows : Knows env curpath) :
    currentPath env curpath = env.cwd := by
  unfold currentPath
  split
  · rfl
  · rename_i filled
    exact (knows.resolve_left filled).symm

inductive Checked (env : Env) (cmd : Str) (access_mode : Int) (fullpath : Bool) (c : Str)
    (s : State) : State ⊕ Result → Prop
  | failed {left : Str} (none_there : candidate env cmd fullpath c = .error left) :
      Checked env cmd access_mode fullpath c s (.inr ⟨.returned (-1) left, s.checked⟩)
  | skipped {later : State} (long : candidate env cmd fullpath c = .ok none)
      (next : Next env s later []) : Checked env cmd access_mode fullpath c s (.inl later)
  | hit {path : Str} (here : candidate env cmd fullpath c = .ok (some path))
      (accessible : env.access path access_mode = true) :
      Checked env cmd access_mode fullpath c s (.inr ⟨.returned 0 path, s.checked ++ [path]⟩)
  | missed {path : Str} {later : State} (here : candidate env cmd fullpath c = .ok (some path))
      (inaccessible : env.access path access_mode = false) (next : Next env s later [path]) :
      Checked env cmd access_mode fullpath c s (.inl later)

theorem check_path {c path curpath : Str} {s : State} (room : c.length + cmd.length + 2 ≤ PATH_MAX)
    (text : resPath env cmd fullpath s.curpath c = .ok (some path, curpath))
    (here : candidate env cmd fullpath c = .ok (some path)) (fits : path.length < PATH_MAX)
    (knows : Knows env curpath) :
    Checked env cmd access_mode fullpath c s (checkComponent env cmd access_mode fullpath c s) := by
  unfold checkComponent
  rw [if_neg (by omega), text]
  dsimp only
  rw [return_in_room fits]
  cases accessible : env.access path access_mode with
  | true => exact .hit here accessible
  | false => exact .missed here accessible ⟨rfl, rfl, rfl, rfl, knows⟩

theorem check_component (access_mode : Int) (fullpath : Bool) {c : Str} {s : State}
    (named : c = [] → PATH_MAX < cmd.length + 2)
    (knows : Knows env s.curpath) :
    Checked env cmd access_mode fullpath c s (checkComponent env cmd access_mode fullpath c s) := by
  by_cases long : c.length + cmd.length + 2 > PATH_MAX
  · have skip : candidate env cmd fullpath c = .ok none := by
      have size : ¬ (join (dirName c) cmd).length < PATH_MAX := by
        rw [join_length, dirName]
        split
        · rename_i empty
          have := named empty
          simp only [List.length_singleton]
          omega
        · omega
      simp [candidate, size, fit]
    rw [checkComponent, if_pos long]
    exact .skipped skip ⟨rfl, rfl, rfl, (List.append_nil _).symm, knows⟩
  · have some_name : c ≠ [] := by
      intro empty
      have := named empty
      rw [empty, List.length_nil] at long
      omega
    have size : (join c cmd).length < PATH_MAX := by
      rw [join_length]
      omega
    by_cases relative : fullpath = true ∧ (join c cmd).head? ≠ some '/'
    · have spelled : candidate env cmd fullpath c = (do let cwd ← env.cwd; .ok (fit (join cwd (join c cmd)))) := by
        rw [candidate, dirName, if_neg some_name]
        simp only [relative.1, size, relative.2, ne_eq, not_false_eq_true, and_self, if_true]
      have text : resPath env cmd fullpath s.curpath c = (do
          let cwd ← env.cwd
          if cwd.length + (join c cmd).length + 2 > PATH_MAX then .ok (none, cwd)
          else .ok (some (join cwd (join c cmd)), cwd)) := by
        simp only [resPath, if_pos relative, current_path knows]
      cases got : env.cwd with
      | error left =>
        rw [got] at spelled text
        have failure : checkComponent env cmd access_mode fullpath c s = .inr ⟨returnIn (-1) left, s.checked⟩ := by
          rw [checkComponent, if_neg long, text]
          rfl
        rw [failure, return_in_room (cwd_failure_fits got)]
        exact .failed spelled
      | ok cwd =>
        rw [got] at spelled text
        change _ = Except.ok (fit (join cwd (join c cmd))) at spelled
        change _ = (if cwd.length + (join c cmd).length + 2 > PATH_MAX then _ else _) at text
        have full_size := join_length cwd (join c cmd)
        by_cases full : cwd.length + (join c cmd).length + 2 > PATH_MAX
        · have skip : candidate env cmd fullpath c = .ok none := by
            rw [spelled, fit, if_neg (by omega)]
          have going : checkComponent env cmd access_mode fullpath c s =
              .inl { s with curpath := cwd, toolong := s.toolong + 1 } := by
            rw [checkComponent, if_neg long, text, if_pos full]
          rw [going]
          exact .skipped skip ⟨rfl, rfl, rfl, (List.append_nil _).symm, .inr got⟩
        · have fits : (join cwd (join c cmd)).length < PATH_MAX := by omega
          refine check_path (by omega) ?_ ?_ fits (.inr got)
          · rw [text, if_neg full]
          · rw [spelled, fit, if_pos fits]
    · have text : resPath env cmd fullpath s.curpath c = .ok (some (join c cmd), s.curpath) :=
        if_neg relative
      refine check_path (by omega) text ?_ size knows
      rw [candidate, dirName, if_neg some_name]
      have plain : ¬ (fullpath = true ∧ (join c cmd).length < PATH_MAX ∧
          (join c cmd).head? ≠ some '/') := fun all => relative ⟨all.1, all.2.2⟩
      simp only [if_neg plain, fit, if_pos size]

theorem check_empty {s : State} (room : cmd.length + 2 ≤ PATH_MAX) :
    (∃ later, checkComponent env cmd access_mode fullpath [] s = .inl later ∧ '/' :: cmd ∈ later.checked) ∨
      ∃ result, checkComponent env cmd access_mode fullpath [] s = .inr result ∧ '/' :: cmd ∈ result.checked := by
  have text : resPath env cmd fullpath s.curpath [] = .ok (some ('/' :: cmd), s.curpath) := by
    simp [resPath, join]
  unfold checkComponent
  rw [if_neg (by simp only [List.length_nil]; omega), text]
  dsimp only
  cases env.access ('/' :: cmd) access_mode with
  | true => exact .inr ⟨_, rfl, by simp⟩
  | false => exact .inl ⟨_, rfl, by simp⟩

theorem check_keeps (env : Env) (cmd : Str) (access_mode : Int) (fullpath : Bool) (c : Str)
    (s : State) :
    (∀ later, checkComponent env cmd access_mode fullpath c s = .inl later → s.checked ⊆ later.checked) ∧
      ∀ result, checkComponent env cmd access_mode fullpath c s = .inr result → s.checked ⊆ result.checked := by
  unfold checkComponent
  split
  · exact ⟨by rintro later ⟨⟩; exact List.Subset.refl _, by rintro result ⟨⟩⟩
  · split
    · exact ⟨by rintro later ⟨⟩, by rintro result ⟨⟩; exact List.Subset.refl _⟩
    · exact ⟨by rintro later ⟨⟩; exact List.Subset.refl _, by rintro result ⟨⟩⟩
    · dsimp only
      split
      · exact ⟨by rintro later ⟨⟩, by rintro result ⟨⟩; exact List.subset_append_left _ _⟩
      · exact ⟨by rintro later ⟨⟩; exact List.subset_append_left _ _, by rintro result ⟨⟩⟩

end checking

section scanning
variable {env : Env} {cmd : Str} {access_mode : Int} {fullpath : Bool} {mem text : Str} {s : State}

theorem unable_text_length (toolong : BitVec 32) : (unableText toolong).length < PATH_MAX := by
  unfold unableText
  split
  · decide
  · have before : "Unable to find file, ".toList.length = 21 := by decide
    have after : " path/file strings were too long".toList.length = 32 := by decide
    have digits : (Nat.toDigits 10 toolong.toInt.natAbs).length ≤ 10 :=
      to_digits_length (by decide) (by have := toolong.toInt_lt; have := toolong.le_toInt; omega)
    have size : (decimal toolong.toInt).length ≤ 11 := by
      unfold decimal
      split
      · exact Nat.succ_le_succ digits
      · omega
    rw [List.length_append, List.length_append, before, after]
    unfold PATH_MAX
    omega

/-- A pass begins at `text`, the rest of PATH. -/
structure Ready (mem : Str) (s : State) (text : Str) : Prop where
  going : s.lastpath = false
  here : At mem s.start text
  first : s.cp = 0 → s.path = 0

theorem component_end {c tail : Str} {pos : Nat} (here : At mem pos (c ++ tail)) (plain : ':' ∉ c)
    (ends : ∀ d ∈ tail.head?, d = ':') :
    componentEnd mem pos = pos + c.length ∧ (mem.drop pos).take c.length = c ∧
      (mem[pos + c.length]? = some nul ↔ tail = []) := by
  obtain ⟨no_nul, rest, rest_eq⟩ := here
  have word : ∀ d ∈ c, (d != ':' && d != nul) = true := by
    intro d found
    have not_colon : d ≠ ':' := by
      rintro rfl
      exact plain found
    have not_nul : d ≠ nul := by
      rintro rfl
      exact no_nul (List.mem_append_left _ found)
    simp [not_colon, not_nul]
  have stop : (tail ++ nul :: rest).takeWhile (fun d => d != ':' && d != nul) = [] := by
    cases tail with
    | nil => simp
    | cons d ds => simp [ends d rfl]
  have after : mem[pos + c.length]? = (tail ++ nul :: rest)[0]? := by
    rw [← List.getElem?_drop, rest_eq, List.append_assoc, List.getElem?_append_right (Nat.le_refl _), Nat.sub_self]
  rw [List.append_assoc] at rest_eq
  refine ⟨?_, ?_, ?_⟩
  · rw [componentEnd, rest_eq, List.takeWhile_append_of_pos word, stop, List.append_nil]
  · rw [rest_eq, List.take_left]
  · rw [after]
    cases tail with
    | nil => simp
    | cons d ds =>
      obtain rfl := ends d rfl
      have other : ':' ≠ nul := by decide
      simp [other]

theorem round_component (env : Env) (cmd : Str) (access_mode : Int) (fullpath : Bool)
    {c tail : Str} (ready : Ready mem s (c ++ tail)) (plain : ':' ∉ c)
    (ends : ∀ d ∈ tail.head?, d = ':') :
    round env cmd access_mode fullpath mem s =
      if c.length ≥ PATH_MAX then .inr ⟨.overflow, s.checked⟩
      else checkComponent env cmd access_mode fullpath c
        { s with cp := s.start + c.length, path := s.start, lastpath := decide (tail = []) } := by
  obtain ⟨stop, inner, last⟩ := component_end ready.here plain ends
  have path : (if s.cp ≠ 0 then s.start else s.path) = s.start := by
    split
    · rfl
    · rename_i zero
      rw [State.start, if_neg zero, ready.first (by omega)]
      omega
  have at_end : (mem[s.start + c.length]? == some nul) = decide (tail = []) := by
    rw [Bool.eq_iff_iff, beq_iff_eq, decide_eq_true_iff]
    exact last
  unfold round
  simp only [path, stop, Nat.add_sub_cancel_left, inner, at_end, ready.going, Bool.false_or]

theorem ready_next {c rest : Str} {later : State} {new : List Str}
    (ready : Ready mem s (c ++ ':' :: rest)) (moved : s.start + c.length ≠ 0)
    (next : Next env { s with cp := s.start + c.length, path := s.start, lastpath := false } later new) :
    Ready mem later rest := by
  have cp := next.cp
  simp only at cp
  refine ⟨next.lastpath, ?_, fun zero => absurd (cp.symm.trans zero) moved⟩
  have start : later.start = s.start + (c ++ [':']).length := by
    rw [State.start, cp, if_pos moved, List.length_append, List.length_singleton]
    omega
  rw [start]
  apply at_suffix
  rw [List.append_assoc]
  exact ready.here

theorem scan_step {fuel : Nat} {later : State} (going : s.lastpath = false)
    (step : round env cmd access_mode fullpath mem s = .inl later) :
    scan env cmd access_mode fullpath mem (fuel + 1) s = scan env cmd access_mode fullpath mem fuel later := by
  rw [scan, going, step]
  rfl

theorem scan_stop {fuel : Nat} {result : Result} (going : s.lastpath = false)
    (step : round env cmd access_mode fullpath mem s = .inr result) :
    scan env cmd access_mode fullpath mem (fuel + 1) s = some result := by
  rw [scan, going, step]
  rfl

theorem scan_last {fuel : Nat} (last : s.lastpath = true) :
    scan env cmd access_mode fullpath mem (fuel + 1) s = some ⟨.returned 1 (unableText s.toolong), s.checked⟩ := by
  rw [scan, if_pos last, return_in_room (unable_text_length _)]

theorem round_cases (env : Env) (cmd : Str) (access_mode : Int) (fullpath : Bool) (mem : Str)
    (s : State) :
    round env cmd access_mode fullpath mem s = .inr ⟨.overflow, s.checked⟩ ∨
      ∃ c s', s'.checked = s.checked ∧ round env cmd access_mode fullpath mem s =
        checkComponent env cmd access_mode fullpath c s' := by
  by_cases full : (componentEnd mem s.start - if s.cp ≠ 0 then s.start else s.path) ≥ PATH_MAX
  · exact .inl (if_pos full)
  · refine .inr ⟨_, { s with cp := _, path := _, lastpath := _ }, ?_, if_neg full⟩
    rfl

theorem scan_keeps {fuel : Nat} {result : Result}
    (run : scan env cmd access_mode fullpath mem fuel s = some result) :
    s.checked ⊆ result.checked := by
  induction fuel generalizing s with
  | zero => cases run
  | succ fuel ih =>
    rw [scan] at run
    split at run
    · cases run
      exact List.Subset.refl _
    · rcases round_cases env cmd access_mode fullpath mem s with full | ⟨c, s', same, check⟩
      · rw [full] at run
        cases run
        exact List.Subset.refl _
      · have kept := check_keeps env cmd access_mode fullpath c s'
        rw [check] at run
        rw [← same]
        split at run
        · rename_i later step
          exact List.Subset.trans (kept.1 later step) (ih run)
        · rename_i other step
          cases run
          exact kept.2 result step

end scanning

section runs
variable {env : Env} {cmd : Str} {access_mode : Int} {fullpath : Bool} {mem text c : Str}
  {s later : State} {list cs new : List Str}

theorem components_fit_cons : ComponentsFit env cmd access_mode fullpath (c :: cs) ↔
    (c.length < PATH_MAX ∧ (c = [] → PATH_MAX < cmd.length + 2)) ∧
      (Passed env cmd access_mode fullpath c → ComponentsFit env cmd access_mode fullpath cs) := by
  constructor
  · intro fits
    refine ⟨fits [] c cs rfl fun b found => (nomatch found), ?_⟩
    intro passed before d after parts skipped
    apply fits (c :: before) d after (by rw [parts, List.cons_append])
    exact List.forall_mem_cons.mpr ⟨passed, skipped⟩
  · rintro ⟨head, tail⟩ before d after parts skipped
    cases before with
    | nil =>
      cases parts
      exact head
    | cons b before =>
      cases parts
      obtain ⟨passed, rest⟩ := List.forall_mem_cons.mp skipped
      exact tail passed before d after rfl rest

theorem candidate_length {path : Str} (here : candidate env cmd fullpath c = .ok (some path)) :
    cmd.length + 2 ≤ path.length := by
  have named : 0 < (dirName c).length := by
    unfold dirName
    split
    · decide
    · rename_i some_name
      exact List.length_pos_iff.mpr some_name
  have joined := join_length (dirName c) cmd
  have fitted : ∀ whole, cmd.length + 2 ≤ whole.length → fit whole = some path → cmd.length + 2 ≤ path.length := by
    intro whole long same
    unfold fit at same
    split at same
    · cases same
      exact long
    · cases same
  unfold candidate at here
  dsimp only at here
  split at here
  · cases got : env.cwd with
    | error left =>
      rw [got] at here
      cases here
    | ok cwd =>
      rw [got] at here
      exact fitted _ (by rw [join_length]; omega) (Except.ok.inj here)
  · exact fitted _ (by omega) (Except.ok.inj here)

theorem probe_length {p : Probe} (found : p ∈ componentProbes env cmd fullpath list) :
    cmd.length + 2 ≤ p.path.length := by
  induction list with
  | nil => cases found
  | cons c cs ih =>
    rw [componentProbes] at found
    split at found
    · cases found
    · exact ih found
    · rename_i path here
      rcases List.mem_cons.mp found with rfl | rest
      · exact candidate_length here
      · exact ih rest

theorem cut_component (cut : text.splitOn ':' = c :: cs) :
    ∃ tail, text = c ++ tail ∧ ':' ∉ c ∧ (∀ d ∈ tail.head?, d = ':') ∧
      ((tail = [] ∧ cs = []) ∨ ∃ rest, tail = ':' :: rest ∧ rest.splitOn ':' = cs) := by
  rcases pieces_cut ':' text with ⟨plain, single⟩ | ⟨first, rest, parts, plain, pieces⟩
  · rw [single] at cut
    obtain ⟨rfl, rfl⟩ := List.cons.inj cut
    exact ⟨[], (List.append_nil _).symm, plain, fun d found => (nomatch found), .inl ⟨rfl, rfl⟩⟩
  · rw [pieces] at cut
    obtain ⟨rfl, rfl⟩ := List.cons.inj cut
    exact ⟨_, parts, plain, fun d found => (Option.some.inj found).symm, .inr ⟨rest, rfl, rfl⟩⟩

theorem start_advances (filled : s.cp = 0 → c ≠ []) : s.start + c.length ≠ 0 := by
  unfold State.start
  split
  · omega
  · rename_i at_zero
    have some_name := List.length_pos_iff.mpr (filled (by omega))
    omega

def Remaining (env : Env) (cmd : Str) (access_mode : Int) (fullpath : Bool) (mem : Str)
    (cs : List Str) (s : State) : Prop :=
  ∃ fuel outcome rest, scan env cmd access_mode fullpath mem fuel s = some ⟨outcome, s.checked ++ rest⟩ ∧
    Meets env access_mode (componentProbes env cmd fullpath cs) ⟨outcome, rest⟩

theorem remaining_last (last : s.lastpath = true) :
    Remaining env cmd access_mode fullpath mem [] s :=
  ⟨1, _, [], by rw [scan_last last, List.append_nil], meets_nil (by decide)⟩

theorem remaining_step {s' : State} (going : s.lastpath = false) (same : s'.checked = s.checked)
    (check : round env cmd access_mode fullpath mem s = checkComponent env cmd access_mode fullpath c s')
    (named : c = [] → PATH_MAX < cmd.length + 2) (knows : Knows env s'.curpath)
    (after : ∀ later new, Next env s' later new → Passed env cmd access_mode fullpath c →
      Remaining env cmd access_mode fullpath mem cs later) :
    Remaining env cmd access_mode fullpath mem (c :: cs) s := by
  have ends := check_component access_mode fullpath named knows
  rw [← check] at ends
  generalize outcome : round env cmd access_mode fullpath mem s = found at ends
  cases ends with
  | failed none_there =>
    refine ⟨1, _, [], by rw [scan_stop going outcome, same, List.append_nil], ?_⟩
    rw [componentProbes, none_there]
    exact meets_nil (by decide)
  | hit here accessible =>
    refine ⟨1, _, [_], by rw [scan_stop going outcome, same], ?_⟩
    rw [componentProbes, here]
    apply meets_hit accessible
    · intro path answer
      rw [Option.some.inj answer]
    · intro nothing
      cases nothing
  | skipped long next =>
    obtain ⟨fuel, outcome', rest, run, meets⟩ := after _ _ next ⟨none, long, fun _ none_path =>
      (nomatch none_path)⟩
    refine ⟨fuel + 1, outcome', rest, ?_, ?_⟩
    · rw [scan_step going outcome, run, next.checked, List.append_nil, same]
    · rw [componentProbes, long]
      exact meets
  | missed here inaccessible next =>
    rename_i path _
    obtain ⟨fuel, outcome', rest, run, meets⟩ := after _ _ next ⟨some path, here, by
      intro other same_path
      rwa [← Option.some.inj same_path]⟩
    refine ⟨fuel + 1, outcome', path :: rest, ?_, ?_⟩
    · rw [scan_step going outcome, run, next.checked, same, List.append_assoc]
      rfl
    · rw [componentProbes, here]
      exact meets_miss inaccessible meets

theorem scan_remaining (cut : text.splitOn ':' = list) (ready : Ready mem s text)
    (knows : Knows env s.curpath) (moved : s.cp = 0 → text.head? ≠ some ':')
    (fits : ComponentsFit env cmd access_mode fullpath list) :
    Remaining env cmd access_mode fullpath mem list s := by
  induction list generalizing text s with
  | nil => exact absurd cut (List.splitOn_ne_nil _ _)
  | cons c cs ih =>
    obtain ⟨⟨short, named⟩, tail_fits⟩ := components_fit_cons.mp fits
    obtain ⟨tail, parts, plain, ends, others⟩ := cut_component cut
    rw [parts] at ready
    have check := round_component env cmd access_mode fullpath ready plain ends
    rw [if_neg (by omega)] at check
    refine remaining_step ready.going ?_ check named ?_ ?_
    · rfl
    · exact knows
    · intro later new next passed
      rcases others with ⟨rfl, rfl⟩ | ⟨rest, rfl, pieces⟩
      · exact remaining_last (next.lastpath.trans (by simp))
      · have advanced : s.start + c.length ≠ 0 := by
          apply start_advances
          rintro at_zero rfl
          exact moved at_zero (by rw [parts]; rfl)
        have still : later.cp ≠ 0 := by
          rw [next.cp]
          exact advanced
        have unended : Next env
            { s with cp := s.start + c.length, path := s.start, lastpath := false } later new := by
          simpa using next
        exact ih pieces (ready_next ready advanced unended) next.knows
          (fun zero => absurd zero still) (tail_fits passed)

def Astray (cmd : Str) (result : Result) : Prop :=
  result.outcome = .overflow ∨ '/' :: cmd ∈ result.checked

theorem astray_not_meets {result : Result} (astray : Astray cmd result) :
    ¬ Meets env access_mode (componentProbes env cmd fullpath list) result := by
  intro meets
  rcases astray with full | root
  · obtain ⟨value, text, outcome⟩ := meets_returned meets
    rw [full] at outcome
    cases outcome
  · obtain ⟨p, found, same⟩ := visited_probe meets root
    have long := probe_length found
    rw [same, List.length_cons] at long
    omega

theorem passed_of_next {s' : State} (named : c = [] → PATH_MAX < cmd.length + 2)
    (check : checkComponent env cmd access_mode fullpath c s' = .inl later)
    (knows : Knows env s'.curpath) :
    Passed env cmd access_mode fullpath c ∧ ∃ new, Next env s' later new := by
  have ends := check_component access_mode fullpath named knows
  rw [check] at ends
  cases ends with
  | skipped long next => exact ⟨⟨none, long, fun _ none_path => (nomatch none_path)⟩, _, next⟩
  | missed here inaccessible next =>
    refine ⟨⟨_, here, ?_⟩, _, next⟩
    intro other same_path
    rwa [← Option.some.inj same_path]

theorem stopped_of_result {s' : State} {result : Result}
    (named : c = [] → PATH_MAX < cmd.length + 2)
    (check : checkComponent env cmd access_mode fullpath c s' = .inr result)
    (knows : Knows env s'.curpath) :
    ¬ Passed env cmd access_mode fullpath c := by
  have ends := check_component access_mode fullpath named knows
  rw [check] at ends
  rintro ⟨path?, here, passed⟩
  cases ends with
  | failed none_there =>
    rw [here] at none_there
    cases none_there
  | hit spelled accessible =>
    rw [here] at spelled
    cases spelled
    rw [passed _ rfl] at accessible
    cases accessible

theorem scan_astray {fuel : Nat} {result : Result} (cut : text.splitOn ':' = list)
    (ready : Ready mem s text) (knows : Knows env s.curpath)
    (moved : s.cp = 0 → text.head? = some ':' → cmd.length + 2 ≤ PATH_MAX)
    (unfit : ¬ ComponentsFit env cmd access_mode fullpath list)
    (run : scan env cmd access_mode fullpath mem fuel s = some result) : Astray cmd result := by
  induction list generalizing text s fuel with
  | nil => exact absurd cut (List.splitOn_ne_nil _ _)
  | cons c cs ih =>
    cases fuel with
    | zero => cases run
    | succ fuel =>
      obtain ⟨tail, parts, plain, ends, others⟩ := cut_component cut
      rw [parts] at ready
      have check := round_component env cmd access_mode fullpath ready plain ends
      by_cases short : c.length < PATH_MAX
      · rw [if_neg (by omega)] at check
        by_cases named : c = [] → PATH_MAX < cmd.length + 2
        · generalize outcome : round env cmd access_mode fullpath mem s = found at check
          cases found with
          | inr other =>
            exfalso
            have stopped := stopped_of_result named check.symm knows
            exact unfit (components_fit_cons.mpr ⟨⟨short, named⟩, fun passed =>
              absurd passed stopped⟩)
          | inl later =>
            obtain ⟨passed, new, next⟩ := passed_of_next named check.symm knows
            have left : ¬ ComponentsFit env cmd access_mode fullpath cs := fun fits =>
              unfit (components_fit_cons.mpr ⟨⟨short, named⟩, fun _ => fits⟩)
            rw [scan_step ready.going outcome] at run
            rcases others with ⟨rfl, rfl⟩ | ⟨rest, rfl, pieces⟩
            · exact absurd (fun before d after none_left => absurd none_left (by simp)) left
            · have advanced : s.start + c.length ≠ 0 := by
                apply start_advances
                intro at_zero empty
                have room := moved at_zero (by rw [parts, empty]; rfl)
                have long := named empty
                omega
              have still : later.cp ≠ 0 := by
                rw [next.cp]
                exact advanced
              have unended : Next env { s with
                  cp := s.start + c.length, path := s.start, lastpath := false } later new := by
                simpa using next
              exact ih pieces (ready_next ready advanced unended) next.knows
                (fun zero => absurd zero still) left run
        · have empty : c = [] ∧ cmd.length + 2 ≤ PATH_MAX := by
            by_contra other
            apply named
            intro empty
            by_contra room
            exact other ⟨empty, by omega⟩
          rw [empty.1] at check
          rcases check_empty empty.2 with ⟨later, going, root⟩ | ⟨other, stop, root⟩
          · rw [going] at check
            rw [scan_step ready.going check] at run
            exact .inr (scan_keeps run root)
          · rw [stop] at check
            rw [scan_stop ready.going check] at run
            cases run
            exact .inr root
      · rw [if_pos (by omega)] at check
        rw [scan_stop ready.going check] at run
        cases run
        exact .inl rfl

theorem scan_stuck {rest : Str} (here : At mem 0 (':' :: rest))
    (stuck : PATH_MAX < cmd.length + 2 ∨ env.access ('/' :: cmd) access_mode = false)
    (going : s.lastpath = false) (cp : s.cp = 0) (path : s.path = 0) (fuel : Nat) :
    scan env cmd access_mode fullpath mem fuel s = none := by
  induction fuel generalizing s with
  | zero => rfl
  | succ fuel ih =>
    have start : s.start = 0 := by
      rw [State.start, if_neg (by omega), cp]
    have ready : Ready mem s ([] ++ ':' :: rest) :=
      ⟨going, by rw [start]; exact here, fun _ => path⟩
    have check := round_component env cmd access_mode fullpath ready (by simp)
      (fun d found => (Option.some.inj found).symm)
    rw [if_neg (by decide), checkComponent] at check
    split at check
    · rw [scan_step going check]
      exact ih (by simp) (by simp [start]) start
    · rename_i room
      have missing : env.access ('/' :: cmd) access_mode = false := stuck.resolve_left fun long =>
        room (by simp only [List.length_nil]; omega)
      have text : ∀ curpath, resPath env cmd fullpath curpath [] = .ok (some ('/' :: cmd), curpath) := by
        intro curpath
        simp [resPath, join]
      rw [text] at check
      simp only [missing, Bool.false_eq_true, if_false] at check
      rw [scan_step going check]
      exact ih (by simp) (by simp [start]) start

theorem returned_room {pathenv : CStr} {fuel : Nat} {result : Result}
    (run : scan env cmd access_mode fullpath pathenv.block fuel ⟨0, 0, false, 0, [], []⟩ = some result)
    (colon : pathenv.chars.head? = some ':') : cmd.length + 2 ≤ PATH_MAX := by
  by_contra long
  obtain ⟨rest, parts⟩ := List.head?_eq_some_iff.mp colon
  have here := block_at pathenv
  rw [parts] at here
  rw [scan_stuck here (.inl (by omega)) rfl rfl rfl] at run
  cases run

theorem split_colon (colon : text.head? = some ':') : ∃ cs, text.splitOn ':' = [] :: cs := by
  rcases pieces_cut ':' text with ⟨plain, _⟩ | ⟨first, rest, parts, plain, pieces⟩
  · exact absurd (List.mem_of_mem_head? colon) plain
  · cases first with
    | nil => exact ⟨_, pieces⟩
    | cons c first =>
      rw [parts] at colon
      exact absurd (by simp [Option.some.inj colon]) plain

end runs

/-- The search is a first match along PATH and keeps within its arrays just when no component that
    it comes to is empty or too long. -/
theorem search_path_iff (env : Env) (cmd : Str) (access_mode : Int) (fullpath : Bool) :
    (∃ fuel result, searchPath env cmd access_mode fullpath fuel = some result ∧
      Meets env access_mode (probes env cmd fullpath) result) ↔ Sane env cmd access_mode fullpath := by
  unfold searchPath probes Sane
  by_cases given : '/' ∈ cmd
  · simp only [if_pos given]
    rw [← given_iff]
    exact ⟨fun ⟨_, result, same, meets⟩ => Option.some.inj same ▸ meets,
      fun meets => ⟨0, _, rfl, meets⟩⟩
  · simp only [if_neg given]
    cases set : env.path with
    | none =>
      have empty : components env = [] := by rw [components, set]
      rw [empty, return_in_room (by decide)]
      refine ⟨fun _ => ⟨fun _ other => (nomatch other), ?_⟩, fun _ => ⟨0, _, rfl, meets_nil (by decide)⟩⟩
      intro before d after none_left
      exact absurd none_left (by simp)
    | some pathenv =>
      have list : components env = pathenv.chars.splitOn ':' := by rw [components, set]
      have ready : Ready pathenv.block ⟨0, 0, false, 0, [], []⟩ pathenv.chars :=
        ⟨rfl, block_at pathenv, fun _ => rfl⟩
      rw [list]
      constructor
      · rintro ⟨fuel, result, run, meets⟩
        have moves := returned_room run
        have fits : ComponentsFit env cmd access_mode fullpath (pathenv.chars.splitOn ':') := by
          by_contra unfit
          exact astray_not_meets (scan_astray rfl ready (.inl rfl) (fun _ => moves) unfit run) meets
        refine ⟨?_, fits⟩
        intro other same colon
        obtain rfl := Option.some.inj same
        have room := moves colon
        obtain ⟨cs, first⟩ := split_colon colon
        rw [first] at fits
        have long := ((components_fit_cons.mp fits).1).2 rfl
        omega
      · rintro ⟨plain, fits⟩
        obtain ⟨fuel, outcome, rest, run, meets⟩ :=
          scan_remaining rfl ready (.inl rfl) (fun _ => plain pathenv rfl) fits
        exact ⟨fuel, _, run, meets⟩

def leadingColon : Env where
  path := some ⟨":/bin".toList, by decide⟩
  access path _ := path == "./ls".toList
  cwd := .ok "/tmp".toList
  fits s cwd := by
    rcases cwd with same | same
    · cases same
      decide
    · cases same

theorem leading_colon_loops : ¬ ∃ fuel result, searchPath leadingColon "ls".toList 0 false fuel = some result ∧
      Meets leadingColon 0 (probes leadingColon "ls".toList false) result := by
  rintro ⟨fuel, result, run, _⟩
  have never : searchPath leadingColon "ls".toList 0 false fuel = none :=
    scan_stuck (block_at _) (.inr (by decide)) rfl rfl rfl fuel
  rw [never] at run
  cases run

end SearchPath
