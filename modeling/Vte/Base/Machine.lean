import Mathlib.Data.List.Basic

/-!
Machines that take labelled steps: runs, invariants of runs, ranks that bound them, and the
exploration of a machine with finitely many reachable states.
-/
namespace Machine
variable {Act S : Type} {step : Act → S → Option S}

def run (step : Act → S → Option S) : List Act → S → Option S
  | [], s => some s
  | act :: acts, s => (step act s).bind (run step acts)

theorem run_cons {act : Act} {acts : List Act} {s u : S}
    (ran : run step (act :: acts) s = some u) :
    ∃ t, step act s = some t ∧ run step acts t = some u := by
  rw [run] at ran
  exact Option.bind_eq_some_iff.mp ran

theorem run_append {acts acts' : List Act} {s t : S} (ran : run step acts s = some t) :
    run step (acts ++ acts') s = run step acts' t := by
  induction acts generalizing s with
  | nil =>
    rw [run] at ran
    rw [List.nil_append, Option.some.inj ran]
  | cons act acts ih =>
    obtain ⟨u, taken, rest⟩ := run_cons ran
    rw [List.cons_append, run, taken, Option.bind_some, ih rest]

theorem run_snoc {acts : List Act} {act : Act} {s u : S}
    (ran : run step (acts ++ [act]) s = some u) :
    ∃ t, run step acts s = some t ∧ step act t = some u := by
  induction acts generalizing s with
  | nil =>
    obtain ⟨t, taken, rest⟩ := run_cons ran
    rw [run] at rest
    exact ⟨s, rfl, Option.some.inj rest ▸ taken⟩
  | cons first acts ih =>
    obtain ⟨v, taken, rest⟩ := run_cons ran
    obtain ⟨t, before, last⟩ := ih rest
    exact ⟨t, by rw [run, taken, Option.bind_some, before], last⟩

theorem run_invariant {Inv : S → Prop}
    (preserves : ∀ act s t, Inv s → step act s = some t → Inv t) {acts : List Act} {s t : S}
    (inv : Inv s) (ran : run step acts s = some t) : Inv t := by
  induction acts generalizing s with
  | nil =>
    rw [run] at ran
    rwa [← Option.some.inj ran]
  | cons act acts ih =>
    obtain ⟨u, taken, rest⟩ := run_cons ran
    exact ih (preserves act s u inv taken) rest

def Along (step : Act → S → Option S) (cond : Act → S → Prop) : List Act → S → Prop
  | [], _ => True
  | act :: acts, s => cond act s ∧ ∀ t ∈ step act s, Along step cond acts t

instance Along.decidable {cond : Act → S → Prop} [∀ act s, Decidable (cond act s)]
    (acts : List Act) (s : S) : Decidable (Along step cond acts s) :=
  match acts with
  | [] => isTrue trivial
  | act :: acts =>
    have : DecidablePred (Along step cond acts) := fun t => Along.decidable acts t
    inferInstanceAs (Decidable (cond act s ∧ ∀ t ∈ step act s, Along step cond acts t))

theorem run_along {cond : Act → S → Prop} {Inv : S → Prop}
    (preserves : ∀ act s t, Inv s → cond act s → step act s = some t → Inv t) {acts : List Act}
    {s t : S} (inv : Inv s) (along : Along step cond acts s) (ran : run step acts s = some t) :
    Inv t := by
  induction acts generalizing s with
  | nil =>
    rw [run] at ran
    rwa [← Option.some.inj ran]
  | cons act acts ih =>
    obtain ⟨u, taken, rest⟩ := run_cons ran
    obtain ⟨here, later⟩ := along
    exact ih (preserves act s u inv here taken) (later u taken) rest

theorem along_holds {cond holds : Act → S → Prop} {Inv : S → Prop}
    (preserves : ∀ act s t, Inv s → cond act s → step act s = some t → Inv t)
    (gives : ∀ act s, Inv s → cond act s → holds act s) {acts : List Act} {s : S} (inv : Inv s)
    (along : Along step cond acts s) : Along step holds acts s := by
  induction acts generalizing s with
  | nil => trivial
  | cons act acts ih =>
    obtain ⟨here, later⟩ := along
    exact ⟨gives act s inv here, fun t taken => ih (preserves act s t inv here taken) (later t taken)⟩

/-- A rank that every step lowers while an invariant holds bounds the length of every run. -/
theorem run_bounded_of (Inv : S → Prop) {rank : S → Nat}
    (preserves : ∀ act s t, Inv s → step act s = some t → Inv t)
    (falls : ∀ act s t, Inv s → step act s = some t → rank t < rank s) {acts : List Act} {s t : S} (inv : Inv s)
    (ran : run step acts s = some t) : acts.length + rank t ≤ rank s := by
  induction acts generalizing s with
  | nil =>
    rw [run] at ran
    obtain rfl := Option.some.inj ran
    simp
  | cons act acts ih =>
    obtain ⟨u, taken, rest⟩ := run_cons ran
    have lower := falls act s u inv taken
    have bound := ih (preserves act s u inv taken) rest
    rw [List.length_cons]
    omega

theorem run_bounded {rank : S → Nat} (falls : ∀ act s t, step act s = some t → rank t < rank s)
    {acts : List Act} {s t : S} (ran : run step acts s = some t) :
    acts.length + rank t ≤ rank s :=
  run_bounded_of (fun _ => True) (fun _ _ _ _ _ => trivial) (fun act s t _ => falls act s t) trivial ran

theorem run_out {Inv : S → Prop} {rank : S → Nat} {act : Act}
    (falls : ∀ s t, Inv s → step act s = some t → Inv t ∧ rank t < rank s) {s : S} (inv : Inv s) :
    ∃ n t, run step (List.replicate n act) s = some t ∧ step act t = none ∧ Inv t := by
  have bounded : ∀ bound s, rank s < bound → Inv s →
      ∃ n t, run step (List.replicate n act) s = some t ∧ step act t = none ∧ Inv t := by
    intro bound
    induction bound with
    | zero => exact fun s low => absurd low (Nat.not_lt_zero _)
    | succ bound ih =>
      intro s low inv
      cases taken : step act s with
      | none => exact ⟨0, s, rfl, taken, inv⟩
      | some u =>
        obtain ⟨kept, lower⟩ := falls s u inv taken
        obtain ⟨n, t, ran, stuck, last⟩ := ih u (by omega) kept
        refine ⟨n + 1, t, ?_, stuck, last⟩
        rw [List.replicate_succ, run, taken, Option.bind_some, ran]
  exact bounded (rank s + 1) s (Nat.lt_succ_self _) inv

section explore
variable (acts : List Act)

/-- The states found from those in `todo` in at most `fuel` expansions, added to `seen`. -/
def explore [DecidableEq S] (step : Act → S → Option S) : Nat → List S → List S → List S
  | 0, _, seen => seen
  | _, [], seen => seen
  | fuel + 1, s :: todo, seen =>
    let found := (acts.filterMap (step · s)).dedup.filter (· ∉ seen)
    explore step fuel (found ++ todo) (found ++ seen)

def Closed (step : Act → S → Option S) (states : List S) : Prop :=
  ∀ s ∈ states, ∀ act ∈ acts, ∀ t ∈ step act s, t ∈ states

instance [DecidableEq S] (step : Act → S → Option S) (states : List S) : Decidable (Closed acts step states) :=
  inferInstanceAs (Decidable (∀ s ∈ states, ∀ act ∈ acts, ∀ t ∈ step act s, t ∈ states))

theorem run_closed (all : ∀ act, act ∈ acts) {states : List S} (closed : Closed acts step states)
    {ran : List Act} {s t : S} (start : s ∈ states) (reached : run step ran s = some t) :
    t ∈ states := by
  have preserves : ∀ act s t, s ∈ states → step act s = some t → t ∈ states :=
    fun act s t inside taken => closed s inside act (all act) t taken
  exact run_invariant preserves start reached

end explore
end Machine
