import Vte.Base.Multiples

/-!
`for` loops that count with an `int`: the counter is raised after every turn, and must still fit.
-/
namespace IntLoop
open Multiples
variable {S : Type} {body : Nat → S → Option S}

/-- So many turns, the first one with the counter at `i`. -/
def intLoop (body : Nat → S → Option S) : Nat → Nat → S → Option S
  | 0, _, s => some s
  | left + 1, i, s => do
    let t ← body i s
    let _ ← checked32 ((i + 1 : Nat) : Int)
    intLoop body left (i + 1) t

def intLoopE {E : Type} (body : Nat → S → Option (Except E S)) : Nat → Nat → S → Option (Except E S)
  | 0, _, s => some (.ok s)
  | left + 1, i, s => do
    match ← body i s with
    | .error e => some (.error e)
    | .ok t => do
      let _ ← checked32 ((i + 1 : Nat) : Int)
      intLoopE body left (i + 1) t

theorem int_loop_turn {left i : Nat} {s t : S} (turn : body i s = some t) (fits : i + 1 < 2147483648) :
    intLoop body (left + 1) i s = intLoop body left (i + 1) t := by
  have counter : checked32 ((i + 1 : Nat) : Int) = some ((i + 1 : Nat) : Int) :=
    checked32_fits ⟨by omega, by omega⟩
  rw [intLoop, turn, Option.bind_eq_bind, Option.bind_some, counter, Option.bind_eq_bind, Option.bind_some]

theorem int_loop_inv (Inv : Nat → S → Prop) (count i : Nat) {s : S}
    (turn : ∀ k s, i ≤ k → k < i + count → Inv k s → ∃ t, body k s = some t ∧ Inv (k + 1) t)
    (fits : i + count < 2147483648) (start : Inv i s) :
    ∃ t, intLoop body count i s = some t ∧ Inv (i + count) t := by
  induction count generalizing i s with
  | zero => exact ⟨s, rfl, start⟩
  | succ count ih =>
    obtain ⟨t, first, kept⟩ := turn i s (Nat.le_refl i) (by omega) start
    obtain ⟨u, rest, last⟩ :=
      ih (i + 1) (fun k s low high => turn k s (by omega) (by omega)) (by omega) kept
    rw [int_loop_turn first (by omega)]
    have turns : i + 1 + count = i + (count + 1) := by omega
    exact ⟨u, rest, turns ▸ last⟩

theorem int_loop_fails {count i k : Nat} (low : i ≤ k) (high : k < i + count)
    (fails : ∀ s, body k s = none) (s : S) : intLoop body count i s = none := by
  induction count generalizing i s with
  | zero => omega
  | succ count ih =>
    rw [intLoop]
    by_cases here : i = k
    · subst here
      rw [fails s]
      rfl
    · cases body i s with
      | none => rfl
      | some t =>
        cases checked32 ((i + 1 : Nat) : Int) with
        | none => rfl
        | some _ => exact ih (by omega) (by omega) t

theorem int_loop_overflow {count i : Nat} (low : i < 2147483648) (high : 2147483648 ≤ i + count) (s : S) :
    intLoop body count i s = none := by
  induction count generalizing i s with
  | zero => omega
  | succ count ih =>
    rw [intLoop]
    cases body i s with
    | none => rfl
    | some t =>
      by_cases last : i + 1 = 2147483648
      · have wide : checked32 ((i + 1 : Nat) : Int) = none := by
          rw [last]
          rfl
        rw [Option.bind_eq_bind, Option.bind_some, wide]
        rfl
      · cases checked32 ((i + 1 : Nat) : Int) with
        | none => rfl
        | some _ => exact ih (by omega) (by omega) t

/-- What a computation that may give nothing comes to: whatever it gives is as said, and under the condition
it gives something. -/
structure Gives {α : Type} (cond : Prop) (holds : α → Prop) (o : Option α) : Prop where
  right : ∀ a, o = some a → holds a
  given : cond → ∃ a, o = some a

section gives
variable {α β E : Type} {cond : Prop} {o : Option α} {f : α → Option β} {holds : α → Prop}
  {after : β → Prop}

theorem gives_bind (first : Gives cond holds o) (rest : ∀ a, holds a → Gives cond after (f a)) :
    Gives cond after (o.bind f) := by
  constructor
  · intro b whole
    obtain ⟨a, begun, ended⟩ := Option.bind_eq_some_iff.mp whole
    exact (rest a (first.right a begun)).right b ended
  · intro met
    obtain ⟨a, begun⟩ := first.given met
    obtain ⟨b, ended⟩ := (rest a (first.right a begun)).given met
    exact ⟨b, by rw [begun, Option.bind_some, ended]⟩

theorem gives_some {a : α} (here : holds a) : Gives cond holds (some a) :=
  ⟨fun _ same => Option.some.inj same ▸ here, fun _ => ⟨a, rfl⟩⟩

theorem gives_cond {weaker : Prop} (gives : Gives weaker holds o) (enough : cond → weaker) :
    Gives cond holds o :=
  ⟨gives.right, fun met => gives.given (enough met)⟩

theorem gives_counter (i : Nat) (fits : cond → i + 1 < 2147483648) :
    Gives cond (fun _ => i + 1 < 2147483648) (checked32 ((i + 1 : Nat) : Int)) := by
  constructor
  · intro counter raised
    obtain ⟨bounds, _⟩ := checked32_iff.mp raised
    have high := bounds.2
    omega
  · intro met
    have high := fits met
    exact ⟨_, checked32_fits ⟨by omega, by omega⟩⟩

/-- Turns that do not leave the loop keep what each of them keeps; a loop that ends has counted within an
`int`. -/
theorem gives_loop {body : Nat → S → Option (Except E S)} (Inv : Nat → S → Prop) {cond : Prop}
    (count i : Nat) {s : S}
    (turn : ∀ k s, i ≤ k → k < i + count → Inv k s → Gives cond (fun r => ∃ t, r = .ok t ∧ Inv (k + 1) t) (body k s))
    (fits : cond → i + count < 2147483648) (small : i < 2147483648) (start : Inv i s) :
    Gives cond (fun r => i + count < 2147483648 ∧ ∃ t, r = .ok t ∧ Inv (i + count) t)
      (intLoopE body count i s) := by
  induction count generalizing i s with
  | zero => exact gives_some ⟨small, s, rfl, start⟩
  | succ count ih =>
    have first := turn i s (Nat.le_refl i) (by omega) start
    refine gives_bind first fun r kept => ?_
    obtain ⟨t, rfl, inv⟩ := kept
    refine gives_bind (gives_counter i fun met => by have high := fits met; omega) fun _ high => ?_
    have rest := ih (i + 1) (fun k s low below => turn k s (by omega) (by omega))
      (fun met => by have whole := fits met; omega) high inv
    rwa [show i + 1 + count = i + (count + 1) by omega] at rest

end gives
end IntLoop
