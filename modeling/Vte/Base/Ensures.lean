import Mathlib.Tactic.TypeStar

/-!
Postconditions of computations that may stop: one predicate for the value returned and one
for the reason of a stop. A total claim excludes every stop, a partial one admits them all.
-/
namespace Stopping
variable {ε α β : Type}

/-- A value returned satisfies `Q`, and a stop satisfies `E`. -/
def Ensures (Q : α → Prop) (E : ε → Prop) : Except ε α → Prop
  | .ok a => Q a
  | .error e => E e

variable {Q Q' : α → Prop} {E E' : ε → Prop} {o : Except ε α}

theorem ensures_bind {R : β → Prop} {f : α → Except ε β} (first : Ensures Q E o)
    (rest : ∀ a, Q a → Ensures R E (f a)) : Ensures R E (o.bind f) := by
  cases o with
  | ok a => exact rest a first
  | error e => exact first

theorem ensures_mono (holds : Ensures Q E o) (weaker : ∀ a, Q a → Q' a)
    (stops : ∀ e, E e → E' e) : Ensures Q' E' o := by
  cases o with
  | ok a => exact weaker a holds
  | error e => exact stops e holds

theorem ensures_value (holds : Ensures Q E o) (weaker : ∀ a, Q a → Q' a) : Ensures Q' E o :=
  ensures_mono holds weaker fun _ stop => stop

def Never (_ : ε) : Prop := False

theorem ensures_never (holds : Ensures Q Never o) : ∃ a, o = .ok a ∧ Q a := by
  cases o with
  | ok a => exact ⟨a, rfl, holds⟩
  | error e => exact holds.elim

def orStop (e : ε) : Option α → Except ε α
  | some a => .ok a
  | none => .error e

theorem ensures_rest {R : β → Prop} {f : α → Except ε β} (e : ε) {a : α} (rest : Ensures R E (f a)) :
    Ensures R E ((orStop e (some a)).bind f) := rest

/-- `x / n`, which stops where `n` is zero -/
def quotient (e : ε) (x n : Nat) : Except ε Nat := if n = 0 then .error e else .ok (x / n)

/-- `x % n`, which stops where `n` is zero -/
def remainder (e : ε) (x n : Nat) : Except ε Nat := if n = 0 then .error e else .ok (x % n)

theorem quotient_value (e : ε) (x : Nat) {n : Nat} (positive : 0 < n) :
    Ensures (· = x / n) E (quotient e x n) := by
  rw [quotient, if_neg (Nat.ne_of_gt positive)]
  rfl

theorem remainder_low (e : ε) (x : Nat) {n : Nat} (positive : 0 < n) :
    Ensures (· < n) E (remainder e x n) := by
  rw [remainder, if_neg (Nat.ne_of_gt positive)]
  exact Nat.mod_lt x positive

/-- Steps that each keep a property, taken one after the other, keep it and do not stop. -/
theorem ensures_fold {Inv : α → Prop} {f : α → β → Except ε α}
    (keeps : ∀ a b, Inv a → Ensures Inv E (f a b)) (bs : List β) {a : α} (inv : Inv a) :
    Ensures Inv E (bs.foldlM f a) := by
  induction bs generalizing a with
  | nil => exact inv
  | cons b bs ih =>
    rw [List.foldlM_cons]
    exact ensures_bind (keeps a b inv) fun _ kept => ih kept

end Stopping
