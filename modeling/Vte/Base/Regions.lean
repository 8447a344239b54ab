import Mathlib.Data.List.Perm.Basic

/-!
A ledger of the regions that a program has allocated, numbered in the order of their allocation, and
of those that it has given back.
-/
namespace Regions

structure Ledger where
  /-- the sizes of all regions ever allocated -/
  sizes : List Nat
  released : List Nat
deriving DecidableEq

/-- The new region has the number `l.sizes.length`. -/
def Ledger.allocate (l : Ledger) (size : Nat) : Ledger := { l with sizes := l.sizes ++ [size] }

def Ledger.release (l : Ledger) (id : Nat) : Ledger := { l with released := id :: l.released }

/-- The region has been allocated with at least that size and has not been given back. -/
def Ledger.Live (l : Ledger) (id : Nat) (size : Int) : Prop :=
  id ∉ l.released ∧ ∃ n, l.sizes[id]? = some n ∧ size ≤ n

instance (l : Ledger) (id : Nat) (size : Int) : Decidable (l.Live id size) :=
  inferInstanceAs (Decidable (id ∉ l.released ∧ ∃ n, l.sizes[id]? = some n ∧ size ≤ n))

def Ledger.Accounts (l : Ledger) (held : List Nat) : Prop :=
  (held ++ l.released).Perm (List.range l.sizes.length)

section laws
variable {l : Ledger} {held held' : List Nat} {id size : Nat}

theorem accounts_perm (accounts : l.Accounts held) (perm : held'.Perm held) : l.Accounts held' :=
  (perm.append_right l.released).trans accounts

theorem accounts_allocate (accounts : l.Accounts held) (size : Nat) :
    (l.allocate size).Accounts (l.sizes.length :: held) := by
  unfold Ledger.Accounts
  have length : (l.allocate size).sizes.length = l.sizes.length + 1 := by simp [Ledger.allocate]
  rw [length, List.range_succ]
  have more := List.Perm.cons l.sizes.length accounts
  exact more.trans (List.perm_append_singleton _ _).symm

theorem accounts_release (accounts : l.Accounts (id :: held)) : (l.release id).Accounts held := by
  have moved : (held ++ id :: l.released).Perm (id :: (held ++ l.released)) := List.perm_middle
  exact moved.trans accounts

theorem accounts_held (accounts : l.Accounts held) (inside : id ∈ held) : id ∉ l.released := by
  have once : (held ++ l.released).Nodup := accounts.nodup_iff.mpr List.nodup_range
  exact fun released => (List.nodup_append.mp once).2.2 id inside id released rfl

end laws
end Regions
