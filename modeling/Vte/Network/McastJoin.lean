import Vte.Base.CInt

/-!
testcases/network/stress/ns-tools/ns-mcast_join.c: a number of multicast groups is joined, with one
socket or with one for each group. Which calls fail is given by the index of the group; a call on a
closed socket fails too. The addresses can be resolved and the memory can be allocated.
-/
namespace VteMcastJoin
open CInt

def openSockMin : Nat := 6

structure Request where
  num_group : Nat
  is_multi_socket : Bool
  saddrs : Bool
  socketFails : Nat → Bool
  joinFails : Nat → Bool
  filterFails : Nat → Bool
  few : num_group ≤ 255 * 254

/-- The number that is printed, the groups that are joined, with their source filter when one is
requested, and which sockets are open. -/
structure Printed where
  num_group : Nat
  groups : List Nat
  sockets : List Bool

section code

/-- `for (j = 0; j < OPEN_SOCK_MIN; j++) close(sock_array[idx - 1 - j]);` -/
def closeSome (sockets : List Bool) (idx : Nat) : List Bool :=
  (List.range openSockMin).foldl (fun sockets j => sockets.set (idx - 1 - j) false) sockets

/-- The sockets and `num_group`, or none after a fatal error; `left` sockets are to be opened. -/
def openSockets (r : Request) : (left idx : Nat) → List Bool → Option (List Bool × Nat)
  | 0, _, sockets => some (sockets, r.num_group)
  | left + 1, idx, sockets =>
    if r.socketFails idx then
      if idx < openSockMin then none
      else some (closeSome sockets idx, u64 (idx - openSockMin - 1))
    else openSockets r left (idx + 1) (sockets ++ [true])

def Request.sd (r : Request) (idx : Nat) : Nat := if r.is_multi_socket then idx else 0

def joinLoop (r : Request) (sockets : List Bool) (num_group : Nat) :
    (left idx : Nat) → List Nat → Option Printed
  | 0, _, groups => some { num_group, groups, sockets }
  | left + 1, idx, groups =>
    if r.joinFails idx ∨ sockets[r.sd idx]? ≠ some true then
      if idx = 0 then none else some { num_group := num_group - 1, groups, sockets }
    else if r.saddrs ∧ r.filterFails idx then
      if idx = 0 then none else some { num_group := num_group - 1, groups, sockets }
    else joinLoop r sockets num_group left (idx + 1) (groups ++ [idx])

def joinGroup (r : Request) : Option Printed := do
  let num_sock := if r.is_multi_socket then r.num_group else 1
  let (sockets, num_group) ← openSockets r num_sock 0 []
  joinLoop r sockets num_group num_group 0 []

end code

section spec

def Printed.joined (p : Printed) (r : Request) : List Nat :=
  p.groups.filter fun g => p.sockets[r.sd g]? = some true

def CountRight (r : Request) : Prop := ∀ p, joinGroup r = some p → p.num_group = (p.joined r).length

/-- The first index below `n` with the property. -/
def First (fails : Nat → Prop) (n k : Nat) : Prop := k < n ∧ fails k ∧ ∀ i < k, ¬ fails i

def Request.NoSocket (r : Request) (k : Nat) : Prop := r.socketFails k = true

def Request.NoGroup (r : Request) (g : Nat) : Prop :=
  r.joinFails g = true ∨ r.saddrs = true ∧ r.filterFails g = true

def Request.sockets (r : Request) : Nat := if r.is_multi_socket then r.num_group else 1

def Request.Tried (r : Request) (m : Nat) : Prop :=
  (∀ i < r.sockets, ¬ r.NoSocket i) ∧ m = r.num_group ∨ First r.NoSocket r.sockets (m + 7)

def CountCond (r : Request) : Prop :=
  ∀ m g, r.Tried m → First r.NoGroup m g → g = 0 ∨ g + 1 = m

end spec

section first
variable {fails : Nat → Prop} {n k : Nat}

theorem first_or_none (fails : Nat → Prop) (n : Nat) :
    (∀ i < n, ¬ fails i) ∨ ∃ k, First fails n k := by
  induction n with
  | zero => exact .inl fun i below => absurd below (Nat.not_lt_zero i)
  | succ n ih =>
    rcases ih with none | ⟨k, below, here, before⟩
    · by_cases last : fails n
      · exact .inr ⟨n, Nat.lt_succ_self n, last, none⟩
      · refine .inl fun i below => ?_
        rcases Nat.lt_succ_iff_lt_or_eq.mp below with before | rfl
        · exact none i before
        · exact last
    · exact .inr ⟨k, Nat.lt_succ_of_lt below, here, before⟩

theorem first_unique {j : Nat} (one : First fails n j) (other : First fails n k) : j = k := by
  rcases Nat.lt_trichotomy j k with less | same | more
  · exact absurd one.2.1 (other.2.2 j less)
  · exact same
  · exact absurd other.2.1 (one.2.2 k more)

end first

section sockets
variable {r : Request} {left idx : Nat}

theorem opened_all (none : ∀ i < idx + left, ¬ r.NoSocket i) :
    openSockets r left idx (List.replicate idx true) = some (List.replicate (idx + left) true, r.num_group) := by
  induction left generalizing idx with
  | zero => rfl
  | succ left ih =>
    have opens : ¬ r.socketFails idx = true := none idx (by omega)
    have next : idx + 1 + left = idx + (left + 1) := by omega
    rw [openSockets, if_neg opens, ← List.replicate_succ', ih (by rw [next]; exact none), next]

theorem opened_first {k : Nat} (from_idx : idx ≤ k) (first : First r.NoSocket (idx + left) k) :
    openSockets r left idx (List.replicate idx true) = if k < openSockMin then none
      else some (closeSome (List.replicate k true) k, u64 (k - openSockMin - 1)) := by
  induction left generalizing idx with
  | zero =>
    have below := first.1
    omega
  | succ left ih =>
    rcases Nat.eq_or_lt_of_le from_idx with rfl | later
    · have fails : r.socketFails idx = true := first.2.1
      rw [openSockets, if_pos fails]
    · have opens : ¬ r.socketFails idx = true := first.2.2 idx later
      rw [openSockets, if_neg opens, ← List.replicate_succ']
      exact ih later ⟨by have := first.1; omega, first.2⟩

theorem closed_some (n : Nat) : closeSome (List.replicate (n + 6) true) (n + 6) =
    List.replicate n true ++ List.replicate 6 false := by
  unfold closeSome
  rw [← List.replicate_append_replicate]
  have indices : ∀ j < 6, n + 6 - 1 - j = n + (5 - j) := by omega
  have six : List.range openSockMin = [0, 1, 2, 3, 4, 5] := rfl
  have at_end (j : Nat) (tail : List Bool) :
      (List.replicate n true ++ tail).set (n + j) false = List.replicate n true ++ tail.set j false := by
    rw [List.set_append_right _ _ (by simp), List.length_replicate, Nat.add_sub_cancel_left]
  rw [six]
  simp only [List.foldl_cons, List.foldl_nil, indices 0 (by decide), indices 1 (by decide),
    indices 2 (by decide), indices 3 (by decide), indices 4 (by decide), indices 5 (by decide),
    at_end]
  rfl

end sockets

section groups
variable {r : Request} {sockets : List Bool} {num_group left idx : Nat}

theorem group_joins (usable : sockets[r.sd idx]? = some true) (fine : ¬ r.NoGroup idx) :
    ¬ (r.joinFails idx = true ∨ sockets[r.sd idx]? ≠ some true) := by
  rintro (fails | closed)
  · exact fine (.inl fails)
  · exact closed usable

theorem joined_all (room : idx + left ≤ num_group)
    (usable : ∀ g < num_group, sockets[r.sd g]? = some true)
    (none : ∀ g < idx + left, ¬ r.NoGroup g) :
    joinLoop r sockets num_group left idx (List.range idx) =
      some { num_group, groups := List.range (idx + left), sockets } := by
  induction left generalizing idx with
  | zero => rfl
  | succ left ih =>
    have fine := none idx (by omega)
    have joins := group_joins (usable idx (by omega)) fine
    have next : idx + 1 + left = idx + (left + 1) := by omega
    rw [joinLoop, if_neg joins, if_neg (fun fails => fine (.inr fails)), ← List.range_succ,
      ih (by omega) (by rw [next]; exact none), next]

theorem joined_first {g : Nat} (room : idx + left ≤ num_group) (from_idx : idx ≤ g)
    (usable : ∀ g < num_group, sockets[r.sd g]? = some true)
    (first : First r.NoGroup (idx + left) g) :
    joinLoop r sockets num_group left idx (List.range idx) = if g = 0 then none
      else some { num_group := num_group - 1, groups := List.range g, sockets } := by
  induction left generalizing idx with
  | zero =>
    have below := first.1
    omega
  | succ left ih =>
    rcases Nat.eq_or_lt_of_le from_idx with rfl | later
    · rw [joinLoop]
      by_cases joins : r.joinFails idx = true ∨ sockets[r.sd idx]? ≠ some true
      · rw [if_pos joins]
      · have filter := first.2.1.resolve_left fun fails => joins (.inl fails)
        rw [if_neg joins, if_pos filter]
    · have fine := first.2.2 idx later
      have joins := group_joins (usable idx (by omega)) fine
      rw [joinLoop, if_neg joins, if_neg (fun fails => fine (.inr fails)), ← List.range_succ]
      exact ih (by omega) later ⟨by have := first.1; omega, first.2⟩

theorem all_joined {n : Nat} (below : n ≤ num_group)
    (usable : ∀ g < num_group, sockets[r.sd g]? = some true) (printed : Nat) :
    (Printed.joined { num_group := printed, groups := List.range n, sockets } r).length = n := by
  unfold Printed.joined
  dsimp only
  rw [List.filter_eq_self.mpr]
  · exact List.length_range
  · intro g member
    have inside := List.mem_range.mp member
    simpa using usable g (by omega)

theorem loop_right_iff (usable : ∀ g < num_group, sockets[r.sd g]? = some true) :
    (∀ p, joinLoop r sockets num_group num_group 0 [] = some p → p.num_group = (p.joined r).length) ↔
      ∀ g, First r.NoGroup num_group g → g = 0 ∨ g + 1 = num_group := by
  have start : ([] : List Nat) = List.range 0 := rfl
  rcases first_or_none r.NoGroup num_group with none | ⟨g, first⟩
  · refine iff_of_true ?_ ?_
    · rw [start, joined_all (by omega) usable (by rw [Nat.zero_add]; exact none)]
      intro p same
      obtain rfl := Option.some.inj same
      rw [all_joined (by omega) usable]
      dsimp only
      omega
    · rintro g ⟨below, fails, _⟩
      exact absurd fails (none g below)
  · rw [start, joined_first (by omega) (Nat.zero_le g) usable (by rw [Nat.zero_add]; exact first)]
    have below := first.1
    by_cases zero : g = 0
    · rw [if_pos zero]
      refine iff_of_true (fun p impossible => by cases impossible) fun k other => .inl ?_
      rw [← zero]
      exact first_unique other first
    · rw [if_neg zero]
      constructor
      · intro right k other
        obtain rfl := first_unique first other
        have count := right _ rfl
        rw [all_joined (by omega) usable] at count
        dsimp only at count
        omega
      · intro last p same
        obtain rfl := Option.some.inj same
        rw [all_joined (by omega) usable]
        have := last g first
        dsimp only
        omega

end groups

section results

theorem usable_all (r : Request) {n : Nat} (sockets : r.sockets ≤ n) :
    ∀ g < r.num_group, (List.replicate n true)[r.sd g]? = some true := by
  intro g below
  refine List.getElem?_replicate_of_lt (Nat.lt_of_lt_of_le ?_ sockets)
  unfold Request.sd Request.sockets
  split <;> omega

theorem usable_left (r : Request) (m : Nat) : ∀ g < m,
    (List.replicate (m + 1) true ++ List.replicate 6 false)[r.sd g]? = some true := by
  intro g below
  have inside : r.sd g < m + 1 := by
    unfold Request.sd
    split <;> omega
  rw [List.getElem?_append_left (by rw [List.length_replicate]; exact inside), List.getElem?_replicate_of_lt inside]

theorem groups_left {m : Nat} (few : m ≤ 255 * 254) :
    u64 ((m + 1 + 6 : Nat) - openSockMin - 1) = m := by
  have value := u64_small (x := m) (by omega) (by omega)
  have less : ((m + 1 + 6 : Nat) : Int) - openSockMin - 1 = m := by
    unfold openSockMin
    omega
  rw [less]
  omega

/-- The number that is printed is right for just these requests. -/
theorem join_right_iff (r : Request) : CountRight r ↔ CountCond r := by
  unfold CountRight CountCond joinGroup
  dsimp only
  rw [← Request.sockets]
  have start : ([] : List Bool) = List.replicate 0 true := rfl
  rcases first_or_none r.NoSocket r.sockets with none | ⟨k, first⟩
  · have tried (m : Nat) : r.Tried m ↔ m = r.num_group := by
      unfold Request.Tried
      constructor
      · rintro (⟨_, all⟩ | ⟨below, fails, _⟩)
        · exact all
        · exact absurd fails (none _ below)
      · exact fun all => .inl ⟨none, all⟩
    rw [start, opened_all (by rw [Nat.zero_add]; exact none), Nat.zero_add, Option.bind_eq_bind, Option.bind_some]
    dsimp only
    rw [loop_right_iff (usable_all r (Nat.le_refl _))]
    constructor
    · intro right m g isTried first
      obtain rfl := (tried m).mp isTried
      exact right g first
    · intro right g first
      exact right _ g ((tried _).mpr rfl) first
  · have tried (m : Nat) : r.Tried m ↔ k = m + 7 := by
      unfold Request.Tried
      constructor
      · rintro (⟨none, _⟩ | other)
        · exact absurd first.2.1 (none k first.1)
        · exact first_unique first other
      · rintro rfl
        exact .inr first
    rw [start, opened_first (Nat.zero_le k) (by rw [Nat.zero_add]; exact first)]
    have multi : r.sockets ≤ 255 * 254 := by
      have := r.few
      unfold Request.sockets
      split <;> omega
    by_cases fatal : k < openSockMin
    · rw [if_pos fatal]
      refine iff_of_true (fun p impossible => by cases impossible) fun m g isTried _ => ?_
      have := (tried m).mp isTried
      unfold openSockMin at fatal
      omega
    · rw [if_neg fatal, Option.bind_eq_bind, Option.bind_some]
      dsimp only
      unfold openSockMin at fatal
      by_cases six : k = 6
      · -- all sockets are closed, and the first group cannot be joined
        subst six
        have closed : closeSome (List.replicate 6 true) 6 = List.replicate 6 false :=
          closed_some 0
        have wrapped : u64 ((6 : Nat) - openSockMin - 1) = 18446744073709551614 + 1 := by decide
        have unusable : (List.replicate 6 false)[r.sd 0]? ≠ some true := by
          unfold Request.sd
          split <;> decide
        rw [closed, wrapped, joinLoop, if_pos (.inr unusable), if_pos rfl]
        refine iff_of_true (fun p impossible => by cases impossible) fun m g isTried _ => ?_
        have := (tried m).mp isTried
        omega
      · obtain ⟨m, rfl⟩ : ∃ m, k = m + 1 + 6 := ⟨k - 7, by omega⟩
        have few : m ≤ 255 * 254 := by
          have := first.1
          omega
        rw [closed_some, groups_left few, loop_right_iff (usable_left r m)]
        constructor
        · intro right m' g isTried firstGroup
          obtain rfl : m = m' := by
            have := (tried m').mp isTried
            omega
          exact right g firstGroup
        · intro right g firstGroup
          exact right m g ((tried m).mpr (by omega)) firstGroup

def fourthFails : Request where
  num_group := 10
  is_multi_socket := false
  saddrs := false
  socketFails _ := false
  joinFails g := g == 3
  filterFails _ := false
  few := by decide

theorem nine_printed_for_three : ¬ ∀ r : Request, r.socketFails 0 = false → r.joinFails 0 = false →
    r.filterFails 0 = false → CountRight r := by
  intro all
  have count := all fourthFails rfl rfl rfl _ rfl
  revert count
  decide

end results
end VteMcastJoin
