import Mathlib.Data.List.Nodup
import Vte.Base.Occurrences
import Vte.Sched.ThreadTreeRegister

/-!
How the leaves talk: the counter of a leaf is the number of its siblings that have come to its place in the
list of their parent.
-/
namespace ThreadTree
open Function HeapTree Occurrences

section invariant
variable (p : Params)

def Pc.progress : Pc → Nat
  | .talking child => child
  | .checking | .talkWaiting | .talkWoken | .exited => p.breadth
  | _ => 0

variable (s : State)

def contacts (parent i : Nat) : Nat :=
  (s.child_info parent).child_ptrs.countP fun j =>
    j ≠ i ∧ (s.child_info parent).child_ptrs.idxOf i < (s.thread j).pc.progress p

structure TalkInv : Prop where
  count : ∀ i < s.node_count, (s.thread i).level = p.depth → ∀ q, (s.thread i).parent = some q →
    (s.child_info i).talk_count = contacts p s q i
  waits : ∀ i < s.node_count, (s.thread i).pc = .talkWaiting → (s.child_info i).talk_count < p.breadth - 1

end invariant

section steps
variable {p : Params} {s t : State} {total i : Nat}

theorem TalkInv.keep (inv : Inv p s) (talk : TalkInv p s) (count : t.node_count = s.node_count)
    (parents : ∀ j, (t.thread j).parent = (s.thread j).parent)
    (levels : ∀ j, (t.thread j).level = (s.thread j).level)
    (ptrs : ∀ j, (t.child_info j).child_ptrs = (s.child_info j).child_ptrs)
    (counts : ∀ j, (t.child_info j).talk_count = (s.child_info j).talk_count)
    (progress : ∀ j < s.node_count, (s.thread j).level = p.depth →
      (t.thread j).pc.progress p = (s.thread j).pc.progress p)
    (waits : ∀ j < s.node_count, (t.thread j).pc = .talkWaiting →
      (s.thread j).pc = .talkWaiting ∨ (s.child_info j).talk_count < p.breadth - 1) : TalkInv p t := by
  constructor
  · intro i index leaf q up
    rw [count] at index
    rw [levels] at leaf
    rw [parents] at up
    rw [counts, talk.count i index leaf q up, contacts, contacts, ptrs]
    obtain ⟨known, member⟩ := inv.parent_lt index up
    have same_level := (inv.thread q known).child
    apply List.countP_congr
    intro j sibling
    obtain ⟨small, _, level⟩ := same_level j sibling
    obtain ⟨_, _, own_level⟩ := same_level i member
    rw [progress j small (by omega)]
  · intro i index place
    rw [count] at index
    rw [counts]
    rcases waits i index place with waited | few
    · exact talk.waits i index waited
    · exact few

theorem TalkInv.go_to (inv : Inv p s) (talk : TalkInv p s) {pc : Pc}
    (progress : (s.thread i).level = p.depth → pc.progress p = (s.thread i).pc.progress p)
    (waits : pc = .talkWaiting → (s.child_info i).talk_count < p.breadth - 1) : TalkInv p (s.goTo i pc) := by
  apply talk.keep inv <;> try simp only [go_to_node_count, go_to_parent, go_to_level, go_to_child_info, implies_true]
  · intro j _ leaf
    by_cases same : j = i
    · subst same
      rw [go_to_pc]
      exact progress leaf
    · rw [go_to_other s pc same]
  · intro j _ place
    by_cases same : j = i
    · subst same
      rw [go_to_pc] at place
      exact .inr (waits place)
    · rw [go_to_other s pc same] at place
      exact .inl place

theorem start_talk (started : start init = some t) : TalkInv p t := by
  obtain rfl := Option.some.inj started
  have only : ∀ i < 1, i = 0 := fun i index => by omega
  constructor
  · intro i index _ q up
    obtain rfl := only i index
    cases up
  · intro i index place
    obtain rfl := only i index
    cases place

theorem create_talk (inv : Inv p s) (talk : TalkInv p s) {child : Nat}
    (index : i < s.node_count) (place : (s.thread i).pc = .creating child) : TalkInv p (create p s i child) := by
  have fits := (inv.thread i index).fits
  rw [place] at fits
  have inner := fits.2.1
  have all : ∀ j, (update s.child_info i
      { s.child_info i with threads := (s.child_info i).threads ++ [none] } j).child_ptrs =
        (s.child_info j).child_ptrs ∧
      (update s.child_info i
        { s.child_info i with threads := (s.child_info i).threads ++ [none] } j).talk_count =
          (s.child_info j).talk_count := by
    intro j
    by_cases same : j = i <;> simp [same]
  apply talk.keep inv <;> simp only [create, go_to_node_count, go_to_parent, go_to_level,
    go_to_child_info, implies_true]
  · exact fun j => (all j).1
  · exact fun j => (all j).2
  · intro j _ leaf
    have other : j ≠ i := by
      rintro rfl
      omega
    rw [go_to_other _ _ other]
  · intro j _ waiting
    by_cases same : j = i
    · subst same
      rw [go_to_pc] at waiting
      split at waiting <;> cases waiting
    · rw [go_to_other _ _ same] at waiting
      exact .inl waiting

theorem heart_talk (inv : Inv p s) (talk : TalkInv p s) (several : 1 < p.breadth) (index : i < s.node_count)
    (place : (s.thread i).pc = .ready) : TalkInv p (heart p s i) := by
  have fits := (inv.thread i index).fits
  rw [place, Pc.Fits] at fits
  unfold heart
  split_ifs with inner
  · exact talk.go_to inv (by rw [place]; intro _; rfl) (by intro waiting; cases waiting)
  · exact talk.go_to inv (by rw [place]; intro _; rfl) (by intro waiting; cases waiting)

theorem check_talk (inv : Inv p s) (talk : TalkInv p s) (place : (s.thread i).pc = .checking) :
    TalkInv p (check p s i) := by
  unfold check
  split_ifs with few
  · exact talk.go_to inv (by rw [place]; intro _; rfl) (fun _ => few)
  · exact talk.go_to inv (by rw [place]; intro _; rfl) (by intro waiting; cases waiting)

theorem join_talk (inv : Inv p s) (talk : TalkInv p s) {child : Nat} (index : i < s.node_count)
    (place : (s.thread i).pc = .joining child) (joined : join p s i child = some t) : TalkInv p t := by
  have fits := (inv.thread i index).fits
  rw [place] at fits
  have inner := fits.2.1
  obtain ⟨slot, _, joined⟩ := Option.bind_eq_some_iff.mp joined
  obtain ⟨j, _, joined⟩ := Option.bind_eq_some_iff.mp joined
  split at joined
  swap
  · cases joined
  obtain ⟨u, added, joined⟩ := Option.bind_eq_some_iff.mp joined
  obtain rfl := Option.some.inj joined
  have same : u.node_count = s.node_count ∧ u.thread = s.thread ∧
      ∀ j, (u.child_info j).child_ptrs = (s.child_info j).child_ptrs ∧
        (u.child_info j).talk_count = (s.child_info j).talk_count := by
    unfold addSum at added
    split at added
    · obtain ⟨ptr, _, added⟩ := Option.bind_eq_some_iff.mp added
      obtain rfl := Option.some.inj added
      refine ⟨rfl, rfl, fun j => ?_⟩
      by_cases own : j = i <;> simp [own]
    · obtain rfl := Option.some.inj added
      exact ⟨rfl, rfl, fun _ => ⟨rfl, rfl⟩⟩
  obtain ⟨count, thread, infos⟩ := same
  apply talk.keep inv <;> try simp only [go_to_node_count, go_to_parent, go_to_level, go_to_child_info,
    count, thread, implies_true]
  · exact fun j => (infos j).1
  · exact fun j => (infos j).2
  · intro k _ leaf
    have other : k ≠ i := by
      rintro rfl
      omega
    rw [go_to_other _ _ other, thread]
  · intro k _ waiting
    by_cases own : k = i
    · subst own
      rw [go_to_pc] at waiting
      split at waiting <;> cases waiting
    · rw [go_to_other _ _ own, thread] at waiting
      exact .inl waiting

end steps

section register
variable {p : Params} {s t : State} {parent child : Nat}

theorem Pc.waiting_of_level {cdepth level : Nat} {pc : Pc} (fits : pc.Fits p cdepth level)
    (current : level = cdepth) (_growing : cdepth ≤ p.depth) : pc = .waiting := by
  cases pc with
  | waiting => rfl
  | woken | ready | exited =>
    simp only [Pc.Fits] at fits
    omega
  | creating _ | joining _ | talking _ | checking | talkWaiting | talkWoken =>
    simp only [Pc.Fits] at fits
    omega

theorem Pc.progress_wake (pc : Pc) : pc.wake.progress p = pc.progress p := by
  cases pc <;> rfl

theorem Registers.talk (reg : Registers p s t parent child) (inv : Inv p s) (talk : TalkInv p s)
    (new : (t.thread s.node_count).pc.progress p = 0) (waits : (t.thread s.node_count).pc ≠ .talkWaiting)
    (progress : ∀ i < s.node_count, (t.thread i).pc.progress p = (s.thread i).pc.progress p)
    (old : ∀ i < s.node_count, (t.thread i).pc = .talkWaiting → (s.thread i).pc = .talkWaiting) :
    TalkInv p t := by
  have known := reg.known
  obtain ⟨level, inner⟩ := inv.register_level known reg.slot
  have infos := registered_eq p s child known
  constructor
  · intro i index leaf q up
    rw [reg.count] at index
    have ptrs := (infos q).2.1
    rw [← reg.info] at ptrs
    by_cases own : i = s.node_count
    · subst own
      rw [reg.new_parent] at up
      obtain rfl := Option.some.inj up
      have nobody : contacts p t parent s.node_count = 0 := by
        rw [contacts, List.countP_eq_zero]
        intro j member
        rw [ptrs, if_pos rfl] at member
        rcases List.mem_append.mp member with sibling | self
        · obtain ⟨small, _, deep⟩ := (inv.thread parent known).child j sibling
          have place := Pc.waiting_of_level (inv.thread j small).fits (by omega) (by omega)
          rw [progress j small, place]
          simp [Pc.progress]
        · simp [List.mem_singleton.mp self]
      rw [nobody, reg.info, (infos s.node_count).2.2, inv.fresh s.node_count (Nat.le_refl _)]
    · have small : i < s.node_count := by omega
      rw [reg.levels i small] at leaf
      rw [reg.parents i small] at up
      obtain ⟨known', member⟩ := inv.parent_lt small up
      have others : ∀ j ∈ (s.child_info q).child_ptrs, (t.thread j).pc.progress p = (s.thread j).pc.progress p :=
        fun j sibling => progress j ((inv.thread q known').child j sibling).1
      rw [reg.info, (infos i).2.2, talk.count i small leaf q up, contacts, contacts, ptrs]
      split_ifs
      · rw [List.countP_append, List.idxOf_append_of_mem member, List.countP_singleton, new]
        simp only [Nat.not_lt_zero, and_false, decide_false, Bool.false_eq_true, if_false, Nat.add_zero]
        exact List.countP_congr fun j sibling => by rw [others j sibling]
      · exact List.countP_congr fun j sibling => by rw [others j sibling]
  · intro i index place
    rw [reg.count] at index
    have other : i ≠ s.node_count := by
      rintro rfl
      exact waits place
    rw [reg.info, (infos i).2.2]
    exact talk.waits i (by omega) (old i (by omega) place)

end register

section talk
variable {p : Params} {s t : State} {i : Nat}

theorem contact_info (p : Params) (s : State) (sibling j : Nat) :
    ((contact p s sibling).child_info j).child_ptrs = (s.child_info j).child_ptrs ∧
      ((contact p s sibling).child_info j).talk_count = (s.child_info j).talk_count + if j = sibling then 1 else 0 := by
  have infos : (contact p s sibling).child_info = update s.child_info sibling
      { s.child_info sibling with talk_count := (s.child_info sibling).talk_count + 1 } := by
    unfold contact
    dsimp only
    split_ifs <;> rfl
  rw [infos]
  by_cases own : j = sibling <;> simp [own]

theorem contact_progress (p : Params) (s : State) (sibling j : Nat) :
    ((contact p s sibling).thread j).pc.progress p = (s.thread j).pc.progress p := by
  by_cases own : j = sibling
  · subst own
    unfold contact
    dsimp only
    split_ifs with wakes
    · rw [go_to_pc, wakes.2]
      rfl
    · rfl
  · rw [((contact_frame p s sibling).2.2 j).2.2 own]

theorem contact_waits {sibling : Nat} (waits : ((contact p s sibling).thread sibling).pc = .talkWaiting) :
    (s.thread sibling).pc = .talkWaiting ∧ (s.child_info sibling).talk_count + 1 ≠ p.breadth - 1 := by
  unfold contact at waits
  dsimp only at waits
  split_ifs at waits with wakes
  · rw [go_to_pc] at waits
    cases waits
  · exact ⟨waits, fun last => wakes ⟨last, waits⟩⟩

structure Talks (p : Params) (s t : State) (i parent child sibling : Nat) : Prop where
  up : (s.thread i).parent = some parent
  listed : (s.child_info parent).child_ptrs[child]? = some sibling
  node_count : t.node_count = s.node_count
  parents : ∀ j, (t.thread j).parent = (s.thread j).parent
  levels : ∀ j, (t.thread j).level = (s.thread j).level
  ptrs : ∀ j, (t.child_info j).child_ptrs = (s.child_info j).child_ptrs
  counts : ∀ j, (t.child_info j).talk_count = (s.child_info j).talk_count + if j = sibling ∧ sibling ≠ i then 1 else 0
  own : (t.thread i).pc.progress p = child + 1
  others : ∀ j ≠ i, (t.thread j).pc.progress p = (s.thread j).pc.progress p
  waits : ∀ j, (t.thread j).pc = .talkWaiting → (s.thread j).pc = .talkWaiting ∧ j ≠ i ∧
    (j = sibling → (s.child_info j).talk_count + 1 ≠ p.breadth - 1)

theorem talk_cases {child : Nat} (small : child < p.breadth) (talked : talk p s i child = some t) :
    ∃ parent sibling, Talks p s t i parent child sibling := by
  obtain ⟨parent, up, talked⟩ := Option.bind_eq_some_iff.mp talked
  obtain ⟨sibling, listed, talked⟩ := Option.bind_eq_some_iff.mp talked
  obtain rfl := Option.some.inj talked
  refine ⟨parent, sibling, ?_⟩
  have moved : ∀ u : State, ((u.goTo i (if child + 1 < p.breadth then .talking (child + 1)
      else .checking)).thread i).pc.progress p = child + 1 := by
    intro u
    rw [go_to_pc]
    split_ifs
    · rfl
    · rw [Pc.progress]
      omega
  have not_waiting : ∀ u : State, ((u.goTo i (if child + 1 < p.breadth then .talking (child + 1)
      else .checking)).thread i).pc ≠ .talkWaiting := by
    intro u
    rw [go_to_pc]
    split_ifs <;> exact fun wrong => by cases wrong
  by_cases self : sibling = i
  · rw [if_neg (fun other => other self)]
    refine ⟨up, listed, rfl, by simp, by simp, by simp, by simp [self], moved s, ?_, ?_⟩
    · intro j other
      rw [go_to_other _ _ other]
    · intro j waits
      have other : j ≠ i := by
        rintro rfl
        exact not_waiting s waits
      rw [go_to_other _ _ other] at waits
      exact ⟨waits, other, fun same => absurd (same.trans self) other⟩
  · obtain ⟨count, _, threads⟩ := contact_frame p s sibling
    rw [if_pos self]
    refine ⟨up, listed, count, ?_, ?_, ?_, ?_, moved _, ?_, ?_⟩
    · intro j
      rw [go_to_parent, (threads j).1]
    · intro j
      rw [go_to_level, (threads j).2.1]
    · intro j
      rw [go_to_child_info, (contact_info p s sibling j).1]
    · intro j
      rw [go_to_child_info, (contact_info p s sibling j).2]
      simp [self]
    · intro j other
      rw [go_to_other _ _ other, contact_progress]
    · intro j waits
      have other : j ≠ i := by
        rintro rfl
        exact not_waiting _ waits
      rw [go_to_other _ _ other] at waits
      by_cases contacted : j = sibling
      · subst contacted
        obtain ⟨waited, more⟩ := contact_waits waits
        exact ⟨waited, other, fun _ => more⟩
      · rw [(threads j).2.2 contacted] at waits
        exact ⟨waits, other, fun same => absurd same contacted⟩

theorem Talks.talk {parent child sibling : Nat} (talks : Talks p s t i parent child sibling) (inv : Inv p s)
    (talk : TalkInv p s) (index : i < s.node_count) (progress : (s.thread i).pc.progress p = child) :
    TalkInv p t := by
  obtain ⟨known, own_member⟩ := inv.parent_lt index talks.up
  have nodup := (inv.thread parent known).nodup
  have inside := (List.getElem?_eq_some_iff.mp talks.listed).1
  have place : (s.child_info parent).child_ptrs.idxOf sibling = child := by
    obtain ⟨_, rfl⟩ := List.getElem?_eq_some_iff.mp talks.listed
    exact nodup.idxOf_getElem child inside
  constructor
  · intro x small leaf q up
    rw [talks.node_count] at small
    rw [talks.levels] at leaf
    rw [talks.parents] at up
    obtain ⟨known', member⟩ := inv.parent_lt small up
    rw [talks.counts, talk.count x small leaf q up, contacts, contacts, talks.ptrs]
    by_cases contacted : x = sibling ∧ sibling ≠ i
    · obtain ⟨rfl, other⟩ := contacted
      have listed := (inv.thread parent known).child x (List.mem_of_getElem? talks.listed)
      rw [listed.2.1] at up
      obtain rfl := Option.some.inj up
      rw [if_pos ⟨rfl, other⟩]
      refine (countP_succ nodup own_member ?_ ?_ ?_).symm
      · simp [place, progress]
      · simp [place, talks.own, Ne.symm other]
      · intro j _ different
        rw [talks.others j different]
    · rw [if_neg contacted, Nat.add_zero]
      apply List.countP_congr
      intro j sibling_of_x
      by_cases own : j = i
      · subst own
        have up' := ((inv.thread q known').child j sibling_of_x).2.1
        rw [talks.up] at up'
        obtain rfl := Option.some.inj up'
        by_cases self : j = x
        · simp [self]
        · have different : (s.child_info parent).child_ptrs.idxOf x ≠ child := by
            intro same
            have found := List.getElem?_idxOf member
            rw [same, talks.listed] at found
            exact contacted ⟨(Option.some.inj found).symm, fun again => self (again ▸ Option.some.inj found)⟩
          rw [talks.own, progress]
          simp only [decide_eq_true_eq]
          omega
      · rw [talks.others j own]
  · intro x small waits
    rw [talks.node_count] at small
    obtain ⟨waited, _, more⟩ := talks.waits x waits
    have few := talk.waits x small waited
    rw [talks.counts]
    split_ifs with contacted
    · have last := more contacted.1
      omega
    · exact few

end talk
end ThreadTree
