import Vte.Sched.Handshake
import Vte.Sched.ProcessSlots

/-!
Where each process of the tree is: the copied calls of `spawn` it still has, and which of its children it has
forked.
-/
namespace Handshake
open Function HeapTree Process

structure Fits (p : Params) (b d : Nat) : Prop where
  shape : Shape p.args b d
  breadth : p.BVAL = b
  depth : p.DVAL = d

theorem fits_of_shape {p : Params} {b d : Nat} (shape : Shape p.args b d) : Fits p b d := by
  refine ⟨shape, ?_, ?_⟩
  · rw [Params.BVAL, shape.breadth, Int.toNat_natCast]
  · rw [Params.DVAL, shape.depth, Int.toNat_natCast]

section levels
variable {b d n v l : Nat}

/-- The number `v` is on the level `l`. -/
def Level (b l v : Nat) : Prop := nodes b l ≤ v ∧ v < nodes b (l + 1)

theorem exists_level (inside : v < nodes b n) : ∃ l < n, Level b l v := by
  induction n with
  | zero =>
    rw [nodes_zero] at inside
    omega
  | succ n ih =>
    by_cases early : v < nodes b n
    · obtain ⟨l, small, level⟩ := ih early
      exact ⟨l, by omega, level⟩
    · exact ⟨n, Nat.lt_succ_self n, by omega, inside⟩

theorem level_unique {l' : Nat} (level : Level b l v) (level' : Level b l' v) : l = l' := by
  rcases Nat.lt_trichotomy l l' with before | same | after
  · have mono : nodes b (l + 1) ≤ nodes b l' := nodes_mono b before
    exact absurd level.2 (by have low := level'.1; omega)
  · exact same
  · have mono : nodes b (l' + 1) ≤ nodes b l := nodes_mono b after
    exact absurd level'.2 (by have low := level.1; omega)

theorem level_lt_iff (level : Level b l v) (n : Nat) : v < nodes b n ↔ l < n := by
  constructor
  · intro inside
    obtain ⟨l', small, level'⟩ := exists_level inside
    rw [level_unique level level']
    exact small
  · intro small
    have mono : nodes b (l + 1) ≤ nodes b n := nodes_mono b small
    have high := level.2
    omega

theorem level_child {c : Nat} (level : Level b l v) (child : c ∈ children b v) : Level b (l + 1) c := by
  obtain ⟨low, high⟩ := mem_children.mp child
  have start : nodes b l * b ≤ v * b := Nat.mul_le_mul_right b level.1
  have finish : (v + 1) * b ≤ nodes b (l + 1) * b := Nat.mul_le_mul_right b level.2
  rw [Nat.succ_mul] at finish
  rw [Level, nodes_children b l, nodes_children b (l + 1)]
  omega

theorem level_parent {t : Nat} (some_child : 0 < b) (level : Level b (l + 1) t) : Level b l (parent b t) := by
  have low := level.1
  have high := level.2
  rw [nodes_children] at low high
  obtain ⟨after, before⟩ := mem_children.mp (child_of_parent (t := t) some_child (by omega))
  constructor
  · have fewer : nodes b l * b < (parent b t + 1) * b := by
      rw [Nat.succ_mul]
      omega
    have order := Nat.lt_of_mul_lt_mul_right fewer
    omega
  · have fewer : parent b t * b < nodes b (l + 1) * b := by omega
    exact Nat.lt_of_mul_lt_mul_right fewer

theorem level_zero : Level b 0 0 := ⟨Nat.le_refl 0, nodes_pos b 0⟩

end levels

section slots
variable {p : Params} {b d : Nat}

theorem sem_num_eq (fits : Fits p b d) (slot : Nat) : semNum p slot = parent b slot := by
  by_cases root : slot = 0
  · subst root
    rw [semNum, Nat.cast_zero, semoper_first fits.shape, parent, Nat.zero_sub, Nat.zero_div]
    rfl
  · rw [semNum, semoper_parent fits.shape (by omega), Int.toNat_natCast]

theorem entries_siblings {slot : Nat} (fits : Fits p b d) (later : 0 < slot) :
    entries p.args slot = (parent b slot :: siblingsOf b slot).map Nat.cast := by
  rw [entries_eq fits.shape later, tvals_children fits.shape, List.filter_map, List.map_cons]
  congr 2
  exact List.filter_congr fun t _ => by simp

variable (p) in
theorem returns_doit {r : Int} {frames : List Frame} (tval : Nat) (other : r ≠ -1)
    (zero : ∀ f ∈ frames, f.pslot = 0) :
    (returns p r frames tval).1 = .doit ∧ (returns p r frames tval).2.1 = [] := by
  induction frames generalizing r tval with
  | nil => exact ⟨rfl, rfl⟩
  | cons f rest ih =>
    rw [returns, if_neg other]
    apply ih
    · rw [zero f (by simp)]
      decide
    · exact fun g member => zero g (List.mem_cons_of_mem f member)

end slots

section tree
variable (b d : Nat)

def Place (l v : Nat) (pr : Proc) : Prop :=
  match pr.pc with
  | .absent | .doit | .exited => True
  | .start => pr.level = l ∧ pr.frames.length = l ∧ (v ≠ 0 → pr.tval = v)
  | .fork => l < d ∧ pr.level = l + 1 ∧
      ∃ f rest, pr.frames = f :: rest ∧ rest.length = l ∧ f.val = v ∧ 1 ≤ f.i ∧ f.i ≤ b
  | .send i => l = d ∧ pr.tval = v ∧ pr.frames.length = d ∧ 1 ≤ i ∧ i < b
  | .receive cldcnt => l = d ∧ pr.tval = v ∧ pr.frames.length = d ∧ 1 ≤ cldcnt ∧ cldcnt < b
  | .semZero => l < d ∧ pr.tval = v * b + b ∧ pr.frames ≠ []
  | .lock slot => slot = v ∧ pr.frames ≠ []
  | .getval pslot | .setval pslot _ | .unlock pslot => pslot = parent b v ∧ pr.frames ≠ []

def made (v : Nat) (pr : Proc) : Nat :=
  if v < nodes b d then
    match pr.pc with
    | .absent | .start => 0
    | .fork => (pr.frames.head?.map fun f => f.i - 1).getD 0
    | _ => b
  else 0

structure Tree (s : State) : Prop where
  root : (s.proc 0).pc ≠ .absent
  beyond : ∀ v, nodes b (d + 1) ≤ v → (s.proc v).pc = .absent
  place : ∀ v l, Level b l v → l ≤ d → Place b d l v (s.proc v)
  pslot : ∀ v, ∀ f ∈ (s.proc v).frames, f.pslot = 0
  forked : ∀ v, ∀ c ∈ children b v, ((s.proc c).pc ≠ .absent ↔ c < v * b + 1 + made b d v (s.proc v))

end tree

section keeps
variable {p : Params} {b d v l : Nat} {s t : State} {pr : Proc}

theorem Tree.level (tree : Tree b d s) (present : (s.proc v).pc ≠ .absent) : ∃ l ≤ d, Level b l v := by
  have inside : v < nodes b (d + 1) := by
    by_contra outside
    exact present (tree.beyond v (by omega))
  obtain ⟨l, small, level⟩ := exists_level inside
  exact ⟨l, by omega, level⟩

theorem Tree.put (tree : Tree b d s) (level : Level b l v) (present : (s.proc v).pc ≠ .absent)
    (there : pr.pc ≠ .absent) (place : Place b d l v pr) (pslot : ∀ f ∈ pr.frames, f.pslot = 0)
    (same_made : made b d v pr = made b d v (s.proc v)) (procs : t.proc = update s.proc v pr) :
    Tree b d t := by
  have absent_iff : ∀ w, (t.proc w).pc ≠ .absent ↔ (s.proc w).pc ≠ .absent := by
    intro w
    rw [procs]
    by_cases own : w = v
    · subst own
      rw [update_self]
      exact iff_of_true there present
    · rw [update_of_ne own]
  have mades : ∀ w, made b d w (t.proc w) = made b d w (s.proc w) := by
    intro w
    rw [procs]
    by_cases own : w = v
    · subst own
      rw [update_self]
      exact same_made
    · rw [update_of_ne own]
  constructor
  · exact (absent_iff 0).mpr tree.root
  · intro w outside
    by_contra some_proc
    exact (absent_iff w).mp some_proc (tree.beyond w outside)
  · intro w l' level' small
    rw [procs]
    by_cases own : w = v
    · subst own
      rw [update_self, level_unique level' level]
      exact place
    · rw [update_of_ne own]
      exact tree.place w l' level' small
  · intro w
    rw [procs]
    by_cases own : w = v
    · subst own
      rw [update_self]
      exact pslot
    · rw [update_of_ne own]
      exact tree.pslot w
  · intro w c child
    rw [absent_iff, mades]
    exact tree.forked w c child

end keeps

section fork
variable {p : Params} {b d v : Nat} {s t : State}

theorem child_gt {c : Nat} (wide : 0 < b) (child : c ∈ children b v) : v < c := by
  have low := (mem_children.mp child).1
  have product := Nat.le_mul_of_pos_right v wide
  omega

/-- The turn of the loop that forks the child `c`. -/
structure Forks (p : Params) (b d : Nat) (s t : State) (v l c : Nat) (f : Frame) (rest : List Frame)
    (pr : Proc) : Prop where
  place : (s.proc v).pc = .fork
  level : Level b l v
  inner : l < d
  frames : (s.proc v).frames = f :: rest
  number : c = v * b + f.i
  turn : 1 ≤ f.i ∧ f.i ≤ b
  procs : t.proc = update (update s.proc c ⟨l + 1, c, f :: rest, .start⟩) v pr
  depth : rest.length = l
  others : t = { s with proc := t.proc }
  next : Place b d l v pr
  pslot : ∀ g ∈ pr.frames, g.pslot = 0
  goes_on : pr.pc = .fork ∨ pr.pc = .semZero
  count : made b d v pr = f.i

theorem fork_cases (fits : Fits p b d) (tree : Tree b d s) (place : (s.proc v).pc = .fork)
    (taken : fork p s v = some t) : ∃ l c f rest pr, Forks p b d s t v l c f rest pr := by
  obtain ⟨l, small, level⟩ := tree.level (v := v) (by rw [place]; decide)
  have here := tree.place v l level small
  have pslot := tree.pslot v
  rw [Place, place] at here
  obtain ⟨inner, static, f, rest, frames, depth, val, turn⟩ := here
  have early := (level_lt_iff level d).mpr inner
  unfold fork at taken
  rw [frames] at pslot
  simp only [frames, fits.breadth, val, static] at taken
  split at taken
  · rename_i more
    obtain rfl := Option.some.inj taken
    refine ⟨l, v * b + f.i, f, rest, _, place, level, inner, frames, rfl, turn, rfl, depth, rfl, ?_, ?_, .inl place, ?_⟩
    · rw [Place, place]
      exact ⟨inner, rfl, _, _, rfl, depth, rfl, by simp only; omega, more⟩
    · intro g member
      rcases List.mem_cons.mp member with rfl | later
      · exact pslot f (by simp)
      · exact pslot g (List.mem_cons_of_mem f later)
    · rw [made, if_pos early]
      simp [place]
  · rename_i last
    obtain rfl := Option.some.inj taken
    have all : f.i = b := by omega
    refine ⟨l, v * b + f.i, f, rest, _, place, level, inner, frames, rfl, turn, rfl, depth, rfl, ?_, ?_, .inr rfl, ?_⟩
    · exact ⟨inner, by rw [all], by simp⟩
    · exact pslot
    · rw [made, if_pos early, all]

theorem Forks.child {l c : Nat} {f : Frame} {rest : List Frame} {pr : Proc}
    (forks : Forks p b d s t v l c f rest pr) : c ∈ children b v := by
  obtain ⟨low, high⟩ := forks.turn
  rw [mem_children, forks.number]
  omega

theorem Forks.absent {l c : Nat} {f : Frame} {rest : List Frame} {pr : Proc} (tree : Tree b d s)
    (forks : Forks p b d s t v l c f rest pr) : (s.proc c).pc = .absent := by
  have early := (level_lt_iff forks.level d).mpr forks.inner
  have turn := forks.turn.1
  have so_far : made b d v (s.proc v) = f.i - 1 := by
    rw [made, if_pos early, forks.place, forks.frames]
    rfl
  by_contra present
  have before := (tree.forked v c forks.child).mp present
  rw [so_far, forks.number] at before
  omega

theorem Forks.tree {l c : Nat} {f : Frame} {rest : List Frame} {pr : Proc} (fits : Fits p b d)
    (tree : Tree b d s) (forks : Forks p b d s t v l c f rest pr) : Tree b d t := by
  have wide := fits.shape.wide
  have child := forks.child
  have later := child_gt (by omega) child
  have turn := forks.turn.1
  have absent := forks.absent tree
  have child_level := level_child forks.level child
  have early := (level_lt_iff forks.level d).mpr forks.inner
  have old : ∀ w, w ≠ v → w ≠ c → t.proc w = s.proc w := by
    intro w not_own not_child
    rw [forks.procs, update_of_ne not_own, update_of_ne not_child]
  have own : t.proc v = pr := by rw [forks.procs, update_self]
  have new : t.proc c = ⟨l + 1, c, f :: rest, .start⟩ := by
    rw [forks.procs, update_of_ne (by omega), update_self]
  have present : (s.proc v).pc ≠ .absent := by
    rw [forks.place]
    decide
  have still : pr.pc ≠ .absent := by
    rcases forks.goes_on with next | next <;>
      · rw [next]
        decide
  have absent_iff : ∀ w, (t.proc w).pc ≠ .absent ↔ w = c ∨ (s.proc w).pc ≠ .absent := by
    intro w
    by_cases is_child : w = c
    · subst is_child
      rw [new]
      exact iff_of_true (by simp) (.inl rfl)
    · by_cases is_own : w = v
      · subst is_own
        rw [own]
        exact iff_of_true still (.inr present)
      · rw [old w is_own is_child]
        exact ⟨.inr, fun either => either.resolve_left is_child⟩
  constructor
  · exact (absent_iff 0).mpr (.inr tree.root)
  · intro w outside
    by_contra some_proc
    rcases (absent_iff w).mp some_proc with rfl | before
    · have inside := (level_lt_iff child_level (d + 1)).mpr (by have inner := forks.inner; omega)
      omega
    · exact before (tree.beyond w outside)
  · intro w l' level' small
    by_cases is_child : w = c
    · subst is_child
      rw [new, level_unique level' child_level]
      exact ⟨rfl, by rw [List.length_cons, forks.depth], fun _ => rfl⟩
    · by_cases is_own : w = v
      · subst is_own
        rw [own, level_unique level' forks.level]
        exact forks.next
      · rw [old w is_own is_child]
        exact tree.place w l' level' small
  · intro w g member
    by_cases is_child : w = c
    · subst is_child
      rw [new, ← forks.frames] at member
      exact tree.pslot v g member
    · by_cases is_own : w = v
      · subst is_own
        rw [own] at member
        exact forks.pslot g member
      · rw [old w is_own is_child] at member
        exact tree.pslot w g member
  · intro w c' child'
    have later' := child_gt (by omega) child'
    rw [absent_iff]
    by_cases is_own : w = v
    · subst is_own
      have so_far : made b d w (s.proc w) = f.i - 1 := by
        rw [made, if_pos early, forks.place, forks.frames]
        rfl
      have before := tree.forked w c' child'
      have number := forks.number
      rw [so_far] at before
      rw [own, forks.count, before]
      omega
    · have different : c' ≠ c := by
        rintro rfl
        exact is_own ((parent_child child').symm.trans (parent_child child))
      have before := tree.forked w c' child'
      rw [before]
      by_cases is_child : w = c
      · subst is_child
        have none_before : made b d w (s.proc w) = 0 := by
          rw [made, absent]
          split <;> rfl
        have none_after : made b d w (t.proc w) = 0 := by
          rw [made, new]
          split <;> rfl
        rw [none_before, none_after]
        exact ⟨fun either => either.resolve_left different, .inr⟩
      · rw [old w is_own is_child]
        exact ⟨fun either => either.resolve_left different, .inr⟩

end fork
end Handshake
