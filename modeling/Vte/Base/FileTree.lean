import Mathlib.Data.List.Basic
import Mathlib.Data.List.Infix

/-!
File trees as what stands at each path: the objects below a directory, and the removal of everything in a region
but what is refused, which leaves the directories on the way to it.
-/
namespace FileTree
variable {N α : Type}

abbrev Files (N α : Type) := List (List N × α)

def kindAt [DecidableEq N] (l : Files N α) (p : List N) : Option α := (l.find? (·.1 = p)).map (·.2)

def children [DecidableEq N] (l : Files N α) (p : List N) : List N :=
  l.filterMap fun e => if e.1.dropLast = p then e.1.getLast? else none

def drop [DecidableEq N] (l : Files N α) (p : List N) : Files N α := l.filter (·.1 ≠ p)

/-- One object at a path, and a directory above each. -/
structure Tree (directory : α → Bool) (l : Files N α) : Prop where
  nodup : (l.map Prod.fst).Nodup
  closed : ∀ e ∈ l, e.1 ≠ [] → ∃ d ∈ l, d.1 = e.1.dropLast ∧ directory d.2

def Stays (refused : List N → Prop) (l : Files N α) (p : List N) : Prop := ∃ e ∈ l, p <+: e.1 ∧ refused e.1

/-- Of a region only what stays is left. -/
structure Pruned (refused region : List N → Prop) (l l' : Files N α) : Prop where
  sub : l'.Sublist l
  mem : ∀ e, e ∈ l' ↔ e ∈ l ∧ (region e.1 → Stays refused l e.1)

section tree
variable {directory : α → Bool} {l : Files N α} {p q : List N} {n : N} {a : α}

theorem Tree.parent (tree : Tree directory l) (member : (p ++ [n], a) ∈ l) :
    ∃ d, (p, d) ∈ l ∧ directory d = true := by
  obtain ⟨⟨_, d⟩, found, at_parent, is_directory⟩ := tree.closed _ member (by simp)
  rw [List.dropLast_concat] at at_parent
  exact ⟨d, at_parent ▸ found, is_directory⟩

theorem Tree.ancestor (tree : Tree directory l) (member : (q, a) ∈ l) (above : p <+: q) (other : p ≠ q) :
    ∃ d, (p, d) ∈ l ∧ directory d = true := by
  obtain ⟨t, rfl⟩ := above
  induction t using List.reverseRecOn generalizing a with
  | nil => exact absurd (List.append_nil p).symm other
  | append_singleton t n ih =>
    rw [← List.append_assoc] at member
    obtain ⟨d, found, is_directory⟩ := tree.parent member
    cases t with
    | nil => exact ⟨d, List.append_nil p ▸ found, is_directory⟩
    | cons m t => exact ih found (by simp)

variable [DecidableEq N]

theorem Tree.kindAt (tree : Tree directory l) : kindAt l p = some a ↔ (p, a) ∈ l := by
  have nodup := tree.nodup
  clear tree
  induction l with
  | nil => simp [FileTree.kindAt]
  | cons e l ih =>
    rw [List.map_cons, List.nodup_cons] at nodup
    by_cases same : e.1 = p
    · simp only [FileTree.kindAt, List.find?_cons, same, decide_true, Option.map_some, Option.some.injEq, List.mem_cons]
      constructor
      · rintro rfl
        exact .inl (by rw [← same])
      · rintro (rfl | later)
        · rfl
        · exact absurd (List.mem_map_of_mem later) (same ▸ nodup.1)
    · have first : (p, a) ≠ e := fun is_first => same (is_first ▸ rfl)
      simp only [FileTree.kindAt, List.find?_cons, same, decide_false, List.mem_cons, first, false_or]
      exact ih nodup.2

theorem mem_children : n ∈ children l p ↔ ∃ a, (p ++ [n], a) ∈ l := by
  simp only [children, List.mem_filterMap]
  constructor
  · rintro ⟨⟨q, a⟩, member, named⟩
    split at named
    · rename_i above
      refine ⟨a, ?_⟩
      rw [← above, List.dropLast_append_getLast? n named]
      exact member
    · cases named
  · rintro ⟨a, member⟩
    exact ⟨_, member, by simp⟩

theorem Tree.toward (tree : Tree directory l) (member : (q, a) ∈ l) (above : p <+: q) (other : p ≠ q) :
    ∃ n ∈ children l p, p ++ [n] <+: q := by
  obtain ⟨t, rfl⟩ := above
  cases t with
  | nil => exact absurd (List.append_nil p).symm other
  | cons n t =>
    have toward : p ++ [n] <+: p ++ n :: t := ⟨t, by simp⟩
    refine ⟨n, mem_children.mpr ?_, toward⟩
    by_cases last : p ++ [n] = p ++ n :: t
    · exact ⟨a, last ▸ member⟩
    · obtain ⟨d, found, _⟩ := tree.ancestor member toward last
      exact ⟨d, found⟩

theorem children_nodup (tree : Tree directory l) : (children l p).Nodup := by
  have nodup := tree.nodup
  clear tree
  induction l with
  | nil => exact List.nodup_nil
  | cons e l ih =>
    rw [List.map_cons, List.nodup_cons] at nodup
    rw [children, List.filterMap_cons]
    split
    · exact ih nodup.2
    · rename_i n named
      refine List.nodup_cons.mpr ⟨fun again => ?_, ih nodup.2⟩
      obtain ⟨a, member⟩ := mem_children.mp again
      split at named
      · rename_i above
        have whole := List.dropLast_append_getLast? n named
        rw [above] at whole
        exact nodup.1 (whole ▸ List.mem_map_of_mem member)
      · cases named

theorem mem_drop {e : List N × α} : e ∈ drop l p ↔ e ∈ l ∧ e.1 ≠ p := by
  simp [drop, List.mem_filter]

end tree

section pruning
variable {directory : α → Bool} {refused region region' : List N → Prop} {l l' l'' : Files N α} {p q : List N}

theorem Stays.above (stays : Stays refused l q) (above : p <+: q) : Stays refused l p := by
  obtain ⟨e, member, below, is_refused⟩ := stays
  exact ⟨e, member, above.trans below, is_refused⟩

theorem Pruned.stays (pruned : Pruned refused region l l') : Stays refused l' p ↔ Stays refused l p := by
  constructor
  · rintro ⟨e, member, below, is_refused⟩
    exact ⟨e, pruned.sub.subset member, below, is_refused⟩
  · rintro ⟨e, member, below, is_refused⟩
    have left : e ∈ l' := (pruned.mem e).mpr ⟨member, fun _ => ⟨e, member, List.prefix_refl _, is_refused⟩⟩
    exact ⟨e, left, below, is_refused⟩

theorem Pruned.refl (none : ∀ e ∈ l, region e.1 → Stays refused l e.1) : Pruned refused region l l :=
  ⟨List.Sublist.refl l, fun e => ⟨fun member => ⟨member, none e member⟩, And.left⟩⟩

theorem Pruned.trans (first : Pruned refused region l l') (second : Pruned refused region' l' l'') :
    Pruned refused (fun p => region p ∨ region' p) l l'' := by
  refine ⟨second.sub.trans first.sub, fun e => ?_⟩
  rw [second.mem, first.mem, first.stays]
  tauto

theorem Pruned.congr (pruned : Pruned refused region l l') (same : ∀ e ∈ l, region e.1 ↔ region' e.1) :
    Pruned refused region' l l' := by
  refine ⟨pruned.sub, fun e => ?_⟩
  rw [pruned.mem]
  exact and_congr_right fun member => by rw [same e member]

theorem Pruned.tree (pruned : Pruned refused region l l') (tree : Tree directory l)
    (downward : ∀ p n, region p → region (p ++ [n])) : Tree directory l' := by
  refine ⟨tree.nodup.sublist (pruned.sub.map _), fun e member below => ?_⟩
  obtain ⟨in_l, kept⟩ := (pruned.mem e).mp member
  obtain ⟨d, found, at_parent, is_directory⟩ := tree.closed e in_l below
  refine ⟨d, (pruned.mem d).mpr ⟨found, fun inside => ?_⟩, at_parent, is_directory⟩
  have whole := List.dropLast_append_getLast below
  rw [at_parent] at inside ⊢
  have stays : Stays refused l e.1 := kept (whole ▸ downward _ _ inside)
  exact stays.above (List.dropLast_prefix e.1)

end pruning
end FileTree
