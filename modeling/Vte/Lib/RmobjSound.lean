import Vte.Lib.Rmobj

/-!
`rmobj` removes all that the kernel lets it remove, and nothing else; the paths of the objects that stay have to be
short enough for its messages.
-/
namespace Rmobj
open Text FileTree

section objects
variable {k : Kernel} {top p q : List Str} {fs fs' : Fs} {kind : Kind} {links e : Nat} {call : Call} {names : List Str}

theorem enter_directory (wf : WellFormed fs) (found : (p, .directory links) ∈ fs) : enter fs p = p := by
  rw [enter, wf.tree.kindAt.mpr found]

theorem place_found (wf : WellFormed fs) (found : (top ++ names, kind) ∈ fs) : place fs top names = top ++ names := by
  induction names generalizing top with
  | nil => rw [place, List.append_nil]
  | cons name names ih =>
    obtain ⟨d, above, is_directory⟩ := wf.tree.ancestor found (List.prefix_append _ _) (by simp)
    cases d with
    | directory links =>
      have whole : top ++ name :: names = top ++ [name] ++ names := by rw [List.append_assoc, List.singleton_append]
      rw [whole] at found
      rw [place, enter_directory wf above, ih found, whole]
    | symlink | other => cases is_directory

theorem lstat_found (wf : WellFormed fs) (found : (p, kind) ∈ fs) (seen : k.unseen p = none) :
    lstat k fs p = .ok kind := by
  rw [lstat, seen, wf.tree.kindAt.mpr found]

theorem leaf_alone (wf : WellFormed fs) (found : (p, kind) ∈ fs) (leaf : kind.isDirectory = false) :
    ∀ e ∈ fs, p <+: e.1 → e.1 = p := by
  intro e member below
  by_contra other
  obtain ⟨d, above, is_directory⟩ := wf.tree.ancestor member below (Ne.symm other)
  have same : some d = some kind := (wf.tree.kindAt.mpr above).symm.trans (wf.tree.kindAt.mpr found)
  rw [Option.some.inj same, leaf] at is_directory
  cases is_directory

theorem empty_alone (wf : WellFormed fs) (empty : children fs p = []) : ∀ e ∈ fs, p <+: e.1 → e.1 = p := by
  intro e member below
  by_contra other
  obtain ⟨name, is_child, _⟩ := wf.tree.toward member below (Ne.symm other)
  rw [empty] at is_child
  cases is_child

theorem wf_pruned {region : List Str → Prop} (wf : WellFormed fs) (pruned : Pruned (Refuses k top) region fs fs')
    (downward : ∀ p n, region p → region (p ++ [n])) : WellFormed fs' :=
  ⟨pruned.tree wf.tree downward, fun e member => wf.proper e (pruned.sub.subset member)⟩

theorem refuses_reached (reached : Reached k top p) (seen : k.unseen p = none) :
    Refuses k top p ↔ k.refused p ≠ none := by
  refine ⟨fun refuses => ?_, .inl⟩
  rcases refuses with refused | ⟨q, from_top, above, closed⟩
  · exact refused
  · by_cases same : q = p
    · subst same
      exact absurd seen (closed.elim id fun below => absurd rfl below.1)
    · have open_there := reached q from_top above same
      rcases closed with unseen | ⟨_, unlisted⟩
      · exact absurd open_there.1 unseen
      · exact absurd open_there.2 unlisted

theorem reached_below (reached : Reached k top p) (seen : k.unseen p = none) (listed : k.unlisted p = none)
    (name : Str) : Reached k top (p ++ [name]) := by
  intro q from_top above other
  rcases List.prefix_concat_iff.mp above with whole | inside
  · exact absurd whole other
  · by_cases same : q = p
    · exact same ▸ ⟨seen, listed⟩
    · exact reached q from_top inside same

theorem fails_congr (same : ∀ e : List Str × Kind, p <+: e.1 → (e ∈ fs' ↔ e ∈ fs)) :
    Fails k top fs' p call e ↔ Fails k top fs p call e := by
  have below {fs fs' : Fs} (same : ∀ e : List Str × Kind, p <+: e.1 → (e ∈ fs' ↔ e ∈ fs)) (name : Str) :
      name ∈ children fs' p → name ∈ children fs p := by
    intro member
    obtain ⟨kind, found⟩ := mem_children.mp member
    exact mem_children.mpr ⟨kind, (same _ (List.prefix_append _ _)).mp found⟩
  have one {fs fs' : Fs} (same : ∀ e : List Str × Kind, p <+: e.1 → (e ∈ fs' ↔ e ∈ fs))
      (fails : Fails k top fs' p call e) : Fails k top fs p call e := by
    have back := fun e below => (same e below).symm
    cases fails with
    | lstat reached found unseen => exact .lstat reached ((same _ (List.prefix_refl _)).mp found) unseen
    | rmdir reached found seen unlisted refused =>
      refine .rmdir reached ((same _ (List.prefix_refl _)).mp found) seen unlisted ?_
      exact refused.imp_right fun ⟨free, value, name, member⟩ => ⟨free, value, name, below same name member⟩
    | remove reached found seen listed empties refused =>
      refine .remove reached ((same _ (List.prefix_refl _)).mp found) seen listed (fun name member stays => ?_) refused
      obtain ⟨e, in_fs, under, refuses⟩ := stays
      have in_fs' := (same e ((List.prefix_append p [name]).trans under)).mpr in_fs
      exact empties name (below back name member) ⟨e, in_fs', under, refuses⟩
    | unlink reached found leaf seen refused =>
      exact .unlink reached ((same _ (List.prefix_refl _)).mp found) leaf seen refused
  exact ⟨one same, one fun e below => (same e below).symm⟩

theorem fails_found (fails : Fails k top fs p call e) : ∃ kind, (p, kind) ∈ fs := by
  cases fails with
  | lstat _ found _ => exact ⟨_, found⟩
  | rmdir _ found _ _ _ => exact ⟨_, found⟩
  | remove _ found _ _ _ _ => exact ⟨_, found⟩
  | unlink _ found _ _ _ => exact ⟨_, found⟩

theorem fails_reached (fails : Fails k top fs p call e) : Reached k top p := by
  cases fails <;> assumption

end objects

def Left (k : Kernel) (top : List Str) (region : List Str → Prop) (fs : Fs) : Prop :=
  ∃ e ∈ fs, region e.1 ∧ Stays (Refuses k top) fs e.1

/-- Everything in the region is removed but what stays, and each call that fails there is reported. -/
structure Does (k : Kernel) (top : List Str) (obj : Str) (region : List Str → Prop) (s s' : State) : Prop where
  pruned : Pruned (Refuses k top) region s.fs s'.fs
  errmsg : s.errmsg ≠ none → s'.errmsg ≠ none
  dirobjs : ∀ path ∈ s'.dirobjs, path ∈ s.dirobjs ∨ ∃ names kind, (top ++ names, kind) ∈ s.fs ∧ path = text obj names
  messages : ∀ m, m ∈ s'.messages ↔ m ∈ s.messages ∨
    ∃ names call e, region (top ++ names) ∧ Fails k top s.fs (top ++ names) call e ∧ m = message k obj call names e

structure Removes (k : Kernel) (top : List Str) (obj : Str) (region : List Str → Prop) (s : State) (r : Int × State) :
    Prop where
  does : Does k top obj region s r.2
  value : r.1 = 0 ∧ ¬ Left k top region s.fs ∨ r.1 = -1 ∧ Left k top region s.fs ∧ r.2.errmsg ≠ none

section parts
variable {k : Kernel} {top p : List Str} {obj : Str} {region region' : List Str → Prop} {fs fs' : Fs}
  {s s' s'' : State} {r : Int × State} {kind : Kind} {names : List Str} {call : Call} {e : Nat}

theorem left_pruned (pruned : Pruned (Refuses k top) region fs fs') :
    Left k top region' fs' ↔ Left k top region' fs := by
  constructor
  · rintro ⟨e, member, inside, stays⟩
    exact ⟨e, pruned.sub.subset member, inside, pruned.stays.mp stays⟩
  · rintro ⟨e, member, inside, stays⟩
    exact ⟨e, (pruned.mem e).mpr ⟨member, fun _ => stays⟩, inside, pruned.stays.mpr stays⟩

theorem left_or : Left k top (fun q => region q ∨ region' q) fs ↔ Left k top region fs ∨ Left k top region' fs := by
  constructor
  · rintro ⟨e, member, inside | inside, stays⟩
    · exact .inl ⟨e, member, inside, stays⟩
    · exact .inr ⟨e, member, inside, stays⟩
  · rintro (⟨e, member, inside, stays⟩ | ⟨e, member, inside, stays⟩)
    · exact ⟨e, member, .inl inside, stays⟩
    · exact ⟨e, member, .inr inside, stays⟩

theorem left_congr (same : ∀ e ∈ fs, region e.1 ↔ region' e.1) : Left k top region fs ↔ Left k top region' fs := by
  constructor
  · rintro ⟨e, member, inside, stays⟩
    exact ⟨e, member, (same e member).mp inside, stays⟩
  · rintro ⟨e, member, inside, stays⟩
    exact ⟨e, member, (same e member).mpr inside, stays⟩

theorem Does.refl (stay : ∀ e ∈ s.fs, region e.1 → Stays (Refuses k top) s.fs e.1)
    (silent : ∀ q call e, region q → ¬ Fails k top s.fs q call e) : Does k top obj region s s := by
  refine ⟨Pruned.refl stay, id, fun _ => .inl, fun m => ⟨.inl, fun reported => reported.elim id ?_⟩⟩
  rintro ⟨names, call, e, inside, fails, _⟩
  exact absurd fails (silent _ _ _ inside)

theorem Does.trans (first : Does k top obj region s s') (second : Does k top obj region' s' s'')
    (same : ∀ q call e, region' q → (Fails k top s'.fs q call e ↔ Fails k top s.fs q call e)) :
    Does k top obj (fun q => region q ∨ region' q) s s'' := by
  refine ⟨first.pruned.trans second.pruned, second.errmsg ∘ first.errmsg, fun path member => ?_, fun m => ?_⟩
  · rcases second.dirobjs path member with before | ⟨names, kind, found, formed⟩
    · exact first.dirobjs path before
    · exact .inr ⟨names, kind, first.pruned.sub.subset found, formed⟩
  · rw [second.messages, first.messages]
    constructor
    · rintro ((before | ⟨names, call, e, inside, fails, formed⟩) | ⟨names, call, e, inside, fails, formed⟩)
      · exact .inl before
      · exact .inr ⟨names, call, e, .inl inside, fails, formed⟩
      · exact .inr ⟨names, call, e, .inr inside, (same _ _ _ inside).mp fails, formed⟩
    · rintro (before | ⟨names, call, e, inside | inside, fails, formed⟩)
      · exact .inl (.inl before)
      · exact .inl (.inr ⟨names, call, e, inside, fails, formed⟩)
      · exact .inr ⟨names, call, e, inside, (same _ _ _ inside).mpr fails, formed⟩

theorem Does.congr (does : Does k top obj region s s') (same : ∀ e ∈ s.fs, region e.1 ↔ region' e.1) :
    Does k top obj region' s s' := by
  refine ⟨does.pruned.congr same, does.errmsg, does.dirobjs, fun m => ?_⟩
  rw [does.messages]
  refine or_congr_right ⟨?_, ?_⟩
  · rintro ⟨names, call, e, inside, fails, formed⟩
    obtain ⟨kind, found⟩ := fails_found fails
    exact ⟨names, call, e, (same _ found).mp inside, fails, formed⟩
  · rintro ⟨names, call, e, inside, fails, formed⟩
    obtain ⟨kind, found⟩ := fails_found fails
    exact ⟨names, call, e, (same _ found).mpr inside, fails, formed⟩

theorem Removes.after (first : Does k top obj region s s') (free : ¬ Left k top region s.fs)
    (second : Removes k top obj region' s' r)
    (same : ∀ q call e, region' q → (Fails k top s'.fs q call e ↔ Fails k top s.fs q call e)) :
    Removes k top obj (fun q => region q ∨ region' q) s r := by
  refine ⟨first.trans second.does same, ?_⟩
  have later : Left k top region' s'.fs ↔ Left k top region' s.fs := left_pruned first.pruned
  rw [left_or, ← later]
  rcases second.value with ⟨value, none_left⟩ | ⟨value, some_left, set⟩
  · exact .inl ⟨value, fun left => left.elim free none_left⟩
  · exact .inr ⟨value, .inr some_left, set⟩

theorem Removes.congr (removes : Removes k top obj region s r) (same : ∀ e ∈ s.fs, region e.1 ↔ region' e.1) :
    Removes k top obj region' s r := by
  refine ⟨removes.does.congr same, ?_⟩
  rw [← left_congr same]
  exact removes.value

theorem Does.formatted (does : Does k top obj region { s with dirobjs := s.dirobjs ++ [text obj names] } s')
    (found : (top ++ names, kind) ∈ s.fs) : Does k top obj region s s' := by
  refine ⟨does.pruned, does.errmsg, fun path member => ?_, does.messages⟩
  rcases does.dirobjs path member with before | formed
  · rcases List.mem_append.mp before with before | last
    · exact .inl before
    · exact .inr ⟨names, kind, found, List.mem_singleton.mp last⟩
  · exact .inr formed

theorem removes_fail (found : (top ++ names, kind) ∈ s.fs)
    (stay : ∀ e ∈ s.fs, top ++ names <+: e.1 → Stays (Refuses k top) s.fs e.1)
    (fails : Fails k top s.fs (top ++ names) call e)
    (only : ∀ names' call' e', Fails k top s.fs (top ++ names') call' e' → top ++ names <+: top ++ names' →
      names' = names ∧ call' = call ∧ e' = e) :
    Removes k top obj (top ++ names <+: ·) s (-1, report true (message k obj call names e) s) := by
  refine ⟨⟨Pruned.refl stay, fun _ => by simp [report], fun _ => .inl, fun m => ?_⟩,
    .inr ⟨rfl, ⟨_, found, List.prefix_refl _, stay _ found (List.prefix_refl _)⟩, by simp [report]⟩⟩
  simp only [report, if_true, List.mem_append, List.mem_singleton]
  refine or_congr_right ⟨fun formed => ⟨names, call, e, List.prefix_refl _, fails, formed⟩, ?_⟩
  rintro ⟨names', call', e', inside, fails', formed⟩
  obtain ⟨rfl, rfl, rfl⟩ := only names' call' e' fails' inside
  exact formed

theorem removes_take (found : (top ++ names, kind) ∈ s.fs) (alone : ∀ e ∈ s.fs, top ++ names <+: e.1 → e.1 = top ++ names)
    (reached : Reached k top (top ++ names)) (seen : k.unseen (top ++ names) = none)
    (only : ∀ call' e', Fails k top s.fs (top ++ names) call' e' ↔ k.refused (top ++ names) = some e' ∧ call' = call) :
    Removes k top obj (top ++ names <+: ·) s (finish k obj true call names (take k s.fs (top ++ names)) s) := by
  have refuses := refuses_reached reached seen
  have stays : Stays (Refuses k top) s.fs (top ++ names) ↔ k.refused (top ++ names) ≠ none := by
    rw [← refuses]
    refine ⟨fun ⟨e, member, below, is_refused⟩ => ?_, fun is_refused => ⟨_, found, List.prefix_refl _, is_refused⟩⟩
    rw [alone e member below] at is_refused
    exact is_refused
  cases refused : k.refused (top ++ names) with
  | some e =>
    simp only [take, refused, finish]
    refine removes_fail found (fun e member below => ?_) ((only call e).mpr ⟨refused, rfl⟩)
      fun names' call' e' fails below => ?_
    · rw [alone e member below]
      exact stays.mpr (by simp [refused])
    · obtain ⟨kind', found'⟩ := fails_found fails
      have same : names' = names := List.append_cancel_left (alone _ found' below)
      subst same
      obtain ⟨refused', same_call⟩ := (only call' e').mp fails
      rw [refused] at refused'
      exact ⟨rfl, same_call, (Option.some.inj refused').symm⟩
  | none =>
    simp only [take, refused, finish]
    have free : ¬ Stays (Refuses k top) s.fs (top ++ names) := by
      rw [stays, refused]
      exact fun stays => stays rfl
    refine ⟨⟨⟨List.filter_sublist, fun e => ?_⟩, id, fun _ => .inl, fun m => ?_⟩, .inl ⟨rfl, ?_⟩⟩
    · rw [mem_drop]
      refine and_congr_right fun member => ⟨fun other below => absurd (alone e member below) other, fun kept same => ?_⟩
      rw [same] at kept
      exact free (kept (List.prefix_refl _))
    · refine ⟨.inl, fun reported => reported.elim id ?_⟩
      rintro ⟨names', call', e', below, fails, _⟩
      obtain ⟨kind', found'⟩ := fails_found fails
      have same : top ++ names' = top ++ names := alone _ found' below
      rw [same, only, refused] at fails
      cases fails.1
    · rintro ⟨e, member, below, stays⟩
      rw [alone e member below] at stays
      exact free stays

end parts

section recursion
variable {k : Kernel} {top : List Str} {obj : Str} {names : List Str}

/-- What `rmobj` does with the objects in a directory is what the loop needs. -/
def Recurs (k : Kernel) (top : List Str) (obj : Str) (limit : Nat) (rmobj : List Str → State → Option (Int × State)) :
    Prop :=
  ∀ names s kind, WellFormed s.fs → (∀ names' kind', (top ++ names', kind') ∈ s.fs → names'.length < limit + names.length) →
    (top ++ names, kind) ∈ s.fs → Reached k top (top ++ names) →
    ∃ r, rmobj names s = some r ∧ Removes k top obj (top ++ names <+: ·) s r

theorem concat_prefix_ne {p q : List Str} {n m : Str} (one : p ++ [n] <+: q) (other : p ++ [m] <+: q) : n = m := by
  have same := List.prefix_of_prefix_length_le one other (by simp)
  have whole := same.eq_of_length (by simp)
  exact (List.append_inj' whole rfl).2 |> List.singleton_inj.mp

theorem entries_spec {limit : Nat} {rmobj : List Str → State → Option (Int × State)}
    (recurs : Recurs k top obj limit rmobj) (seen : ∀ name, Reached k top (top ++ (names ++ [name]))) :
    ∀ stream ret_val s, WellFormed s.fs →
      (∀ names' kind', (top ++ names', kind') ∈ s.fs → names'.length < limit + (names.length + 1)) →
      stream.Nodup → (∀ name ∈ stream, ∃ kind, (top ++ (names ++ [name]), kind) ∈ s.fs) →
      ∃ r, entries obj rmobj names stream ret_val s = some r ∧
        Does k top obj (fun q => ∃ name ∈ stream, top ++ (names ++ [name]) <+: q) s r.2 ∧
        (r.1 = ret_val ∧ ¬ Left k top (fun q => ∃ name ∈ stream, top ++ (names ++ [name]) <+: q) s.fs ∨
          r.1 = -1 ∧ Left k top (fun q => ∃ name ∈ stream, top ++ (names ++ [name]) <+: q) s.fs ∧ r.2.errmsg ≠ none) := by
  intro stream
  induction stream with
  | nil =>
    intro ret_val s wf short nodup there
    refine ⟨_, rfl, .refl (by simp) (by simp), .inl ⟨rfl, ?_⟩⟩
    rintro ⟨_, _, ⟨_, member, _⟩, _⟩
    cases member
  | cons name stream ih =>
    intro ret_val s wf short nodup there
    obtain ⟨kind, found⟩ := there name List.mem_cons_self
    have proper := wf.proper _ found name (by simp)
    obtain ⟨fresh, nodup⟩ := List.nodup_cons.mp nodup
    obtain ⟨⟨value, s'⟩, returns, removes⟩ :=
      recurs (names ++ [name]) { s with dirobjs := s.dirobjs ++ [text obj (names ++ [name])] } kind wf
        (by simpa using short) found (seen name)
    have does : Does k top obj (top ++ (names ++ [name]) <+: ·) s s' := removes.does.formatted found
    have wf' : WellFormed s'.fs := wf_pruned wf does.pruned fun p n below => below.trans (List.prefix_append _ _)
    have apart : ∀ name' ∈ stream, ∀ q, top ++ (names ++ [name']) <+: q → ¬ top ++ (names ++ [name]) <+: q := by
      intro name' member q below other
      rw [← List.append_assoc] at below other
      exact fresh (concat_prefix_ne other below ▸ member)
    have untouched : ∀ name' ∈ stream, ∀ e : List Str × Kind, top ++ (names ++ [name']) <+: e.1 →
        (e ∈ s'.fs ↔ e ∈ s.fs) := by
      intro name' member e below
      rw [does.pruned.mem]
      exact and_iff_left fun inside => absurd inside (apart name' member e.1 below)
    have later : ∀ name' ∈ stream, ∃ kind, (top ++ (names ++ [name']), kind) ∈ s'.fs := by
      intro name' member
      obtain ⟨kind, found⟩ := there name' (List.mem_cons_of_mem _ member)
      exact ⟨kind, (untouched name' member _ (List.prefix_refl _)).mpr found⟩
    obtain ⟨r, looped, rest, rest_value⟩ := ih (if value ≠ 0 then -1 else ret_val) s' wf'
      (fun names' kind' member => short names' kind' (does.pruned.sub.subset member)) nodup later
    have regions : ∀ q, (top ++ (names ++ [name]) <+: q ∨ ∃ name' ∈ stream, top ++ (names ++ [name']) <+: q) ↔
        ∃ name' ∈ name :: stream, top ++ (names ++ [name']) <+: q := by simp
    refine ⟨r, ?_, (does.trans rest ?_).congr fun e _ => regions e.1, ?_⟩
    · rw [entries, if_neg (by simp [proper])]
      dsimp only
      rw [returns]
      exact looped
    · rintro q call e ⟨name', member, below⟩
      exact fails_congr fun e under => untouched name' member e (below.trans under)
    · have first_value : value = 0 ∧ ¬ Left k top (top ++ (names ++ [name]) <+: ·) s.fs ∨
          value = -1 ∧ Left k top (top ++ (names ++ [name]) <+: ·) s.fs ∧ s'.errmsg ≠ none := removes.value
      have whole : Left k top (fun q => ∃ name' ∈ name :: stream, top ++ (names ++ [name']) <+: q) s.fs ↔
          Left k top (top ++ (names ++ [name]) <+: ·) s.fs ∨
            Left k top (fun q => ∃ name' ∈ stream, top ++ (names ++ [name']) <+: q) s.fs :=
        (left_congr fun e _ => (regions e.1).symm).trans left_or
      rw [left_pruned does.pruned] at rest_value
      rw [whole]
      rcases first_value with ⟨rfl, free⟩ | ⟨rfl, stays, set⟩
      · rw [if_neg (by simp)] at rest_value
        rcases rest_value with ⟨same, all⟩ | ⟨failed, some_left, set⟩
        · exact .inl ⟨same, fun left => left.elim free all⟩
        · exact .inr ⟨failed, .inr some_left, set⟩
      · rw [if_pos (by decide)] at rest_value
        refine .inr ⟨rest_value.elim And.left And.left, .inl stays, rest.errmsg set⟩

end recursion

section calls
variable {k : Kernel} {top p : List Str} {obj : Str} {fs : Fs} {kind : Kind} {links e : Nat} {call : Call}
  {names : List Str}

theorem rmdir_empty (wf : WellFormed fs) (found : (p, .directory links) ∈ fs) (empty : children fs p = []) :
    rmdir k fs p = take k fs p := by
  rw [rmdir, wf.tree.kindAt.mpr found]
  dsimp only
  rw [if_pos empty, take]
  cases k.refused p <;> rfl

theorem unlink_leaf (wf : WellFormed fs) (found : (p, kind) ∈ fs) (leaf : kind.isDirectory = false) :
    unlink k fs p = take k fs p := by
  rw [unlink, wf.tree.kindAt.mpr found]
  cases kind with
  | directory links => cases leaf
  | symlink | other => rfl

theorem st_nlink_empty (empty : children fs p = []) : st_nlink fs p (.directory links) = 2 + links := by
  rw [st_nlink, empty]
  rfl

theorem same_kind {kind' : Kind} (wf : WellFormed fs) (found : (p, kind) ∈ fs) (found' : (p, kind') ∈ fs) :
    kind' = kind :=
  Option.some.inj ((wf.tree.kindAt.mpr found').symm.trans (wf.tree.kindAt.mpr found))

theorem fails_leaf (wf : WellFormed fs) (found : (p, kind) ∈ fs) (leaf : kind.isDirectory = false)
    (reached : Reached k top p) (seen : k.unseen p = none) :
    Fails k top fs p call e ↔ k.refused p = some e ∧ call = .unlink := by
  constructor
  · intro fails
    cases fails with
    | lstat _ _ unseen =>
      rw [seen] at unseen
      cases unseen
    | rmdir _ found' | remove _ found' =>
      rw [← same_kind wf found found'] at leaf
      cases leaf
    | unlink _ _ _ _ refused => exact ⟨refused, rfl⟩
  · rintro ⟨refused, rfl⟩
    exact .unlink reached found leaf seen refused

theorem fails_listed (wf : WellFormed fs) (found : (p, .directory links) ∈ fs) (reached : Reached k top p)
    (seen : k.unseen p = none) (listed : k.unlisted p = none)
    (empties : ∀ name ∈ children fs p, ¬ Stays (Refuses k top) fs (p ++ [name])) :
    Fails k top fs p call e ↔ k.refused p = some e ∧ call = if links = 0 then .remove else .unlink := by
  constructor
  · intro fails
    cases fails with
    | lstat _ _ unseen =>
      rw [seen] at unseen
      cases unseen
    | rmdir _ _ _ unlisted => exact absurd listed unlisted
    | remove _ found' _ _ _ refused =>
      cases same_kind wf found found'
      exact ⟨refused, rfl⟩
    | unlink _ found' leaf =>
      cases same_kind wf found found'
      cases leaf
  · rintro ⟨refused, rfl⟩
    exact .remove reached found seen listed empties refused

theorem fails_unlisted (wf : WellFormed fs) (found : (p, .directory links) ∈ fs) (reached : Reached k top p)
    (seen : k.unseen p = none) (unlisted : k.unlisted p ≠ none) :
    Fails k top fs p call e ↔
      (k.refused p = some e ∨ (k.refused p = none ∧ e = ENOTEMPTY ∧ ∃ name, name ∈ children fs p)) ∧ call = .rmdir := by
  constructor
  · intro fails
    cases fails with
    | lstat _ _ unseen =>
      rw [seen] at unseen
      cases unseen
    | rmdir _ _ _ _ refused => exact ⟨refused, rfl⟩
    | remove _ _ _ listed => exact absurd listed unlisted
    | unlink _ found' leaf =>
      cases same_kind wf found found'
      cases leaf
  · rintro ⟨refused, rfl⟩
    exact .rmdir reached found seen unlisted refused

end calls

section whole
variable {k : Kernel} {top : List Str} {obj : Str} {names : List Str} {fuel links e : Nat} {kind : Kind} {s : State}

theorem text_not_slash (wf : WellFormed s.fs) (not_root : obj ≠ slash) (found : (top ++ names, kind) ∈ s.fs) :
    text obj names ≠ slash := by
  cases names with
  | nil => simpa [text] using not_root
  | cons name names =>
    intro root
    have proper := (wf.proper _ found name (by simp)).1
    have length := congrArg List.length root
    have some_char := List.length_pos_of_ne_nil proper
    simp only [text, slash, List.flatMap_cons, List.length_append, List.length_cons, List.length_nil] at length
    omega

theorem unseen_spec (found : (top ++ names, kind) ∈ s.fs)
    (reached : Reached k top (top ++ names)) (unseen : k.unseen (top ++ names) = some e) :
    Removes k top obj (top ++ names <+: ·) s (finish k obj true .lstat names (.error e) s) := by
  have closed : k.unseen (top ++ names) ≠ none := by simp [unseen]
  refine removes_fail found (fun e' member below => ?_) (.lstat reached found unseen) fun names' call' e' fails below => ?_
  · exact ⟨e', member, List.prefix_refl _, .inr ⟨_, List.prefix_append _ _, below, .inl closed⟩⟩
  · by_cases same : top ++ names = top ++ names'
    · cases List.append_cancel_left same
      cases fails with
      | lstat _ _ unseen' =>
        rw [unseen] at unseen'
        exact ⟨rfl, rfl, (Option.some.inj unseen').symm⟩
      | rmdir _ _ seen | remove _ _ seen | unlink _ _ _ seen => exact absurd seen closed
    · exact absurd (fails_reached fails _ (List.prefix_append _ _) below same).1 closed

theorem unlisted_spec (wf : WellFormed s.fs) (found : (top ++ names, .directory links) ∈ s.fs)
    (reached : Reached k top (top ++ names)) (seen : k.unseen (top ++ names) = none)
    (unlisted : k.unlisted (top ++ names) ≠ none) :
    Removes k top obj (top ++ names <+: ·) s (finish k obj true .rmdir names (rmdir k s.fs (top ++ names)) s) := by
  by_cases empty : children s.fs (top ++ names) = []
  · rw [rmdir_empty wf found empty]
    refine removes_take found (empty_alone wf empty) reached seen fun call' e' => ?_
    rw [fails_unlisted wf found reached seen unlisted, empty]
    simp
  · obtain ⟨name, member⟩ := List.exists_mem_of_ne_nil _ empty
    have fails_iff (call : Call) (e : Nat) : Fails k top s.fs (top ++ names) call e ↔
        (k.refused (top ++ names) = some e ∨ (k.refused (top ++ names) = none ∧ e = ENOTEMPTY ∧
          ∃ name, name ∈ children s.fs (top ++ names))) ∧ call = .rmdir :=
      fails_unlisted wf found reached seen unlisted
    have below_stays : ∀ e ∈ s.fs, top ++ names <+: e.1 → top ++ names ≠ e.1 → Refuses k top e.1 :=
      fun e member below other => .inr ⟨_, List.prefix_append _ _, below, .inr ⟨other, unlisted⟩⟩
    obtain ⟨child_kind, child⟩ := mem_children.mp member
    have stay : ∀ e ∈ s.fs, top ++ names <+: e.1 → Stays (Refuses k top) s.fs e.1 := by
      intro e in_fs below
      by_cases same : top ++ names = e.1
      · refine ⟨_, child, same ▸ List.prefix_append _ _, below_stays _ child (List.prefix_append _ _) ?_⟩
        simp
      · exact ⟨e, in_fs, List.prefix_refl _, below_stays e in_fs below same⟩
    have only : ∀ e, (∀ e', k.refused (top ++ names) = some e' ∨ (k.refused (top ++ names) = none ∧ e' = ENOTEMPTY ∧
        ∃ name, name ∈ children s.fs (top ++ names)) → e' = e) → ∀ names' call' e',
        Fails k top s.fs (top ++ names') call' e' → top ++ names <+: top ++ names' →
        names' = names ∧ call' = .rmdir ∧ e' = e := by
      intro e value names' call' e' fails below
      by_cases same : top ++ names = top ++ names'
      · cases List.append_cancel_left same
        obtain ⟨refused, call⟩ := (fails_iff call' e').mp fails
        exact ⟨rfl, call, value e' refused⟩
      · exact absurd (fails_reached fails _ (List.prefix_append _ _) below same).2 unlisted
    rw [rmdir, wf.tree.kindAt.mpr found]
    cases refused : k.refused (top ++ names) with
    | some e =>
      refine removes_fail found stay ((fails_iff .rmdir e).mpr ⟨.inl refused, rfl⟩) (only e fun e' value => ?_)
      rw [refused] at value
      simpa [eq_comm] using value
    | none =>
      dsimp only
      rw [if_neg empty]
      refine removes_fail found stay ((fails_iff .rmdir ENOTEMPTY).mpr ⟨.inr ⟨refused, rfl, name, member⟩, rfl⟩)
        (only ENOTEMPTY fun e' value => ?_)
      rw [refused] at value
      exact value.elim (fun impossible => by cases impossible) fun value => value.2.1

theorem below_iff (wf : WellFormed s.fs) : ∀ e ∈ s.fs,
    ((∃ name ∈ children s.fs (top ++ names), top ++ (names ++ [name]) <+: e.1) ∨ e.1 = top ++ names) ↔
      top ++ names <+: e.1 := by
  intro e member
  constructor
  · rintro (⟨name, _, below⟩ | same)
    · rw [← List.append_assoc] at below
      exact (List.prefix_append _ _).trans below
    · rw [same]
  · intro below
    by_cases same : top ++ names = e.1
    · exact .inr same.symm
    · obtain ⟨name, is_child, toward⟩ := wf.tree.toward member below same
      rw [List.append_assoc] at toward
      exact .inl ⟨name, is_child, toward⟩

theorem directory_left {s' : State} (wf : WellFormed s.fs) (found : (top ++ names, .directory links) ∈ s.fs)
    (does : Does k top obj (fun q => ∃ name ∈ children s.fs (top ++ names), top ++ (names ++ [name]) <+: q) s s') :
    WellFormed s'.fs ∧ (top ++ names, .directory links) ∈ s'.fs := by
  have outside : ¬ ∃ name ∈ children s.fs (top ++ names), top ++ (names ++ [name]) <+: top ++ names := by
    rintro ⟨name, _, below⟩
    have length := below.length_le
    simp only [List.length_append, List.length_cons, List.length_nil] at length
    omega
  refine ⟨wf_pruned wf does.pruned ?_, (does.pruned.mem _).mpr ⟨found, fun inside => absurd inside outside⟩⟩
  rintro p n ⟨name, member, below⟩
  exact ⟨name, member, below.trans (List.prefix_append _ _)⟩

theorem emptied_spec {s' : State} (wf : WellFormed s.fs) (found : (top ++ names, .directory links) ∈ s.fs)
    (reached : Reached k top (top ++ names)) (seen : k.unseen (top ++ names) = none)
    (listed : k.unlisted (top ++ names) = none)
    (does : Does k top obj (fun q => ∃ name ∈ children s.fs (top ++ names), top ++ (names ++ [name]) <+: q) s s')
    (free : ¬ Left k top (fun q => ∃ name ∈ children s.fs (top ++ names), top ++ (names ++ [name]) <+: q) s.fs) :
    WellFormed s'.fs ∧ (top ++ names, .directory links) ∈ s'.fs ∧ Removes k top obj (top ++ names <+: ·) s
        (if 3 ≤ st_nlink s'.fs (top ++ names) (.directory links) then
          finish k obj true .unlink names (unlink k s'.fs (top ++ names)) s'
        else finish k obj true .remove names (remove k s'.fs (top ++ names)) s') := by
  obtain ⟨wf', found'⟩ := directory_left wf found does
  have child_free : ∀ name ∈ children s.fs (top ++ names), ¬ Stays (Refuses k top) s.fs (top ++ names ++ [name]) := by
    intro name member stays
    obtain ⟨kind, child⟩ := mem_children.mp member
    refine free ⟨_, child, ⟨name, member, ?_⟩, stays⟩
    rw [← List.append_assoc]
  have empty : children s'.fs (top ++ names) = [] := by
    rw [List.eq_nil_iff_forall_not_mem]
    intro name member
    obtain ⟨kind, child'⟩ := mem_children.mp member
    obtain ⟨child, kept⟩ := (does.pruned.mem _).mp child'
    have is_child := mem_children.mpr ⟨kind, child⟩
    refine child_free name is_child (kept ⟨name, is_child, ?_⟩)
    rw [← List.append_assoc]
  have fails' (call : Call) (e : Nat) : Fails k top s'.fs (top ++ names) call e ↔
      k.refused (top ++ names) = some e ∧ call = if links = 0 then .remove else .unlink :=
    fails_listed wf' found' reached seen listed (by simp [empty])
  have fails (call : Call) (e : Nat) : Fails k top s.fs (top ++ names) call e ↔
      k.refused (top ++ names) = some e ∧ call = if links = 0 then .remove else .unlink :=
    fails_listed wf found reached seen listed child_free
  have removes : Removes k top obj (top ++ names <+: ·) s'
      (finish k obj true (if links = 0 then .remove else .unlink) names (take k s'.fs (top ++ names)) s') :=
    removes_take found' (empty_alone wf' empty) reached seen fails'
  have at_directory : ∀ e ∈ s'.fs, top ++ names <+: e.1 ↔ e.1 = top ++ names :=
    fun e member => ⟨empty_alone wf' empty e member, fun same => same ▸ List.prefix_refl _⟩
  refine ⟨wf', found', ?_⟩
  have here : Removes k top obj (· = top ++ names) s' _ := removes.congr at_directory
  have all : Removes k top obj (top ++ names <+: ·) s _ := (Removes.after does free here ?_).congr (below_iff wf)
  · rw [st_nlink_empty empty]
    by_cases single : links = 0
    · rw [if_neg (by omega)]
      rw [if_pos single] at all
      rw [remove, wf'.tree.kindAt.mpr found']
      dsimp only
      rw [rmdir_empty wf' found' empty]
      exact all
    · rw [if_pos (by omega)]
      rw [if_neg single] at all
      rw [unlink, wf'.tree.kindAt.mpr found']
      dsimp only
      rw [if_neg single, rmdir_empty wf' found' empty]
      exact all
  · rintro q call e rfl
    rw [fails', fails]

theorem stuck_spec {s' : State} (wf : WellFormed s.fs) (found : (top ++ names, .directory links) ∈ s.fs)
    (seen : k.unseen (top ++ names) = none) (listed : k.unlisted (top ++ names) = none)
    (does : Does k top obj (fun q => ∃ name ∈ children s.fs (top ++ names), top ++ (names ++ [name]) <+: q) s s')
    (left : Left k top (fun q => ∃ name ∈ children s.fs (top ++ names), top ++ (names ++ [name]) <+: q) s.fs)
    (set : s'.errmsg ≠ none) : Removes k top obj (top ++ names <+: ·) s (-1, s') := by
  obtain ⟨e, member, ⟨name, is_child, below⟩, e_stays⟩ := left
  rw [← List.append_assoc] at below
  have stays : Stays (Refuses k top) s.fs (top ++ names) := e_stays.above ((List.prefix_append _ _).trans below)
  have child_stays := e_stays.above below
  obtain ⟨wf', found'⟩ := directory_left wf found does
  have silent {fs : Fs} (wf : WellFormed fs) (found : (top ++ names, .directory links) ∈ fs)
      (is_child : name ∈ children fs (top ++ names)) (stays : Stays (Refuses k top) fs (top ++ names ++ [name]))
      (call : Call) (e : Nat) : ¬ Fails k top fs (top ++ names) call e := by
    intro fails
    cases fails with
    | lstat _ _ unseen => simp [seen] at unseen
    | rmdir _ _ _ unlisted => exact unlisted listed
    | remove _ _ _ _ empties => exact empties name is_child stays
    | unlink _ found' leaf =>
      cases same_kind wf found found'
      cases leaf
  have still_child : name ∈ children s'.fs (top ++ names) := by
    obtain ⟨kind, child⟩ := mem_children.mp is_child
    exact mem_children.mpr ⟨kind, (does.pruned.mem _).mpr ⟨child, fun _ => child_stays⟩⟩
  have silent' := silent wf' found' still_child (does.pruned.stays.mpr child_stays)
  have here : Does k top obj (· = top ++ names) s' s' := by
    refine .refl ?_ ?_
    · rintro e _ same
      exact same ▸ does.pruned.stays.mpr stays
    · rintro q call e rfl
      exact silent' call e
  refine ⟨(does.trans here ?_).congr (below_iff wf), .inr ⟨rfl, ⟨_, found, List.prefix_refl _, stays⟩, set⟩⟩
  rintro q call e rfl
  exact iff_of_false (silent' call e) (silent wf found is_child child_stays call e)

theorem rmobj_spec (not_root : obj ≠ slash) : ∀ fuel, Recurs k top obj fuel (rmobj k top obj true fuel) := by
  intro fuel
  induction fuel with
  | zero =>
    intro names s kind wf short found _
    exact absurd (short names kind found) (by omega)
  | succ fuel ih =>
    intro names s kind wf short found reached
    rw [rmobj]
    simp only [place_found wf found]
    cases unseen : k.unseen (top ++ names) with
    | some e =>
      rw [lstat, unseen]
      exact ⟨_, rfl, unseen_spec found reached unseen⟩
    | none =>
      rw [lstat_found wf found unseen]
      cases kind with
      | symlink | other =>
        dsimp only
        rw [unlink_leaf wf found rfl]
        exact ⟨_, rfl, removes_take found (leaf_alone wf found rfl) reached unseen
          fun call' e' => fails_leaf wf found rfl reached unseen⟩
      | directory links =>
        dsimp only
        rw [if_neg (text_not_slash wf not_root found), opendir, enter_directory wf found]
        cases listed : k.unlisted (top ++ names) with
        | some e =>
          dsimp only
          exact ⟨_, rfl, unlisted_spec wf found reached unseen (by simp [listed])⟩
        | none =>
          dsimp only
          have below (name : Str) : Reached k top (top ++ (names ++ [name])) := by
            rw [← List.append_assoc]
            exact reached_below reached unseen listed name
          obtain ⟨⟨ret_val, s'⟩, looped, does, value⟩ := entries_spec ih below (children s.fs (top ++ names)) 0 s wf
            (fun names' kind' member => by
              have few := short names' kind' member
              omega)
            (children_nodup wf.tree) (fun name member => by
              rw [← List.append_assoc]
              exact mem_children.mp member)
          rw [entries, if_pos (.inl rfl), entries, if_pos (.inr rfl), looped]
          dsimp only
          rcases value with ⟨rfl, free⟩ | ⟨rfl, left, set⟩
          · obtain ⟨wf', found', removes⟩ := emptied_spec wf found reached unseen listed does free
            rw [if_neg (by decide), place_found wf' found', lstat_found wf' found' unseen]
            refine ⟨_, ?_, removes⟩
            dsimp only
            split <;> rfl
          · rw [if_pos rfl]
            exact ⟨_, rfl, stuck_spec wf found unseen listed does left set⟩

end whole

section result
variable {k : Kernel} {top : List Str} {obj : Str} {fs : Fs} {kind : Kind}

theorem names_le_text (obj : Str) (names : List Str) : names.length ≤ (text obj names).length := by
  induction names with
  | nil => exact Nat.zero_le _
  | cons name names ih =>
    simp only [text, List.length_append, List.flatMap_cons, List.length_cons] at ih ⊢
    omega

theorem run_spec (wf : WellFormed fs) (found : (top, kind) ∈ fs) (not_root : obj ≠ slash)
    (short : ∀ names kind, (top ++ names, kind) ∈ fs → (text obj names).length < PATH_MAX) :
    ∃ r, run k top obj true fs = some r ∧ Removes k top obj (top <+: ·) ⟨fs, none, [], []⟩ r := by
  have levels : ∀ names kind, (top ++ names, kind) ∈ fs → names.length < PATH_MAX + ([] : List Str).length :=
    fun names kind member => Nat.lt_of_le_of_lt (names_le_text obj names) (short names kind member)
  have reached : Reached k top top := by
    intro q from_top above other
    exact absurd (above.eq_of_length (Nat.le_antisymm above.length_le from_top.length_le)) other
  have start : Recurs k top obj PATH_MAX (rmobj k top obj true PATH_MAX) := rmobj_spec not_root PATH_MAX
  have returns := start [] ⟨fs, none, [], []⟩ kind wf levels
  rw [List.append_nil] at returns
  exact returns found reached

/-- For an object other than `/`, which it refuses to remove, `rmobj` does what is promised if and only if the messages
of the calls that fail have room in `err_msg`. -/
theorem rmobj_sound (wf : WellFormed fs) (found : (top, kind) ∈ fs) (not_root : obj ≠ slash)
    (short : ∀ names kind, (top ++ names, kind) ∈ fs → (text obj names).length < PATH_MAX) :
    (∃ r, run k top obj true fs = some r ∧ Sound k top fs r) ↔
      ∀ names call e, Fails k top fs (top ++ names) call e → (message k obj call names e).length < ERR_MSG := by
  obtain ⟨r, returns, ⟨does, value⟩⟩ := run_spec (k := k) wf found not_root short
  constructor
  · rintro ⟨r', returns', sound⟩ names call e fails
    rw [returns] at returns'
    cases returns'
    exact sound.messages _ ((does.messages _).mpr (.inr ⟨names, call, e, List.prefix_append _ _, fails, rfl⟩))
  · intro fits
    have left (e : List Str × Kind) (below : top <+: e.1) : e ∈ r.2.fs ↔ e ∈ fs ∧ Stays (Refuses k top) fs e.1 := by
      rw [does.pruned.mem]
      exact and_congr_right fun _ => ⟨fun kept => kept below, fun stays _ => stays⟩
    have gone : Left k top (top <+: ·) fs ↔ ∃ e ∈ r.2.fs, top <+: e.1 := by
      constructor
      · rintro ⟨e, member, below, stays⟩
        exact ⟨e, (left e below).mpr ⟨member, stays⟩, below⟩
      · rintro ⟨e, member, below⟩
        obtain ⟨in_fs, stays⟩ := (left e below).mp member
        exact ⟨e, in_fs, below, stays⟩
    refine ⟨r, returns, ?_, ?_, fun e above => ?_, left, fun path member => ?_, fun m member => ?_⟩
    · rcases value with ⟨zero, free⟩ | ⟨failed, some_left, _⟩
      · rw [gone] at free
        exact ⟨fun _ e member below => free ⟨e, member, below⟩, fun _ => zero⟩
      · rw [failed]
        obtain ⟨e, member, below⟩ := gone.mp some_left
        exact ⟨fun impossible => absurd impossible (by decide), fun none_left => absurd below (none_left e member)⟩
    · intro nonzero
      rcases value with ⟨zero, _⟩ | ⟨failed, _, set⟩
      · exact absurd zero nonzero
      · exact ⟨failed, set⟩
    · rw [does.pruned.mem]
      exact and_iff_left fun below => absurd below above
    · rcases does.dirobjs path member with before | ⟨names, kind, found, rfl⟩
      · cases before
      · exact short names kind found
    · rcases (does.messages m).mp member with before | ⟨names, call, e, _, fails, rfl⟩
      · cases before
      · exact fits names call e fails

/-- A tree with a link that leads out of it, and a file that cannot be removed. -/
theorem rmobj_sound_link :
    ∃ r, run ⟨fun _ => none, fun _ => none, fun p => if p = [['t'], ['a']] then some 1 else none,
        fun _ => "Operation not permitted".toList⟩ [['t']] ['t'] true
        [([], .directory 0), ([['t']], .directory 0), ([['t'], ['a']], .other), ([['t'], ['l']], .symlink [['o']]),
          ([['o']], .directory 0), ([['o'], ['f']], .other)] = some r ∧
      Sound ⟨fun _ => none, fun _ => none, fun p => if p = [['t'], ['a']] then some 1 else none,
        fun _ => "Operation not permitted".toList⟩ [['t']]
        [([], .directory 0), ([['t']], .directory 0), ([['t'], ['a']], .other), ([['t'], ['l']], .symlink [['o']]),
          ([['o']], .directory 0), ([['o'], ['f']], .other)] r := by
  have there : ([['t']], Kind.directory 0) ∈ ([([], .directory 0), ([['t']], .directory 0), ([['t'], ['a']], .other),
      ([['t'], ['l']], .symlink [['o']]), ([['o']], .directory 0), ([['o'], ['f']], .other)] : Fs) := by decide
  refine (rmobj_sound ⟨⟨by decide, by decide⟩, by decide⟩ there (by decide) ?_).mpr ?_
  · intro names kind member
    have few : names = [] ∨ names = [['a']] ∨ names = [['l']] := by
      simp at member
      tauto
    rcases few with rfl | rfl | rfl <;> decide
  · intro names call e fails
    have refused : names = [['a']] ∧ e = 1 := by
      cases fails with
      | lstat _ _ unseen => cases unseen
      | rmdir _ _ _ unlisted => exact absurd rfl unlisted
      | remove _ _ _ _ _ refused | unlink _ _ _ _ refused => simpa [eq_comm] using refused
    obtain ⟨rfl, rfl⟩ := refused
    cases call <;> decide

/-- A file with a path of 1000 characters that cannot be removed. -/
theorem message_too_long : ∃ k top obj fs, WellFormed fs ∧ (top, .other) ∈ fs ∧ obj ≠ slash ∧
    (∀ names kind, (top ++ names, kind) ∈ fs → (text obj names).length < PATH_MAX) ∧
    ¬ ∃ r, run k top obj true fs = some r ∧ Sound k top fs r := by
  refine ⟨⟨fun _ => none, fun _ => none, fun _ => some 1, fun _ => "Operation not permitted".toList⟩,
    List.replicate 4 (List.replicate 249 'a'), (List.replicate 4 ('/' :: List.replicate 249 'a')).flatten,
    ([0, 1, 2, 3].map fun n => (List.replicate n (List.replicate 249 'a'), .directory 0)) ++
      [(List.replicate 4 (List.replicate 249 'a'), .other)],
    ⟨⟨by decide +kernel, by decide +kernel⟩, by decide +kernel⟩, by decide +kernel, by decide +kernel, ?_, ?_⟩
  · intro names kind member
    have levels : ∀ e ∈ ([0, 1, 2, 3].map fun n => (List.replicate n (List.replicate 249 'a'), Kind.directory 0)) ++
        [(List.replicate 4 (List.replicate 249 'a'), .other)], e.1.length ≤ 4 := by decide +kernel
    have no_names := levels _ member
    rw [List.length_append, List.length_replicate] at no_names
    cases List.length_eq_zero_iff.mp (by omega : names.length = 0)
    decide +kernel
  · rintro ⟨r, returns, sound⟩
    have fit : r.2.messages.all (fun m => decide (m.length < ERR_MSG)) = true :=
      List.all_eq_true.mpr fun m member => decide_eq_true (sound.messages m member)
    have all := congrArg (Option.map fun r : Int × State => r.2.messages.all fun m => decide (m.length < ERR_MSG)) returns
    rw [Option.map_some, fit] at all
    exact absurd all (by decide +kernel)

end result
end Rmobj
