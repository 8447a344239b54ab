import Vte.Io.DioVectorsRuns

/-!
A child on its own: the rounds it has passed, and that it comes to its end, so that runs in which no child
fails say that the last round of the last child fits.
-/
namespace DioVectors
open Bytes SparseFile Multiples Machine
variable {o : Options} {a : Action} {c : Nat} {s s' : Child} {file file' : List Byte} {accesses : List Access}

/-- The values of the round `i` fit in their types. -/
structure Passed (o : Options) (c i : Nat) : Prop where
  value : c + i < 2147483648
  product : i * 4 * o.bufsize < 2147483648
  position : base o c + i * 4 * o.bufsize < 9223372036854775808

structure Opened (o : Options) (c : Nat) (s : Child) : Prop where
  seekoff : s.seekoff = base o c
  low : s.idx < o.iter
  before : ∀ i < s.idx, Passed o c i
  value : c + s.idx < 2147483648

def Past (o : Options) (c : Nat) (s : Child) : Prop :=
  match s.pc with
  | .start => True
  | .fill => s.seekoff = base o c ∧ s.idx ≤ o.iter ∧ ∀ i < s.idx, Passed o c i
  | .seekWrite v => Opened o c s ∧ v < 5
  | .write v | .sync v => Opened o c s ∧ v < 5 ∧ (v = 4 → Passed o c s.idx)
  | .seekRead v | .read v => Opened o c s ∧ v < 5 ∧ Passed o c s.idx
  | .compare => Opened o c s ∧ Passed o c s.idx
  | .ended result => result = .ok → ∀ i < o.iter, Passed o c i

def left (o : Options) (s : Child) : Nat :=
  match s.pc with
  | .start => o.iter * 64 + 64
  | .fill => (o.iter - s.idx) * 64 + 40
  | .seekWrite v => (o.iter - s.idx) * 64 + 39 - 3 * v
  | .write v => (o.iter - s.idx) * 64 + 38 - 3 * v
  | .sync v => (o.iter - s.idx) * 64 + 37 - 3 * v
  | .seekRead v => (o.iter - s.idx) * 64 + 24 - 2 * v
  | .read v => (o.iter - s.idx) * 64 + 23 - 2 * v
  | .compare => (o.iter - s.idx) * 64
  | .ended _ => 0

structure Nearer (o : Options) (c : Nat) (s s' : Child) : Prop where
  past : Past o c s'
  less : left o s' < left o s

theorem nearer_failed {result : Result} (pc : s'.pc = .ended result) (failed : result ≠ .ok)
    (some_left : 0 < left o s) : Nearer o c s s' where
  past := by
    rw [Past, pc]
    exact fun done => absurd done failed
  less := by
    rw [left, pc]
    exact some_left

theorem nearer_after_write {v : Nat} (opened : Opened o c s') (vector : v < 5)
    (last : v = 4 → Passed o c s'.idx) (pc : s'.pc = afterWrite v)
    (more : (o.iter - s'.idx) * 64 + 37 - 3 * v ≤ left o s) : Nearer o c s s' := by
  rw [afterWrite, nvector] at pc
  have low := opened.low
  by_cases next : v + 1 < 5
  · rw [if_pos next] at pc
    refine ⟨?_, ?_⟩
    · rw [Past, pc]
      exact ⟨opened, next⟩
    · rw [left, pc]
      dsimp only
      omega
  · rw [if_neg next] at pc
    refine ⟨?_, ?_⟩
    · rw [Past, pc]
      exact ⟨opened, by decide, last (by omega)⟩
    · rw [left, pc]
      dsimp only
      omega

theorem nearer_after_read {v : Nat} (opened : Opened o c s') (vector : v < 5)
    (last : Passed o c s'.idx) (pc : s'.pc = afterRead v)
    (more : (o.iter - s'.idx) * 64 + 23 - 2 * v ≤ left o s) : Nearer o c s s' := by
  rw [afterRead, nvector] at pc
  have low := opened.low
  by_cases next : v + 1 < 5
  · rw [if_pos next] at pc
    refine ⟨?_, ?_⟩
    · rw [Past, pc]
      exact ⟨opened, next, last⟩
    · rw [left, pc]
      dsimp only
      omega
  · rw [if_neg next] at pc
    refine ⟨?_, ?_⟩
    · rw [Past, pc]
      exact ⟨opened, last⟩
    · rw [left, pc]
      dsimp only
      omega

theorem sought {P : Child → Prop} {v : Nat} {next : Nat → Child} (opened : Opened o c s)
    (failed : ∀ result, result ≠ .ok → P { s with pc := .ended result })
    (found : ∀ pos, (v = 4 → Passed o c s.idx) → P (next pos)) :
    P (computed s (positionOf o s.seekoff s.idx v) fun x => lseek s x next) := by
  cases position : positionOf o s.seekoff s.idx v with
  | none => exact failed .undefined (by decide)
  | some x =>
    rw [computed_some, lseek]
    rw [opened.seekoff] at position
    obtain ⟨product, fits⟩ := position_fits position
    cases seek x with
    | none => exact failed .call (by decide)
    | some pos =>
      refine found pos ?_
      rintro rfl
      exact ⟨opened.value, product, fits⟩

theorem child_step_past (past : Past o c s) (taken : childStep o a c s file = some (s', file', accesses)) :
    Nearer o c s s' := by
  rw [Past] at past
  rw [childStep] at taken
  cases pc : s.pc with
  | start =>
    simp only [pc, Option.some.injEq, Prod.mk.injEq] at taken
    obtain ⟨rfl, -, -⟩ := taken
    have all : left o s = o.iter * 64 + 64 := by rw [left, pc]
    cases found : seekoffOf o c with
    | none => exact nearer_failed rfl (by decide) (by omega)
    | some x =>
      rw [computed_some]
      refine ⟨⟨seekoff_exact found, Nat.zero_le _, fun i before => absurd before (Nat.not_lt_zero i)⟩, ?_⟩
      rw [all, left]
      dsimp only
      omega
  | fill =>
    simp only [pc] at taken past
    obtain ⟨seekoff, low, before⟩ := past
    have all : left o s = (o.iter - s.idx) * 64 + 40 := by rw [left, pc]
    by_cases more : s.idx < o.iter
    · simp only [more, if_true, Option.some.injEq, Prod.mk.injEq] at taken
      obtain ⟨rfl, -, -⟩ := taken
      cases found : checked32 ((c : Int) + s.idx) with
      | none => exact nearer_failed rfl (by decide) (by omega)
      | some x =>
        obtain ⟨⟨-, value⟩, -⟩ := checked32_iff.mp found
        rw [computed_some]
        refine ⟨⟨⟨seekoff, more, before, by exact_mod_cast value⟩, by decide⟩, ?_⟩
        rw [all, left]
        dsimp only
        omega
    · simp only [more, if_false, Option.some.injEq, Prod.mk.injEq] at taken
      obtain ⟨rfl, -, -⟩ := taken
      have all_done : s.idx = o.iter := Nat.le_antisymm low (Nat.not_lt.mp more)
      refine ⟨fun _ => all_done ▸ before, ?_⟩
      rw [all, left]
      dsimp only
      omega
  | seekWrite v =>
    simp only [pc, Option.some.injEq, Prod.mk.injEq] at taken past
    obtain ⟨rfl, -, -⟩ := taken
    obtain ⟨opened, vector⟩ := past
    have all : left o s = (o.iter - s.idx) * 64 + 39 - 3 * v := by rw [left, pc]
    have low := opened.low
    refine sought opened (fun result failed => nearer_failed rfl failed (by omega)) fun pos passed => ?_
    refine ⟨⟨⟨opened.seekoff, low, opened.before, opened.value⟩, vector, passed⟩, ?_⟩
    rw [all, left]
    dsimp only
    omega
  | write v =>
    simp only [pc] at taken past
    obtain ⟨opened, vector, passed⟩ := past
    have all : left o s = (o.iter - s.idx) * 64 + 38 - 3 * v := by rw [left, pc]
    have low := opened.low
    split at taken
    · simp only [Option.some.injEq, Prod.mk.injEq] at taken
      obtain ⟨rfl, -, -⟩ := taken
      exact nearer_failed rfl (by decide) (by omega)
    · simp only [Option.some.injEq, Prod.mk.injEq] at taken
      obtain ⟨rfl, -, -⟩ := taken
      have now : ∀ next pos, Opened o c { s with pc := next, wpos := pos } := fun _ _ =>
        ⟨opened.seekoff, low, opened.before, opened.value⟩
      cases a.syncs with
      | true =>
        refine ⟨⟨now _ _, vector, passed⟩, ?_⟩
        rw [all, left]
        simp only [reduceIte]
        omega
      | false => exact nearer_after_write (now _ _) vector passed rfl (by dsimp only; omega)
  | sync v =>
    simp only [pc, Option.some.injEq, Prod.mk.injEq] at taken past
    obtain ⟨opened, vector, passed⟩ := past
    obtain ⟨rfl, -, -⟩ := taken
    have all : left o s = (o.iter - s.idx) * 64 + 37 - 3 * v := by rw [left, pc]
    exact nearer_after_write ⟨opened.seekoff, opened.low, opened.before, opened.value⟩ vector passed rfl
      (Nat.le_of_eq all.symm)
  | seekRead v =>
    simp only [pc, Option.some.injEq, Prod.mk.injEq] at taken past
    obtain ⟨rfl, -, -⟩ := taken
    obtain ⟨opened, vector, passed⟩ := past
    have all : left o s = (o.iter - s.idx) * 64 + 24 - 2 * v := by rw [left, pc]
    have low := opened.low
    refine sought opened (fun result failed => nearer_failed rfl failed (by omega)) fun pos _ => ?_
    refine ⟨⟨⟨opened.seekoff, low, opened.before, opened.value⟩, vector, passed⟩, ?_⟩
    rw [all, left]
    dsimp only
    omega
  | read v =>
    simp only [pc] at taken past
    obtain ⟨opened, vector, passed⟩ := past
    have all : left o s = (o.iter - s.idx) * 64 + 23 - 2 * v := by rw [left, pc]
    have low := opened.low
    split at taken
    · simp only [Option.some.injEq, Prod.mk.injEq] at taken
      obtain ⟨rfl, -, -⟩ := taken
      exact nearer_failed rfl (by decide) (by omega)
    · simp only [Option.some.injEq, Prod.mk.injEq] at taken
      obtain ⟨rfl, -, -⟩ := taken
      exact nearer_after_read ⟨opened.seekoff, low, opened.before, opened.value⟩ vector passed rfl
        (Nat.le_of_eq all.symm)
  | compare =>
    simp only [pc] at taken past
    obtain ⟨opened, passed⟩ := past
    have all : left o s = (o.iter - s.idx) * 64 := by rw [left, pc]
    have low := opened.low
    split at taken
    · simp only [Option.some.injEq, Prod.mk.injEq] at taken
      obtain ⟨rfl, -, -⟩ := taken
      refine ⟨⟨opened.seekoff, low, ?_⟩, ?_⟩
      · intro i below
        by_cases here : i = s.idx
        · exact here ▸ passed
        · exact opened.before i (by dsimp only at below; omega)
      · rw [all, left]
        dsimp only
        omega
    · simp only [Option.some.injEq, Prod.mk.injEq] at taken
      obtain ⟨rfl, -, -⟩ := taken
      exact nearer_failed rfl (by decide) (by omega)
  | ended result =>
    simp only [pc] at taken
    cases taken

theorem step_past {s t : State} (past : Past o c (s.children c)) (taken : step o a c s = some t) :
    Past o c (t.children c) ∧ left o (t.children c) < left o (s.children c) := by
  obtain ⟨low, child, file, accesses, moved, rfl⟩ := step_taken taken
  obtain ⟨kept, less⟩ := child_step_past past moved
  simp only [if_true]
  exact ⟨kept, less⟩

theorem child_step_stuck (stuck : childStep o a c s file = none) : ∃ result, s.pc = .ended result := by
  rw [childStep] at stuck
  split at stuck
  case h_9 result ended => exact ⟨result, ended⟩
  all_goals first
    | cases stuck
    | split at stuck <;> cases stuck
    | dsimp only at stuck; split at stuck <;> cases stuck

theorem good_suits (accepted : Accepted o) (file : List Byte)
    (good : ∀ acts t, run (step o a) acts (initial file) = some t → Good o t) : Suits o := by
  have iter := accepted.iter
  have low : o.numchild - 1 < o.numchild := Nat.sub_lt accepted.numchild Nat.one_pos
  obtain ⟨n, t, ran, stuck, past⟩ := run_out (fun s t => step_past (a := a) (s := s) (t := t))
    (show Past o (o.numchild - 1) ((initial file).children (o.numchild - 1)) from trivial)
  rw [step, if_pos low, Option.map_eq_none_iff] at stuck
  obtain ⟨result, ended⟩ := child_step_stuck stuck
  rw [Past, ended] at past
  have passed := past ((good _ t ran).clean _ low result ended) (o.iter - 1) (by omega)
  exact ⟨passed.value, passed.product, passed.position⟩

/-- No run of a testblock leaves the regions or has a child fail, exactly when the sizes suit. -/
theorem runtest_regions_iff {opts : List Opt} (parsed : parse opts = some o) (page : o.offset % 4096 = 0)
    (a : Action) (file : List Byte) :
    (∀ acts t, run (step o a) acts (initial file) = some t → Good o t) ↔ Suits o := by
  have accepted := parse_accepted parsed
  constructor
  · exact good_suits accepted file
  · intro suits acts t ran
    exact whole_good (run_whole accepted suits page (whole_initial file) ran)

theorem two_children_three_rounds : parse [⟨.n, 2, by decide⟩, ⟨.i, 3, by decide⟩] = some ⟨4096, 0, 3, 2⟩ ∧
    ((∀ acts t, run (step ⟨4096, 0, 3, 2⟩ .rdwrDirect) acts (initial []) = some t → Good ⟨4096, 0, 3, 2⟩ t) ↔
      Suits ⟨4096, 0, 3, 2⟩) :=
  ⟨rfl, runtest_regions_iff (show parse [⟨.n, 2, by decide⟩, ⟨.i, 3, by decide⟩] = some _ from rfl) rfl
    .rdwrDirect []⟩

theorem large_vectors_overflow : ¬ ∀ (opts : List Opt) (o : Options), parse opts = some o → o.offset % 4096 = 0 →
    ∀ (a : Action) (file : List Byte) (acts : List Nat) (t : State),
      run (step o a) acts (initial file) = some t → Good o t := by
  intro all
  have parsed : parse [⟨.b, 8388608, by decide⟩] = some ⟨8388608, 0, 100, 5⟩ := rfl
  have good := all _ _ parsed rfl .rdwrDirect []
  have product := (good_suits (parse_accepted parsed) [] good).product
  exact absurd product (by decide)

end DioVectors
