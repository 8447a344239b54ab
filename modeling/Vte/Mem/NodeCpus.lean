import Mathlib.Data.Finset.Sort
import Vte.Base.Text

/-!
testcases/kernel/mem/lib/mem.c: the online CPUs of a node as they are written to `cpuset.cpus`. A write
outside the buffer has no result. The files under /sys and /dev/cpuset can be opened, and the numbers
of the CPUs are ints.
-/
namespace VteNodeCpus
open Text

def bufsiz : Nat := 8192

structure Sysfs where
  present : Finset Nat
  node : Nat → Int
  online : Nat → Bool
  cpu0 : online 0 = true

section code

/-- `while (path_exist(PATH_SYS_SYSTEM "/cpu/cpu%d", ncpus))` -/
def probeCpus (present : Finset Nat) (ncpus : Nat) : Nat :=
  if ncpus ∈ present then probeCpus present (ncpus + 1) else ncpus
termination_by (present.filter (ncpus ≤ ·)).card
decreasing_by
  refine Finset.card_lt_card (Finset.ssubset_iff_of_subset ?_ |>.mpr ⟨ncpus, ?_, ?_⟩)
  · intro c member
    rw [Finset.mem_filter] at member ⊢
    exact ⟨member.1, by omega⟩
  · rw [Finset.mem_filter]
    exact ⟨by assumption, Nat.le_refl ncpus⟩
  · simp

def strcat (cpus buf : Str) : Option Str :=
  if cpus.length + buf.length < bufsiz then some (cpus ++ buf) else none

def addCpu (s : Sysfs) (nd : Int) (cpus : Str) (i : Nat) : Option Str :=
  if i ∈ s.present ∧ s.node i = nd then
    if i = 0 then strcat cpus (decimal i ++ [','])
    else if s.online i = false then some cpus
    else strcat cpus (decimal i ++ [','])
  else some cpus

def gatherNodeCpus (s : Sysfs) (nd : Int) (cpus : Str) : Option Str := do
  let cpus ← (List.range (probeCpus s.present 0)).foldlM (addCpu s nd) cpus
  -- the byte before an empty list is outside the buffer
  if cpus = [] then none else some cpus.dropLast

def writeCpusets (s : Sysfs) (nd pid : Int) : Option (List (String × Str)) := do
  let cpus ← gatherNodeCpus s nd []
  return [("mems", decimal nd), ("cpus", if cpus.length ≠ 0 then cpus else ['0']), ("tasks", decimal pid)]

end code

section spec

def nodeCpus (s : Sysfs) (nd : Int) : List Nat :=
  (s.present.filter fun c => s.node c = nd ∧ s.online c = true).sort

def cpuList (cpus : List Nat) : Str := [','].intercalate (cpus.map fun c : Nat => decimal c)

def CpusRight (s : Sysfs) (nd pid : Int) : Prop :=
  writeCpusets s nd pid = some [("mems", decimal nd),
    ("cpus", if nodeCpus s nd = [] then ['0'] else cpuList (nodeCpus s nd)),
    ("tasks", decimal pid)]

/-- The node has an online CPU, all numbers up to its CPUs are present, and the list fits with one
more comma. -/
structure NodeCond (s : Sysfs) (nd : Int) : Prop where
  some_cpu : nodeCpus s nd ≠ []
  no_gap : ∀ c ∈ nodeCpus s nd, ∀ d ≤ c, d ∈ s.present
  room : (cpuList (nodeCpus s nd)).length + 1 < bufsiz

end spec

section lists
variable {a b : List Nat}

def chars (cpus : List Nat) : Str := cpus.flatMap fun c : Nat => decimal c ++ [',']

theorem decimal_some (c : Nat) : decimal c ≠ [] := by
  obtain ⟨d, ds, digits, _⟩ := to_digits_head c
  have same : decimal c = Nat.toDigits 10 c := rfl
  rw [same, digits]
  exact List.cons_ne_nil d ds

theorem chars_list (some_cpu : a ≠ []) : chars a = cpuList a ++ [','] := by
  induction a with
  | nil => exact absurd rfl some_cpu
  | cons c a ih =>
    cases a with
    | nil => simp [chars, cpuList]
    | cons d a =>
      have rest := ih (List.cons_ne_nil d a)
      unfold chars cpuList at rest ⊢
      rw [List.flatMap_cons, List.map_cons, List.intercalate_cons_of_ne_nil (by simp), rest]
      simp only [List.append_assoc]

theorem chars_append (a b : List Nat) : chars (a ++ b) = chars a ++ chars b := List.flatMap_append

theorem chars_length (some_cpu : a ≠ []) : (chars a).length = (cpuList a).length + 1 := by
  rw [chars_list some_cpu, List.length_append]
  rfl

theorem list_some (some_cpu : a ≠ []) : (cpuList a).length ≠ 0 := by
  cases a with
  | nil => exact absurd rfl some_cpu
  | cons c a =>
    have first := List.length_pos_iff.mpr (decimal_some c)
    cases a with
    | nil =>
      have one : cpuList [c] = decimal c := by simp [cpuList]
      rw [one]
      omega
    | cons d a =>
      unfold cpuList
      rw [List.map_cons, List.intercalate_cons_of_ne_nil (by simp), List.length_append, List.length_append]
      omega

theorem list_append_inj (some_cpu : a ≠ []) (same : cpuList a = cpuList (a ++ b)) : b = [] := by
  cases b with
  | nil => rfl
  | cons c b =>
    have lengths := congrArg List.length (chars_append a (c :: b))
    rw [List.length_append, chars_length some_cpu, chars_length (by simp), same,
      chars_length (List.cons_ne_nil c b)] at lengths
    omega

end lists

section gather
variable {s : Sysfs} {nd : Int}

theorem probe_spec (present : Finset Nat) (m : Nat) : probeCpus present m ∉ present ∧
    ∀ d, m ≤ d → d < probeCpus present m → d ∈ present := by
  induction m using probeCpus.induct present with
  | case1 m here ih =>
    rw [probeCpus, if_pos here]
    refine ⟨ih.1, fun d from_m below => ?_⟩
    rcases Nat.eq_or_lt_of_le from_m with rfl | later
    · exact here
    · exact ih.2 d later below
  | case2 m absent =>
    rw [probeCpus, if_neg absent]
    exact ⟨absent, fun d from_m below => by omega⟩

def Listed (s : Sysfs) (nd : Int) (c : Nat) : Prop :=
  c ∈ s.present ∧ s.node c = nd ∧ s.online c = true

instance (c : Nat) : Decidable (Listed s nd c) := inferInstanceAs (Decidable (_ ∧ _ ∧ _))

theorem add_cpu_eq (cpus : Str) (i : Nat) : addCpu s nd cpus i =
    if Listed s nd i then strcat cpus (decimal i ++ [',']) else some cpus := by
  unfold addCpu
  by_cases here : i ∈ s.present ∧ s.node i = nd
  · rw [if_pos here]
    by_cases zero : i = 0
    · have listed : Listed s nd i := ⟨here.1, here.2, zero ▸ s.cpu0⟩
      rw [if_pos zero, if_pos listed]
    · rw [if_neg zero]
      by_cases offline : s.online i = false
      · have unlisted : ¬ Listed s nd i := fun listed => by simp [offline, Listed] at listed
        rw [if_pos offline, if_neg unlisted]
      · have listed : Listed s nd i := ⟨here.1, here.2, by simpa using offline⟩
        rw [if_neg offline, if_pos listed]
  · have unlisted : ¬ Listed s nd i := fun listed => here ⟨listed.1, listed.2.1⟩
    rw [if_neg here, if_neg unlisted]

theorem gather_text (s : Sysfs) (nd : Int) (l : List Nat) {cpus : Str} (room : cpus.length < bufsiz) :
    l.foldlM (addCpu s nd) cpus =
      if (cpus ++ chars (l.filter (Listed s nd))).length < bufsiz
      then some (cpus ++ chars (l.filter (Listed s nd))) else none := by
  induction l generalizing cpus with
  | nil => simp [chars, room]
  | cons i l ih =>
    rw [List.foldlM_cons, add_cpu_eq]
    by_cases listed : Listed s nd i
    · rw [if_pos listed, List.filter_cons_of_pos (by simpa using listed)]
      have all : cpus ++ chars (i :: l.filter (Listed s nd)) =
          cpus ++ (decimal i ++ [',']) ++ chars (l.filter (Listed s nd)) := by
        simp [chars]
      rw [all, strcat]
      by_cases more : cpus.length + (decimal i ++ [',']).length < bufsiz
      · rw [if_pos more]
        exact ih (by rw [List.length_append]; exact more)
      · rw [if_neg more, if_neg]
        · rfl
        · simp only [List.length_append] at more ⊢
          omega
    · rw [if_neg listed, List.filter_cons_of_neg (by simpa using listed)]
      exact ih room

theorem node_cpus_split (s : Sysfs) (nd : Int) (n : Nat) : ∃ above, nodeCpus s nd =
    (List.range n).filter (Listed s nd) ++ above ∧ ∀ c ∈ above, n ≤ c := by
  let cpus := s.present.filter fun c => s.node c = nd ∧ s.online c = true
  let above := (cpus.filter (n ≤ ·)).sort
  have member_above : ∀ c, c ∈ above ↔ Listed s nd c ∧ n ≤ c := by
    intro c
    simp [above, cpus, Listed]
  have member_below : ∀ c, c ∈ (List.range n).filter (Listed s nd) ↔ c < n ∧ Listed s nd c := by
    intro c
    simp
  have ordered : ((List.range n).filter (Listed s nd) ++ above).Pairwise (· ≤ ·) := by
    refine List.pairwise_append.mpr ⟨?_, Finset.pairwise_sort _ _, ?_⟩
    · exact (List.pairwise_lt_range.imp Nat.le_of_lt).filter _
    · intro c below d later
      have := ((member_below c).mp below).1
      have := ((member_above d).mp later).2
      omega
  have different : ((List.range n).filter (Listed s nd) ++ above).Nodup := by
    refine List.nodup_append.mpr ⟨List.nodup_range.filter _, Finset.sort_nodup _ _, ?_⟩
    intro c below d later
    have := ((member_below c).mp below).1
    have := ((member_above d).mp later).2
    omega
  have same : ((List.range n).filter (Listed s nd) ++ above).toFinset = cpus := by
    ext c
    rw [List.mem_toFinset, List.mem_append, member_below, member_above]
    simp only [cpus, Finset.mem_filter, Listed]
    constructor
    · rintro (⟨_, listed⟩ | ⟨listed, _⟩) <;> exact listed
    · intro listed
      rcases Nat.lt_or_ge c n with below | later
      · exact .inl ⟨below, listed⟩
      · exact .inr ⟨listed, later⟩
  refine ⟨above, ?_, fun c member => ((member_above c).mp member).2⟩
  have sorted := (List.toFinset_sort (· ≤ ·) different).mpr ordered
  rw [same] at sorted
  exact sorted

theorem no_cpu_wrong {s : Sysfs} {nd pid : Int}
    (none : (List.range (probeCpus s.present 0)).filter (Listed s nd) = []) :
    ¬ CpusRight s nd pid := by
  have gathered := gather_text s nd (List.range (probeCpus s.present 0))
    (show ([] : Str).length < bufsiz by decide)
  unfold CpusRight writeCpusets gatherNodeCpus
  rw [gathered, List.nil_append, none]
  intro right
  cases right

/-- The file is written rightly, without a byte outside the buffer, for just these nodes. -/
theorem cpusets_right_iff (s : Sysfs) (nd pid : Int) :
    CpusRight s nd pid ↔ NodeCond s nd := by
  obtain ⟨absent, present⟩ := probe_spec s.present 0
  obtain ⟨above, split, later⟩ := node_cpus_split s nd (probeCpus s.present 0)
  have probed : ∀ c ∈ (List.range (probeCpus s.present 0)).filter (Listed s nd), c < probeCpus s.present 0 := by
    intro c member
    exact List.mem_range.mp (List.mem_of_mem_filter member)
  have gathered := gather_text s nd (List.range (probeCpus s.present 0))
    (show ([] : Str).length < bufsiz by decide)
  unfold CpusRight writeCpusets gatherNodeCpus
  rw [gathered, List.nil_append]
  generalize (List.range (probeCpus s.present 0)).filter (Listed s nd) = below at split probed
  constructor
  · intro right
    by_cases room : (chars below).length < bufsiz
    · rw [if_pos room] at right
      by_cases none : below = []
      · subst none
        cases right
      · have some_chars : chars below ≠ [] := by rw [chars_list none]; simp
        dsimp only [Option.bind_eq_bind, Option.bind_some] at right
        rw [if_neg some_chars, Option.bind_some, chars_list none, List.dropLast_concat,
          if_pos (list_some none), if_neg (by simp [split, none])] at right
        have same : cpuList below = cpuList (below ++ above) := by
          rw [← split]
          have files := Option.some.inj right
          injection files with _ rest
          injection rest with second _
          exact (Prod.mk.inj second).2
        have nothing := list_append_inj none same
        rw [nothing, List.append_nil] at split
        rw [chars_length none] at room
        refine ⟨split ▸ none, ?_, split ▸ room⟩
        rw [split]
        intro c member d before
        exact present d (Nat.zero_le d) (Nat.lt_of_le_of_lt before (probed c member))
    · rw [if_neg room] at right
      cases right
  · intro cond
    have nothing : above = [] := by
      refine List.eq_nil_iff_forall_not_mem.mpr fun c member => absent ?_
      exact cond.no_gap c (split ▸ List.mem_append_right below member) _ (later c member)
    rw [nothing, List.append_nil] at split
    obtain ⟨some_cpu, _, room⟩ := cond
    rw [split] at some_cpu room ⊢
    have some_chars : chars below ≠ [] := by rw [chars_list some_cpu]; simp
    rw [if_pos (by rw [chars_length some_cpu]; exact room), if_neg some_cpu]
    dsimp only [Option.bind_eq_bind, Option.bind_some]
    rw [if_neg some_chars, Option.bind_some, chars_list some_cpu, List.dropLast_concat, if_pos (list_some some_cpu)]
    rfl

def twoCpus : Sysfs where
  present := {0, 1}
  node _ := 0
  online _ := true
  cpu0 := rfl

theorem empty_node_outside : ¬ ∀ s nd pid, (cpuList (nodeCpus s nd)).length < bufsiz → CpusRight s nd pid := by
  intro all
  have none : nodeCpus twoCpus 1 = [] := by simp [nodeCpus, twoCpus]
  have nothing (n : Nat) : (List.range n).filter (Listed twoCpus 1) = [] := by
    simp [Listed, twoCpus]
  exact no_cpu_wrong (nothing _) (all twoCpus 1 1 (by rw [none]; decide))

end gather
end VteNodeCpus
