import Vte.Nfs.LockTestsRuns

/-!
The lock tests go on until everyone has ended, and what they have done by then: the tests in order, one
result of each slave for each test, and the sections of the file handed out once each.
-/
namespace VteLockTests
open Function Machine

def Final (cfg : Config) (s : State) : Prop :=
  s.maitre.pc = .finished ∧ (∀ c, c < cfg.maxClients → s.client c = .finished) ∧
    ∀ g, g < cfg.maxClients + 1 → ∀ i, i < cfg.nclnt → (s.esclave (g, i)).pc = .finished

def Moves (cfg : Config) (s : State) : Prop := ∃ act t, step cfg act s = some t

section progress
variable {cfg : Config} {s : State}

theorem esclave_can {g i : Nat} {ok : Bool} {t : State} (group : g < cfg.maxClients + 1)
    (inside : i < cfg.nclnt) (taken : esclaveStep g i ok s = some t) : Moves cfg s :=
  ⟨.esclave g i ok, t, by rw [step, if_pos ⟨group, inside⟩, taken]⟩

theorem client_can {c : Nat} {t : State} (inside : c < cfg.maxClients)
    (taken : clientStep cfg c s = some t) : Moves cfg s :=
  ⟨.client c, t, by rw [step, if_pos inside, taken]⟩

theorem esclave_moves {g i : Nat} (inv : Inv cfg s) (group : g < cfg.maxClients + 1)
    (inside : i < cfg.nclnt) :
    (s.esclave (g, i)).pc = .finished ∨ Replied s g i ∨ Moves cfg s ∨ up cfg s i g ≠ [] := by
  have place := (inv.group g group).esclaves i inside
  have can : (∃ t, esclaveStep g i true s = some t) → Moves cfg s := by
    rintro ⟨t, taken⟩
    exact esclave_can group inside taken
  cases pc : (s.esclave (g, i)).pc with
  | finished => exact Or.inl rfl
  | etat e =>
    rw [pc] at place
    cases e with
    | select | lock => exact place.elim
    | sync =>
      rcases place with ⟨_, all, _⟩ | ⟨replied, _⟩
      · cases head : s.lclnt (g, i) with
        | nil =>
          rw [line, head, List.nil_append] at all
          refine Or.inr (Or.inr (Or.inr ?_))
          rw [all]
          exact commands_some _ _ _ _
        | cons message rest =>
          refine Or.inr (Or.inr (Or.inl (can ?_)))
          simp only [esclaveStep, pc, head]
          exact ⟨_, rfl⟩
      · exact Or.inr (Or.inl replied)
    | bytelock =>
      cases head : s.lclnt (g, i) with
      | nil =>
        have all := place.2.2.2.2.1
        rw [line, head, List.nil_append] at all
        refine Or.inr (Or.inr (Or.inr ?_))
        rw [all]
        rintro ⟨⟩
      | cons message rest =>
        refine Or.inr (Or.inr (Or.inl (can ?_)))
        simp only [esclaveStep, pc, head]
        exact ⟨_, rfl⟩
    | rdonly | wronly | readlock | writelock | bytelockRead | bytelockWrite | resultat | clean | fin =>
      refine Or.inr (Or.inr (Or.inl (can ?_)))
      simp only [esclaveStep, pc]
      exact ⟨_, rfl⟩
  | lockSection | closed =>
    refine Or.inr (Or.inr (Or.inl (can ?_)))
    simp only [esclaveStep, pc]
    exact ⟨_, rfl⟩

theorem some_unreplied {g : Nat} (few : (back s g).length < cfg.nclnt) :
    ∃ i, i < cfg.nclnt ∧ ¬ Replied s g i := by
  by_contra all
  have everyone : List.range cfg.nclnt ⊆ (back s g).map Reply.slave := by
    intro i member
    by_contra missing
    exact all ⟨i, List.mem_range.mp member, missing⟩
  have many := (List.subperm_of_subset List.nodup_range everyone).length_le
  rw [List.length_range, List.length_map] at many
  omega

theorem conn_of_up {c i : Nat} (silent : up cfg s i (c + 1) = []) : conn cfg s c = [] := by
  rw [up] at silent
  exact List.map_eq_nil_iff.mp (List.append_eq_nil_iff.mp silent).2

theorem relay_moves {c i : Nat} (inv : Inv cfg s) (inside : c < cfg.maxClients)
    (here : s.client c = .relay i) (going : i < cfg.nclnt) (none_yet : s.tube (c + 1) = []) :
    Moves cfg s := by
  have group : c + 1 < cfg.maxClients + 1 := by omega
  have place := (inv.client c inside).place
  rw [here] at place
  obtain ⟨count, some_back⟩ := place.1 going
  have few : (back s (c + 1)).length < cfg.nclnt := by
    have none_held : hand (.relay i) = [] := rfl
    rw [back, way, here, none_yet, none_held, List.append_nil, List.append_nil, List.length_append]
    rw [passed] at count
    omega
  obtain ⟨j, bound, unreplied⟩ := some_unreplied few
  obtain ⟨r, reply⟩ := List.exists_mem_of_ne_nil _ some_back
  have slave := ((inv.group (c + 1) group).tags r reply).2.2
  have replied : Replied s (c + 1) r.slave := List.mem_map.mpr ⟨r, reply, rfl⟩
  obtain ⟨_, silent, tests, _⟩ :=
    esclave_replied ((inv.group (c + 1) group).esclaves r.slave slave) replied
  have quiet : conn cfg s c = [] := conn_of_up (List.append_eq_nil_iff.mp silent).2
  rcases esclave_moves inv group bound with ended | done | moves | more
  · have last := (inv.group (c + 1) group).esclaves j bound
    rw [ended] at last
    exact absurd last.2.2.1 (by omega)
  · exact absurd done unreplied
  · exact moves
  · rw [up, quiet, here] at more
    exact absurd rfl more

theorem client_moves {c : Nat} (inv : Inv cfg s) (inside : c < cfg.maxClients)
    (going : s.client c ≠ .finished)
    (more : s.client c = .select → s.toClient c ≠ [] ∨ s.tube (c + 1) ≠ []) : Moves cfg s := by
  cases here : s.client c with
  | finished => exact absurd here going
  | select =>
    have can : ∃ t, clientStep cfg c s = some t := by
      simp only [clientStep, here]
      cases head : s.toClient c with
      | nil =>
        have replies := (more here).resolve_left (fun other => other head)
        rw [if_neg replies]
        exact ⟨_, rfl⟩
      | cons message rest =>
        cases message with
        | L lock => exact ⟨_, rfl⟩
        | T test =>
          dsimp only
          split
          · exact ⟨_, rfl⟩
          · exact ⟨_, rfl⟩
    obtain ⟨t, taken⟩ := can
    exact client_can inside taken
  | lockSection | send | fin =>
    have can : ∃ t, clientStep cfg c s = some t := by
      simp only [clientStep, here]
      split
      · exact ⟨_, rfl⟩
      · exact ⟨_, rfl⟩
    obtain ⟨t, taken⟩ := can
    exact client_can inside taken
  | relayed i r =>
    have can : ∃ t, clientStep cfg c s = some t := by
      simp only [clientStep, here]
      exact ⟨_, rfl⟩
    obtain ⟨t, taken⟩ := can
    exact client_can inside taken
  | relay i =>
    by_cases waits : i < cfg.nclnt
    · cases head : s.tube (c + 1) with
      | nil => exact relay_moves inv inside here waits head
      | cons r rest =>
        have can : ∃ t, clientStep cfg c s = some t := by
          simp only [clientStep, here, if_pos waits, head]
          exact ⟨_, rfl⟩
        obtain ⟨t, taken⟩ := can
        exact client_can inside taken
    · have can : ∃ t, clientStep cfg c s = some t := by
        simp only [clientStep, here, if_neg waits]
        exact ⟨_, rfl⟩
      obtain ⟨t, taken⟩ := can
      exact client_can inside taken

theorem net_wait_moves {what : Receiving} {c i : Nat} (inv : Inv cfg s)
    (here : s.maitre.pc = .fromNet what c i) (inside : c < cfg.maxClients) (slave : i < cfg.nclnt)
    (none_yet : s.fromClient c = []) : Moves cfg s := by
  have group : c + 1 < cfg.maxClients + 1 := by omega
  have tests : s.maitre.test < maxtest := by
    have place := inv.maitre.place
    rw [here] at place
    cases what with
    | results => exact place.1
    | acks => exact place
  have count := (inv.group (c + 1) group).count
  rw [if_pos tests, owes_net here, if_neg (by omega), if_neg (by omega), if_pos (by omega)] at count
  have place := (inv.client c inside).place
  by_cases waits : s.client c = .select ∧ s.toClient c = [] ∧ s.tube (c + 1) = []
  · obtain ⟨selects, quiet, silent⟩ := waits
    have few : (back s (c + 1)).length < cfg.nclnt := by
      have none_held : hand .select = [] := rfl
      rw [back, way, selects, none_yet, silent, none_held, List.append_nil, List.append_nil, List.append_nil]
      omega
    obtain ⟨j, bound, unreplied⟩ := some_unreplied few
    rcases esclave_moves inv group bound with ended | done | moves | more
    · have last := (inv.group (c + 1) group).esclaves j bound
      rw [ended] at last
      exact absurd last.2.2.1 (by omega)
    · exact absurd done unreplied
    · exact moves
    · rw [up, conn, selects, quiet, (from_net_sent here).1] at more
      exact absurd rfl more
  · refine client_moves inv inside ?_ ?_
    · intro ended
      rw [ended] at place
      exact absurd place.1 (by omega)
    · intro selects
      by_contra neither
      rw [not_or, not_not, not_not] at neither
      exact waits ⟨selects, neither⟩

theorem loc_wait_moves {what : Receiving} {i : Nat} (inv : Inv cfg s)
    (here : s.maitre.pc = .fromLoc what i) (slave : i < cfg.nclnt) (none_yet : s.tube 0 = []) :
    Moves cfg s := by
  have group : 0 < cfg.maxClients + 1 := by omega
  have tests : s.maitre.test < maxtest := by
    have place := inv.maitre.place
    rw [here] at place
    cases what with
    | results => exact place.1
    | acks => exact place
  have count := (inv.group 0 group).count
  rw [if_pos tests, owes_loc here, if_pos rfl] at count
  have few : (back s 0).length < cfg.nclnt := by
    rw [back, way, none_yet, List.append_nil]
    omega
  obtain ⟨j, bound, unreplied⟩ := some_unreplied few
  rcases esclave_moves inv group bound with ended | done | moves | more
  · have last := (inv.group 0 group).esclaves j bound
    rw [ended] at last
    exact absurd last.2.2.1 (by omega)
  · exact absurd done unreplied
  · exact moves
  · rw [up, (from_loc_sent here).2] at more
    exact absurd rfl more

theorem over_moves (inv : Inv cfg s) (here : s.maitre.pc = .finished) : Final cfg s ∨ Moves cfg s := by
  have last : s.maitre.test = maxtest := by
    have place := inv.maitre.place
    rw [here] at place
    exact place
  have sent : ∀ c, netTodo cfg s.maitre c = [] := by
    intro c
    simp only [netTodo, todo, here]
  by_cases clients : ∀ c, c < cfg.maxClients → s.client c = .finished
  · by_cases esclaves : ∀ g, g < cfg.maxClients + 1 → ∀ i, i < cfg.nclnt → (s.esclave (g, i)).pc = .finished
    · exact Or.inl ⟨here, clients, esclaves⟩
    · right
      simp only [not_forall] at esclaves
      obtain ⟨g, group, i, inside, going⟩ := esclaves
      rcases esclave_moves inv group inside with ended | replied | moves | more
      · exact absurd ended going
      · have before := (esclave_replied ((inv.group g group).esclaves i inside) replied).2.2.1
        omega
      · exact moves
      · exfalso
        apply more
        cases g with
        | zero => simp only [up, locTodo, todo, here]
        | succ c =>
          have place := (inv.client c (by omega)).place
          rw [clients c (by omega)] at place
          rw [up, clients c (by omega), place.2]
          rfl
  · right
    simp only [not_forall] at clients
    obtain ⟨c, inside, going⟩ := clients
    refine client_moves inv inside going ?_
    intro selects
    have place := (inv.client c inside).place
    rw [selects] at place
    have ends := place.2 last
    rw [conn, sent, List.append_nil] at ends
    left
    rw [ends]
    rintro ⟨⟩

theorem progress (inv : Inv cfg s) : Final cfg s ∨ Moves cfg s := by
  have can : (∃ t, maitreStep cfg true (fun _ => false) s = some t) → Moves cfg s := by
    rintro ⟨t, taken⟩
    exact ⟨.maitre true fun _ => false, t, taken⟩
  cases here : s.maitre.pc with
  | etat e =>
    refine Or.inr (can ?_)
    simp only [maitreStep, here]
    rw [if_neg (by simp)]
    exact ⟨_, rfl⟩
  | net what i | loc what i =>
    refine Or.inr (can ?_)
    simp only [maitreStep, here]
    split
    · exact ⟨_, rfl⟩
    · exact ⟨_, rfl⟩
  | fromNet what c i =>
    right
    by_cases client : c < cfg.maxClients
    · by_cases slave : i < cfg.nclnt
      · cases head : s.fromClient c with
        | nil => exact net_wait_moves inv here client slave head
        | cons r queue =>
          apply can
          simp only [maitreStep, here, if_pos client, if_pos slave, head]
          exact ⟨_, rfl⟩
      · apply can
        simp only [maitreStep, here, if_pos client, if_neg slave]
        exact ⟨_, rfl⟩
    · apply can
      simp only [maitreStep, here, if_neg client]
      exact ⟨_, rfl⟩
  | fromLoc what i =>
    right
    by_cases slave : i < cfg.nclnt
    · cases head : s.tube 0 with
      | nil => exact loc_wait_moves inv here slave head
      | cons r queue =>
        apply can
        simp only [maitreStep, here, if_pos slave, head]
        exact ⟨_, rfl⟩
    · apply can
      simp only [maitreStep, here, if_neg slave]
      exact ⟨_, rfl⟩
  | finished => exact over_moves inv here
  | exited =>
    have place := inv.maitre.place
    rw [here] at place
    exact place.elim

end progress
def esclaves (cfg : Config) : List (Nat × Nat) :=
  (List.range (cfg.maxClients + 1)).flatMap fun g => (List.range cfg.nclnt).map fun i => (g, i)

theorem offsets_cover (n : Nat) (groups : Nat) :
    ((List.range groups).flatMap fun g => (List.range n).map fun i => g * n + i) = List.range (n * groups) := by
  induction groups with
  | zero => rfl
  | succ groups ih =>
    rw [List.range_succ, List.flatMap_append, ih, List.flatMap_singleton, Nat.mul_succ,
      List.range_add, Nat.mul_comm groups n]

structure Coordinated (cfg : Config) (s : State) : Prop where
  performed : ∃ k, k ≤ maxtest ∧ s.maitre.performed = List.range k ∧ (s.maitre.pc = .finished → k = maxtest)
  executed : ∀ g, g < cfg.maxClients + 1 → ∀ i, i < cfg.nclnt → ∃ k, k ≤ maxtest ∧
    (s.esclave (g, i)).executed = (List.range k).map (selectTest cfg) ∧
    ((s.esclave (g, i)).pc = .finished → k = maxtest)
  results : ∀ k, ∀ x ∈ s.maitre.received k false, x.1 < cfg.maxClients + 1 ∧ x.2.test = k ∧ x.2.ack = false
  counted : ∀ k, k < s.maitre.test ∨ (k = s.maitre.test ∧ s.maitre.cleaning = true) →
    List.Perm ((s.maitre.received k false).map fun x => (x.1, x.2.slave)) (esclaves cfg)
  totals : ∀ k, k < 8 → s.maitre.totalResultatOk k =
    ((s.maitre.received k false).map fun x => matchResult x.2.resultat k).sum
  sections : ∀ g, g < cfg.maxClients + 1 → ∀ i, i < cfg.nclnt → ∃ k, k ≤ 2 ∧
    (s.esclave (g, i)).sections = List.replicate k (g * cfg.nclnt + i)
  offsets : Final cfg s → ∀ j, j < 2 → (esclaves cfg).map (fun p => (s.esclave p).sections[j]?) =
    (List.range (cfg.nclnt * (cfg.maxClients + 1))).map some
  live : Final cfg s ∨ Moves cfg s

section coordinated
variable {cfg : Config} {s : State}

theorem esclave_done {g i : Nat} (inv : Inv cfg s) (group : g < cfg.maxClients + 1)
    (inside : i < cfg.nclnt) : ∃ k, k ≤ maxtest ∧ (s.esclave (g, i)).executed = (List.range k).map (selectTest cfg) ∧
      (∃ j, j ≤ 2 ∧ (s.esclave (g, i)).sections = List.replicate j (g * cfg.nclnt + i)) ∧
      ((s.esclave (g, i)).pc = .finished → k = maxtest ∧
        (s.esclave (g, i)).sections = List.replicate 2 (g * cfg.nclnt + i)) := by
  have bound : s.maitre.test ≤ 10 := test_le inv.maitre
  have cleans := cleaning_going inv.maitre
  have place := (inv.group g group).esclaves i inside
  have told : ∀ k, k ≤ maxtest → Done cfg (s.esclave (g, i)) (g * cfg.nclnt + i) k →
      (s.esclave (g, i)).pc ≠ .finished → ∃ k, k ≤ maxtest ∧
      (s.esclave (g, i)).executed = (List.range k).map (selectTest cfg) ∧
      (∃ j, j ≤ 2 ∧ (s.esclave (g, i)).sections = List.replicate j (g * cfg.nclnt + i)) ∧
      ((s.esclave (g, i)).pc = .finished → k = maxtest ∧
        (s.esclave (g, i)).sections = List.replicate 2 (g * cfg.nclnt + i)) := by
    intro k few done going
    have few' : k ≤ 10 := few
    exact ⟨k, few, done.1, ⟨k - 8, by omega, done.2⟩, fun ended => absurd ended going⟩
  cases pc : (s.esclave (g, i)).pc with
  | finished =>
    rw [pc] at place
    obtain ⟨_, _, _, _, executed, sections⟩ := place
    exact ⟨maxtest, Nat.le_refl _, executed, ⟨2, Nat.le_refl _, sections⟩, fun _ => ⟨rfl, sections⟩⟩
  | lockSection =>
    rw [pc] at place
    obtain ⟨_, _, _, going, _, _, executed, sections⟩ := place
    exact ⟨s.maitre.test, bound, executed, ⟨s.maitre.test + 1 - 8, by
      have going' : s.maitre.test < 10 := going
      omega, sections⟩, nofun⟩
  | closed =>
    rw [pc] at place told
    exact told _ place.2.2.1 place.2.2.2.2.1 nofun
  | etat e =>
    rw [pc] at place told
    cases e with
    | select | lock => exact place.elim
    | sync =>
      rcases place with ⟨_, _, done, _⟩ | ⟨_, _, going, done, _⟩
      · refine told _ ?_ done nofun
        split
        · rename_i clean
          exact cleans clean
        · exact bound
      · exact told _ going done nofun
    | rdonly | wronly | readlock | writelock => exact told _ bound place.2.2.2.2.1 nofun
    | bytelockRead | bytelockWrite | bytelock => exact told _ bound place.2.2.2.2.2.1 nofun
    | resultat => exact told _ place.2.2.1 place.2.2.2.2 nofun
    | clean => exact told _ place.2.2.1 place.2.2.2.2 nofun
    | fin => exact told _ (Nat.le_refl _) place.2.2.2.2 nofun

theorem mem_esclaves {p : Nat × Nat} :
    p ∈ esclaves cfg ↔ p.1 < cfg.maxClients + 1 ∧ p.2 < cfg.nclnt := by
  obtain ⟨g, i⟩ := p
  simp [esclaves]

theorem esclaves_nodup : (esclaves cfg).Nodup := List.nodup_range.product List.nodup_range

theorem complete_perm {k : Nat} {clean : Bool} {log : List (Nat × Reply)}
    (complete : Complete cfg k clean log) :
    List.Perm (log.map fun x => (x.1, x.2.slave)) (esclaves cfg) := by
  obtain ⟨tags, everyone⟩ := complete
  have member : ∀ g i, (g, i) ∈ log.map (fun x => (x.1, x.2.slave)) ↔
      i ∈ (log.filter (fun x => x.1 = g)).map fun x => x.2.slave := by
    intro g i
    simp only [List.mem_map, List.mem_filter, decide_eq_true_eq, Prod.mk.injEq]
    constructor
    · rintro ⟨x, inside, group, slave⟩
      exact ⟨x, ⟨inside, group⟩, slave⟩
    · rintro ⟨x, ⟨inside, group⟩, slave⟩
      exact ⟨x, inside, group, slave⟩
  have few : ∀ g, g < cfg.maxClients + 1 → ∀ i, (log.map fun x => (x.1, x.2.slave)).count (g, i) ≤ 1 := by
    intro g group i
    have once := List.nodup_iff_count_le_one.mp
      ((everyone g group).nodup_iff.mpr List.nodup_range) i
    rw [List.count, List.countP_map, List.countP_filter] at once
    rw [List.count, List.countP_map]
    refine Nat.le_trans (Nat.le_of_eq (List.countP_congr ?_)) once
    intro x _
    simp only [Function.comp_apply, beq_iff_eq, Prod.mk.injEq, Bool.and_eq_true, decide_eq_true_eq]
    exact and_comm
  have nodup : (log.map fun x => (x.1, x.2.slave)).Nodup := by
    rw [List.nodup_iff_count_le_one]
    rintro ⟨g, i⟩
    by_cases group : g < cfg.maxClients + 1
    · exact few g group i
    · have missing : (g, i) ∉ log.map fun x => (x.1, x.2.slave) := by
        intro inside
        obtain ⟨x, inside, same⟩ := List.mem_map.mp inside
        have bound := (tags x inside).1
        rw [(Prod.mk.inj same).1] at bound
        exact group bound
      rw [List.count_eq_zero_of_not_mem missing]
      exact Nat.zero_le 1
  refine (List.perm_ext_iff_of_nodup nodup esclaves_nodup).mpr ?_
  rintro ⟨g, i⟩
  rw [mem_esclaves]
  constructor
  · intro inside
    obtain ⟨x, logged, same⟩ := List.mem_map.mp inside
    have group := (tags x logged).1
    rw [(Prod.mk.inj same).1] at group
    have slave := (everyone g group).mem_iff.mp ((member g i).mp inside)
    exact ⟨group, List.mem_range.mp slave⟩
  · rintro ⟨group, slave⟩
    exact (member g i).mpr ((everyone g group).mem_iff.mpr (List.mem_range.mpr slave))

def Counts (m : Maitre) : Prop :=
  ∀ k, k < 8 → m.totalResultatOk k = ((m.received k false).map fun x => matchResult x.2.resultat k).sum

theorem read_counts {m : Maitre} (counts : Counts m) (what : Receiving) (g : Nat) (r : Reply) :
    Counts (readReply m what g r) := by
  intro k whole
  have before := counts k whole
  cases what with
  | results =>
    simp only [readReply]
    by_cases here : k = m.n - 1
    · rw [← here, update_self, if_pos (by simp), before, List.map_append, List.sum_append]
      simp
    · rw [update_of_ne here, if_neg (by simp [here]), before]
  | acks =>
    simp only [readReply]
    rw [if_neg (by simp)]
    exact before

theorem client_maitre {t : State} {c : Nat} (taken : clientStep cfg c s = some t) :
    t.maitre = s.maitre := by
  simp only [clientStep] at taken
  split at taken
  · split at taken
    · split at taken
      · obtain rfl := Option.some.inj taken
        rfl
      · split at taken
        · obtain rfl := Option.some.inj taken
          rfl
        · obtain rfl := Option.some.inj taken
          rfl
    · split at taken
      · cases taken
      · obtain rfl := Option.some.inj taken
        rfl
  · split at taken
    · obtain rfl := Option.some.inj taken
      rfl
    · obtain rfl := Option.some.inj taken
      rfl
  · split at taken
    · obtain rfl := Option.some.inj taken
      rfl
    · obtain rfl := Option.some.inj taken
      rfl
  · split at taken
    · obtain rfl := Option.some.inj taken
      rfl
    · obtain rfl := Option.some.inj taken
      rfl
  · split at taken
    · split at taken
      · cases taken
      · obtain rfl := Option.some.inj taken
        rfl
    · obtain rfl := Option.some.inj taken
      rfl
  · obtain rfl := Option.some.inj taken
    rfl
  · cases taken

theorem esclave_maitre {t : State} {g i : Nat} {ok : Bool} (taken : esclaveStep g i ok s = some t) :
    t.maitre = s.maitre := by
  cases pc : (s.esclave (g, i)).pc with
  | etat e =>
    cases e with
    | select | sync | bytelock =>
      cases head : s.lclnt (g, i) with
      | nil => simp [esclaveStep, pc, head] at taken
      | cons message rest =>
        simp only [esclaveStep, pc, head] at taken
        obtain rfl := Option.some.inj taken
        rfl
    | rdonly | wronly | lock | readlock | writelock | bytelockRead | bytelockWrite | resultat | clean
      | fin =>
      simp only [esclaveStep, pc] at taken
      obtain rfl := Option.some.inj taken
      rfl
  | lockSection | closed =>
    simp only [esclaveStep, pc] at taken
    obtain rfl := Option.some.inj taken
    rfl
  | finished => simp [esclaveStep, pc] at taken

theorem switch_counts {m : Maitre} (counts : Counts m) (e : Etat) : Counts (switch cfg e m) := by
  cases e <;> exact counts

theorem maitre_counts {t : State} {ok : Bool} {held : Nat → Bool} (good : MaitreOk cfg s.maitre)
    (counts : Counts s.maitre) (taken : maitreStep cfg ok held s = some t) : Counts t.maitre := by
  cases here : s.maitre.pc with
  | etat e =>
    simp only [maitreStep, here] at taken
    split at taken
    · split at taken
      · obtain rfl := Option.some.inj taken
        exact counts
      · cases taken
    · obtain rfl := Option.some.inj taken
      exact switch_counts counts e
  | net what i | loc what i =>
    simp only [maitreStep, here] at taken
    split at taken
    · obtain rfl := Option.some.inj taken
      exact counts
    · obtain rfl := Option.some.inj taken
      exact counts
  | fromNet what c i =>
    simp only [maitreStep, here] at taken
    split at taken
    · split at taken
      · split at taken
        · cases taken
        · obtain rfl := Option.some.inj taken
          exact read_counts counts what (c + 1) _
      · obtain rfl := Option.some.inj taken
        exact counts
    · obtain rfl := Option.some.inj taken
      exact counts
  | fromLoc what i =>
    simp only [maitreStep, here] at taken
    split at taken
    · split at taken
      · cases taken
      · obtain rfl := Option.some.inj taken
        exact read_counts counts what 0 _
    · obtain rfl := Option.some.inj taken
      cases what with
      | acks => exact counts
      | results =>
        have place := good.place
        rw [here] at place
        have now := test_eq (m := s.maitre) (by rw [here]; rintro ⟨⟩)
        intro k whole
        simp only [afterReplies]
        split
        · rename_i locks
          have bytes : 8 ≤ s.maitre.test := by
            rw [place.2.1] at locks
            exact of_decide_eq_true locks
          rw [update_of_ne (by omega)]
          exact counts k whole
        · exact counts k whole
  | finished => simp [maitreStep, here] at taken
  | exited => simp [maitreStep, here] at taken

theorem step_counts (some_slave : 0 < cfg.nclnt) (act : Act) (s t : State)
    (inv : Inv cfg s ∧ Counts s.maitre) (taken : step cfg act s = some t) :
    Inv cfg t ∧ Counts t.maitre := by
  refine ⟨step_inv some_slave act s t inv.1 taken, ?_⟩
  cases act with
  | maitre ok held => exact maitre_counts inv.1.maitre inv.2 taken
  | client c =>
    simp only [step] at taken
    split at taken
    · rw [client_maitre taken]
      exact inv.2
    · cases taken
  | esclave g i ok =>
    simp only [step] at taken
    split at taken
    · rw [esclave_maitre taken]
      exact inv.2
    · cases taken

theorem start_counts : Counts (start cfg).maitre := fun _ _ => rfl

theorem received_tags (inv : Inv cfg s) (k : Nat) (clean : Bool) :
    ∀ x ∈ s.maitre.received k clean, x.1 < cfg.maxClients + 1 ∧ x.2.test = k ∧ x.2.ack = clean := by
  intro x inside
  rcases Nat.lt_trichotomy (phase k clean) (phase s.maitre.test s.maitre.cleaning) with
    before | now | later
  · exact (inv.history.past k clean before).tags x inside
  · have same : k = s.maitre.test ∧ clean = s.maitre.cleaning := by
      rw [phase, phase] at now
      cases clean <;> cases cleaning : s.maitre.cleaning <;> simp [cleaning] at now ⊢ <;> omega
    obtain ⟨rfl, rfl⟩ := same
    have group := inv.history.present x inside
    have gotten : x.2 ∈ got s x.1 :=
      List.mem_map.mpr ⟨x, List.mem_filter.mpr ⟨inside, decide_eq_true rfl⟩, rfl⟩
    have tags := (inv.group x.1 group).tags x.2 (List.mem_append_left _ gotten)
    exact ⟨group, tags.1, tags.2.1⟩
  · rw [inv.history.future k clean later] at inside
    cases inside

theorem performed_tests (inv : Inv cfg s) : ∃ k, k ≤ maxtest ∧
    s.maitre.performed = List.range k ∧ (s.maitre.pc = .finished → k = maxtest) := by
  refine ⟨min s.maitre.n maxtest, Nat.min_le_right _ _, inv.maitre.performed, ?_⟩
  intro ended
  have place := inv.maitre.place
  rw [ended] at place
  have last : s.maitre.test = maxtest := place
  have next := inv.maitre.next (by rw [ended]; nofun)
  omega

theorem offsets_handed (inv : Inv cfg s) (final : Final cfg s) {j : Nat} (bytes : j < 2) :
    (esclaves cfg).map (fun p => (s.esclave p).sections[j]?) =
      (List.range (cfg.nclnt * (cfg.maxClients + 1))).map some := by
  have handed : (esclaves cfg).map (fun p => (s.esclave p).sections[j]?) =
      (esclaves cfg).map fun p => some (p.1 * cfg.nclnt + p.2) := by
    refine List.map_congr_left ?_
    rintro ⟨g, i⟩ member
    obtain ⟨group, inside⟩ := mem_esclaves.mp member
    obtain ⟨_, _, _, _, ended⟩ := esclave_done inv group inside
    have sections := (ended (final.2.2 g group i inside)).2
    simp only [sections, List.getElem?_replicate, if_pos bytes]
  have places : (esclaves cfg).map (fun p => p.1 * cfg.nclnt + p.2) =
      List.range (cfg.nclnt * (cfg.maxClients + 1)) := by
    rw [← offsets_cover, esclaves, List.map_flatMap]
    simp only [List.map_map]
    rfl
  rw [handed, ← places, List.map_map]
  rfl

end coordinated

end VteLockTests
