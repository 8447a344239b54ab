import Mathlib.Data.List.Nodup
import Mathlib.Data.List.Perm.Subperm
import Vte.Nfs.LockTestsMaitre

/-!
Runs of the lock tests: in every phase each slave gets the commands of the phase once and in order, and
replies once, and the master goes on to the next phase when it has read the reply of everyone.
-/
namespace VteLockTests
open Function Machine

/-- What the repeater still writes to its slave `j` of the message it has read. -/
def repeats : ClientPc → Nat → List Message
  | .lockSection lock i, j => if i ≤ j then [.L { lock with lStart := lock.lStart + j }] else []
  | .send test i, j | .fin test i, j => if i ≤ j then [.T test] else []
  | _, _ => []

/-- What is still to come over the connection to the client `c` in this phase. -/
def conn (cfg : Config) (s : State) (c : Nat) : List Message := s.toClient c ++ netTodo cfg s.maitre c

/-- What has yet to be written to the slave `i` of a group in this phase. -/
def up (cfg : Config) (s : State) (i : Nat) : Nat → List Message
  | 0 => locTodo cfg s.maitre i
  | c + 1 => repeats (s.client c) i ++ (conn cfg s c).map (expand i)

def line (cfg : Config) (s : State) (g i : Nat) : List Message := s.lclnt (g, i) ++ up cfg s i g

def hand : ClientPc → List Reply
  | .relayed _ r => [r]
  | _ => []

def got (s : State) (g : Nat) : List Reply :=
  ((s.maitre.received s.maitre.test s.maitre.cleaning).filter (fun x => x.1 = g)).map Prod.snd

def way (s : State) : Nat → List Reply
  | 0 => s.tube 0
  | c + 1 => s.fromClient c ++ hand (s.client c) ++ s.tube (c + 1)

def back (s : State) (g : Nat) : List Reply := got s g ++ way s g

def Replied (s : State) (g i : Nat) : Prop := i ∈ (back s g).map Reply.slave

/-- The tests `0` to `k - 1`, and the section at `offset` for those of them that lock bytes. -/
def Done (cfg : Config) (e : Esclave) (offset k : Nat) : Prop :=
  e.executed = (List.range k).map (selectTest cfg) ∧ e.sections = List.replicate (k - 8) offset

section places
variable (cfg : Config) (k : Nat) (clean : Bool) (offset : Nat) (e : Esclave) (line : List Message)
  (replied : Prop)

def EsclaveAt : EsclavePc → Prop
  | .etat .sync =>
    (¬ replied ∧ line = commands cfg k clean offset ∧
      Done cfg e offset (if clean = true then k + 1 else k) ∧ (clean = false → e.locked = false)) ∨
    (replied ∧ line = [] ∧ k < maxtest ∧ Done cfg e offset (k + 1) ∧ (clean = true → e.locked = false))
  | .etat .rdonly | .etat .wronly | .etat .readlock | .etat .writelock =>
    ¬ replied ∧ clean = false ∧ k < 8 ∧ line = [] ∧ Done cfg e offset k ∧ e.tLock = selectTest cfg k
  | .etat .bytelockRead | .etat .bytelockWrite | .etat .bytelock =>
    ¬ replied ∧ clean = false ∧ 8 ≤ k ∧ k < maxtest ∧ line = [command cfg k .lockSection offset] ∧
      Done cfg e offset k ∧ e.tLock = selectTest cfg k
  | .lockSection =>
    ¬ replied ∧ clean = false ∧ 8 ≤ k ∧ k < maxtest ∧ line = [] ∧ e.tLock = selectTest cfg k ∧
      e.executed = (List.range k).map (selectTest cfg) ∧
      e.sections = List.replicate (k + 1 - 8) offset
  | .etat .resultat =>
    ¬ replied ∧ clean = false ∧ k < maxtest ∧ line = [] ∧ Done cfg e offset (k + 1)
  | .etat .clean => ¬ replied ∧ clean = true ∧ k < maxtest ∧ line = [] ∧ Done cfg e offset (k + 1)
  | .closed =>
    ¬ replied ∧ clean = true ∧ k < maxtest ∧ line = [] ∧ Done cfg e offset (k + 1) ∧ e.locked = false
  | .etat .fin | .finished =>
    ¬ replied ∧ clean = false ∧ k = maxtest ∧ line = [] ∧ Done cfg e offset maxtest
  | .etat .select | .etat .lock => False

end places

structure GroupInv (cfg : Config) (s : State) (g : Nat) : Prop where
  tags : ∀ r ∈ back s g, r.test = s.maitre.test ∧ r.ack = s.maitre.cleaning ∧ r.slave < cfg.nclnt
  nodup : ((back s g).map Reply.slave).Nodup
  count : owes cfg s.maitre g + (got s g).length = if s.maitre.test < maxtest then cfg.nclnt else 0
  esclaves : ∀ i, i < cfg.nclnt → EsclaveAt cfg s.maitre.test s.maitre.cleaning (g * cfg.nclnt + i)
    (s.esclave (g, i)) (line cfg s g i) (Replied s g i) (s.esclave (g, i)).pc

def passed (s : State) (c : Nat) : Nat := (got s (c + 1)).length + (s.fromClient c).length

def ClientAt (cfg : Config) (s : State) (c : Nat) : ClientPc → Prop
  | .select | .lockSection _ _ | .send _ _ =>
    (passed s c = 0 ∨ passed s c = cfg.nclnt) ∧ (s.maitre.test = maxtest → conn cfg s c = [command cfg maxtest .fin 0])
  | .relay i =>
    (i < cfg.nclnt → passed s c = i ∧ back s (c + 1) ≠ []) ∧
      (¬ i < cfg.nclnt → passed s c = 0 ∨ passed s c = cfg.nclnt) ∧
      (s.maitre.test = maxtest → conn cfg s c = [command cfg maxtest .fin 0])
  | .relayed i _ =>
    i < cfg.nclnt ∧ passed s c = i ∧ (s.maitre.test = maxtest → conn cfg s c = [command cfg maxtest .fin 0])
  | .fin _ _ | .finished => s.maitre.test = maxtest ∧ conn cfg s c = []

structure ClientInv (cfg : Config) (s : State) (c : Nat) : Prop where
  conn : conn cfg s c <:+ commands cfg s.maitre.test s.maitre.cleaning ((c + 1) * cfg.nclnt)
  place : ClientAt cfg s c (s.client c)

structure Complete (cfg : Config) (k : Nat) (clean : Bool) (log : List (Nat × Reply)) : Prop where
  tags : ∀ x ∈ log, x.1 < cfg.maxClients + 1 ∧ x.2.test = k ∧ x.2.ack = clean
  everyone : ∀ g, g < cfg.maxClients + 1 →
    List.Perm ((log.filter (fun x => x.1 = g)).map (fun x => x.2.slave)) (List.range cfg.nclnt)

def phase (k : Nat) (clean : Bool) : Nat := 2 * k + clean.toNat

structure HistoryInv (cfg : Config) (m : Maitre) : Prop where
  past : ∀ k clean, phase k clean < phase m.test m.cleaning → Complete cfg k clean (m.received k clean)
  present : ∀ x ∈ m.received m.test m.cleaning, x.1 < cfg.maxClients + 1
  future : ∀ k clean, phase m.test m.cleaning < phase k clean → m.received k clean = []

structure Inv (cfg : Config) (s : State) : Prop where
  maitre : MaitreOk cfg s.maitre
  group : ∀ g, g < cfg.maxClients + 1 → GroupInv cfg s g
  client : ∀ c, c < cfg.maxClients → ClientInv cfg s c
  history : HistoryInv cfg s.maitre

section keeps
variable {cfg : Config} {s t : State}

theorem GroupInv.keep {g : Nat} (inv : GroupInv cfg s g) (test : t.maitre.test = s.maitre.test)
    (cleaning : t.maitre.cleaning = s.maitre.cleaning)
    (count : owes cfg t.maitre g + (got t g).length = owes cfg s.maitre g + (got s g).length)
    (replies : back t g = back s g)
    (lines : ∀ i, i < cfg.nclnt → line cfg t g i = line cfg s g i)
    (esclave : ∀ i, i < cfg.nclnt → t.esclave (g, i) = s.esclave (g, i)) : GroupInv cfg t g := by
  refine ⟨?_, ?_, ?_, ?_⟩
  · rw [replies, test, cleaning]
    exact inv.tags
  · rw [replies]
    exact inv.nodup
  · rw [count, test]
    exact inv.count
  · intro i inside
    have same : Replied t g i = Replied s g i := by rw [Replied, Replied, replies]
    rw [lines i inside, esclave i inside, same, test, cleaning]
    exact inv.esclaves i inside

theorem ClientInv.keep {c : Nat} (inv : ClientInv cfg s c) (test : t.maitre.test = s.maitre.test)
    (cleaning : t.maitre.cleaning = s.maitre.cleaning) (line : VteLockTests.conn cfg t c = VteLockTests.conn cfg s c)
    (count : passed t c = passed s c) (replies : back s (c + 1) ≠ [] → back t (c + 1) ≠ [])
    (client : t.client c = s.client c) : ClientInv cfg t c := by
  obtain ⟨suffix, place⟩ := inv
  refine ⟨by rwa [line, test, cleaning], ?_⟩
  rw [client]
  cases pc : s.client c with
  | select | lockSection | send | relayed | fin | finished =>
    rw [pc] at place
    simp only [ClientAt, line, test, count] at place ⊢
    exact place
  | relay i =>
    rw [pc] at place
    simp only [ClientAt, line, test, count] at place ⊢
    obtain ⟨going, rest⟩ := place
    exact ⟨fun inside => ⟨(going inside).1, replies (going inside).2⟩, rest⟩

theorem got_same (received : t.maitre.received = s.maitre.received)
    (test : t.maitre.test = s.maitre.test) (cleaning : t.maitre.cleaning = s.maitre.cleaning)
    (g : Nat) : got t g = got s g := by
  rw [got, got, received, test, cleaning]

theorem up_same (conns : ∀ c, c < cfg.maxClients → conn cfg t c = conn cfg s c)
    (client : t.client = s.client) (loc : SameLoc cfg s.maitre t.maitre) {g i : Nat}
    (group : g < cfg.maxClients + 1) (inside : i < cfg.nclnt) : up cfg t i g = up cfg s i g := by
  cases g with
  | zero => exact loc i inside
  | succ c => rw [up, up, client, conns c (by omega)]

theorem HistoryInv.keep {m m' : Maitre} (inv : HistoryInv cfg m) (test : m'.test = m.test)
    (cleaning : m'.cleaning = m.cleaning) (received : m'.received = m.received) :
    HistoryInv cfg m' := by
  refine ⟨?_, ?_, ?_⟩
  · rw [test, cleaning, received]
    exact inv.past
  · rw [test, cleaning, received]
    exact inv.present
  · rw [test, cleaning, received]
    exact inv.future

theorem HistoryInv.read {m m' : Maitre} {g : Nat} {r : Reply} (inv : HistoryInv cfg m)
    (group : g < cfg.maxClients + 1) (test : m'.test = m.test) (cleaning : m'.cleaning = m.cleaning)
    (received : m'.received = fun k ack =>
      if k = m.test ∧ ack = m.cleaning then m.received k ack ++ [(g, r)] else m.received k ack) :
    HistoryInv cfg m' := by
  have others : ∀ k clean, phase k clean ≠ phase m.test m.cleaning → m'.received k clean = m.received k clean := by
    intro k clean other
    rw [received]
    refine if_neg ?_
    rintro ⟨rfl, rfl⟩
    exact other rfl
  refine ⟨?_, ?_, ?_⟩
  · rw [test, cleaning]
    intro k clean before
    rw [others k clean (by omega)]
    exact inv.past k clean before
  · intro x inside
    have now : m'.received m.test m.cleaning = m.received m.test m.cleaning ++ [(g, r)] := by
      rw [received]
      exact if_pos ⟨rfl, rfl⟩
    rw [test, cleaning, now] at inside
    rcases List.mem_append.mp inside with inside | inside
    · exact inv.present x inside
    · rw [List.mem_singleton.mp inside]
      exact group
  · rw [test, cleaning]
    intro k clean later
    rw [others k clean (by omega)]
    exact inv.future k clean later

theorem got_read {g g' : Nat} {r : Reply} (test : t.maitre.test = s.maitre.test)
    (cleaning : t.maitre.cleaning = s.maitre.cleaning)
    (received : t.maitre.received = fun k ack =>
      if k = s.maitre.test ∧ ack = s.maitre.cleaning then s.maitre.received k ack ++ [(g, r)]
      else s.maitre.received k ack) :
    got t g' = if g' = g then got s g' ++ [r] else got s g' := by
  have now : t.maitre.received s.maitre.test s.maitre.cleaning =
      s.maitre.received s.maitre.test s.maitre.cleaning ++ [(g, r)] := by
    rw [received]
    exact if_pos ⟨rfl, rfl⟩
  rw [got, got, test, cleaning, now, List.filter_append, List.map_append]
  split
  · rename_i same
    simp [same]
  · rename_i other
    have different : ¬ g = g' := fun same => other same.symm
    simp [different]

end keeps

section maitre
variable {cfg : Config} {s t : State}

theorem sending_inv (inv : Inv cfg s) (good : MaitreOk cfg t.maitre)
    (same : SamePhase cfg s.maitre t.maitre) (owed : SameOwes cfg s.maitre t.maitre)
    (received : t.maitre.received = s.maitre.received)
    (conns : ∀ c, c < cfg.maxClients → conn cfg t c = conn cfg s c)
    (lines : ∀ g i, g < cfg.maxClients + 1 → i < cfg.nclnt → line cfg t g i = line cfg s g i)
    (esclave : t.esclave = s.esclave) (client : t.client = s.client) (tube : t.tube = s.tube)
    (fromClient : t.fromClient = s.fromClient) : Inv cfg t := by
  have gotten := got_same received same.test same.cleaning
  have ways : ∀ g, back t g = back s g := by
    intro g
    rw [back, back, gotten]
    cases g with
    | zero => rw [way, way, tube]
    | succ c => rw [way, way, tube, fromClient, client]
  refine ⟨good, ?_, ?_, inv.history.keep same.test same.cleaning received⟩
  · intro g group
    refine (inv.group g group).keep same.test same.cleaning ?_ (ways g) ?_ ?_
    · rw [owed g group, gotten]
    · intro i inside
      exact lines g i group inside
    · intro i _
      rw [esclave]
  · intro c inside
    refine (inv.client c inside).keep same.test same.cleaning (conns c inside) ?_ ?_ ?_
    · rw [passed, passed, gotten, fromClient]
    · rw [ways]
      exact id
    · rw [client]

theorem silent_inv (inv : Inv cfg s) (good : MaitreOk cfg t.maitre)
    (same : SamePhase cfg s.maitre t.maitre) (net : SameNet cfg s.maitre t.maitre)
    (loc : SameLoc cfg s.maitre t.maitre) (owed : SameOwes cfg s.maitre t.maitre)
    (received : t.maitre.received = s.maitre.received) (rest : t = { s with maitre := t.maitre }) :
    Inv cfg t := by
  have conns : ∀ c, c < cfg.maxClients → conn cfg t c = conn cfg s c := by
    intro c inside
    rw [conn, conn, net c inside, rest]
  have client : t.client = s.client := by rw [rest]
  refine sending_inv inv good same owed received conns ?_ (by rw [rest]) client (by rw [rest])
    (by rw [rest])
  intro g i group inside
  rw [line, line, up_same conns client loc group inside, rest]

theorem to_net_inv {c : Nat} {message : Message} (inv : Inv cfg s) (good : MaitreOk cfg t.maitre)
    (same : SamePhase cfg s.maitre t.maitre)
    (sent : netTodo cfg s.maitre c = message :: netTodo cfg t.maitre c)
    (net : ∀ c', c' ≠ c → netTodo cfg t.maitre c' = netTodo cfg s.maitre c')
    (loc : SameLoc cfg s.maitre t.maitre) (owed : SameOwes cfg s.maitre t.maitre)
    (received : t.maitre.received = s.maitre.received)
    (rest : t = { s with
      maitre := t.maitre
      toClient := update s.toClient c (s.toClient c ++ [message]) }) : Inv cfg t := by
  have toClient : t.toClient = update s.toClient c (s.toClient c ++ [message]) := by rw [rest]
  have conns : ∀ c', c' < cfg.maxClients → conn cfg t c' = conn cfg s c' := by
    intro c' _
    rw [conn, conn, toClient]
    by_cases here : c' = c
    · rw [here, update_self, sent, List.append_assoc, List.singleton_append]
    · rw [update_of_ne here, net c' here]
  have client : t.client = s.client := by rw [rest]
  refine sending_inv inv good same owed received conns ?_ (by rw [rest]) client (by rw [rest])
    (by rw [rest])
  intro g i group inside
  rw [line, line, up_same conns client loc group inside, rest]

theorem to_loc_inv {j : Nat} {message : Message} (inv : Inv cfg s) (good : MaitreOk cfg t.maitre)
    (same : SamePhase cfg s.maitre t.maitre)
    (sent : locTodo cfg s.maitre j = message :: locTodo cfg t.maitre j)
    (net : SameNet cfg s.maitre t.maitre)
    (loc : ∀ i, i ≠ j → locTodo cfg t.maitre i = locTodo cfg s.maitre i)
    (owed : SameOwes cfg s.maitre t.maitre) (received : t.maitre.received = s.maitre.received)
    (rest : t = { s with
      maitre := t.maitre
      lclnt := update s.lclnt (0, j) (s.lclnt (0, j) ++ [message]) }) : Inv cfg t := by
  have lclnt : t.lclnt = update s.lclnt (0, j) (s.lclnt (0, j) ++ [message]) := by rw [rest]
  have conns : ∀ c, c < cfg.maxClients → conn cfg t c = conn cfg s c := by
    intro c inside
    rw [conn, conn, net c inside, rest]
  have client : t.client = s.client := by rw [rest]
  refine sending_inv inv good same owed received conns ?_ (by rw [rest]) client (by rw [rest])
    (by rw [rest])
  intro g i group inside
  rw [line, line, lclnt]
  cases g with
  | zero =>
    rw [up, up]
    by_cases here : i = j
    · rw [here, update_self, sent, List.append_assoc, List.singleton_append]
    · rw [update_of_ne (by simpa using here), loc i here]
  | succ c =>
    rw [up, up, client, conns c (by omega), update_of_ne (by simp)]

theorem from_net_inv {c : Nat} {r : Reply} {queue : List Reply} (inv : Inv cfg s)
    (good : MaitreOk cfg t.maitre) (inside : c < cfg.maxClients)
    (same : SamePhase cfg s.maitre t.maitre)
    (net : SameNet cfg s.maitre t.maitre) (loc : SameLoc cfg s.maitre t.maitre)
    (read : owes cfg s.maitre (c + 1) = owes cfg t.maitre (c + 1) + 1)
    (owed : ∀ g, g ≠ c + 1 → owes cfg t.maitre g = owes cfg s.maitre g)
    (received : t.maitre.received = fun k ack =>
      if k = s.maitre.test ∧ ack = s.maitre.cleaning then s.maitre.received k ack ++ [(c + 1, r)]
      else s.maitre.received k ack)
    (head : s.fromClient c = r :: queue)
    (rest : t = { s with maitre := t.maitre, fromClient := update s.fromClient c queue }) :
    Inv cfg t := by
  have gotten := fun g => @got_read s t (c + 1) g r same.test same.cleaning received
  have conns : ∀ c', c' < cfg.maxClients → conn cfg t c' = conn cfg s c' := by
    intro c' inside'
    rw [conn, conn, net c' inside', rest]
  have client : t.client = s.client := by rw [rest]
  have fromClient : t.fromClient = update s.fromClient c queue := by rw [rest]
  have tube : t.tube = s.tube := by rw [rest]
  have ways : ∀ g, back t g = back s g := by
    intro g
    rw [back, back, gotten]
    cases g with
    | zero => rw [if_neg (by omega), way, way, tube]
    | succ c' =>
      rw [way, way, tube, client, fromClient]
      by_cases here : c' = c
      · rw [here, if_pos rfl, update_self, head]
        simp only [List.append_assoc, List.cons_append, List.nil_append]
      · rw [if_neg (by omega), update_of_ne here]
  refine ⟨good, ?_, ?_, inv.history.read (by omega) same.test same.cleaning received⟩
  · intro g group
    refine (inv.group g group).keep same.test same.cleaning ?_ (ways g) ?_ ?_
    · rw [gotten]
      split
      · rename_i here
        rw [here, List.length_append, List.length_singleton]
        omega
      · rename_i other
        rw [owed g other]
    · intro i inside'
      rw [line, line, up_same conns client loc group inside', rest]
    · intro i _
      rw [rest]
  · intro c' inside'
    refine (inv.client c' inside').keep same.test same.cleaning (conns c' inside') ?_ ?_ ?_
    · rw [passed, passed, gotten, fromClient]
      by_cases here : c' = c
      · rw [here, if_pos rfl, update_self, head]
        simp only [List.length_append, List.length_cons, List.length_nil]
        omega
      · rw [if_neg (by omega), update_of_ne here]
    · rw [ways]
      exact id
    · rw [client]

theorem from_loc_inv {r : Reply} {queue : List Reply} (inv : Inv cfg s)
    (good : MaitreOk cfg t.maitre) (same : SamePhase cfg s.maitre t.maitre)
    (net : SameNet cfg s.maitre t.maitre) (loc : SameLoc cfg s.maitre t.maitre)
    (read : owes cfg s.maitre 0 = owes cfg t.maitre 0 + 1)
    (owed : ∀ g, g ≠ 0 → owes cfg t.maitre g = owes cfg s.maitre g)
    (received : t.maitre.received = fun k ack =>
      if k = s.maitre.test ∧ ack = s.maitre.cleaning then s.maitre.received k ack ++ [(0, r)]
      else s.maitre.received k ack)
    (head : s.tube 0 = r :: queue)
    (rest : t = { s with maitre := t.maitre, tube := update s.tube 0 queue }) : Inv cfg t := by
  have gotten := fun g => @got_read s t 0 g r same.test same.cleaning received
  have conns : ∀ c', c' < cfg.maxClients → conn cfg t c' = conn cfg s c' := by
    intro c' inside'
    rw [conn, conn, net c' inside', rest]
  have client : t.client = s.client := by rw [rest]
  have tube : t.tube = update s.tube 0 queue := by rw [rest]
  have fromClient : t.fromClient = s.fromClient := by rw [rest]
  have ways : ∀ g, back t g = back s g := by
    intro g
    rw [back, back, gotten]
    cases g with
    | zero => rw [if_pos rfl, way, way, tube, update_self, head, List.append_assoc]; rfl
    | succ c => rw [if_neg (by omega), way, way, tube, client, fromClient, update_of_ne (by omega)]
  refine ⟨good, ?_, ?_, inv.history.read (by omega) same.test same.cleaning received⟩
  · intro g group
    refine (inv.group g group).keep same.test same.cleaning ?_ (ways g) ?_ ?_
    · rw [gotten]
      split
      · rename_i here
        rw [here, List.length_append, List.length_singleton]
        omega
      · rename_i other
        rw [owed g other]
    · intro i inside'
      rw [line, line, up_same conns client loc group inside', rest]
    · intro i _
      rw [rest]
  · intro c' inside'
    refine (inv.client c' inside').keep same.test same.cleaning (conns c' inside') ?_ ?_ ?_
    · rw [passed, passed, gotten, fromClient, if_neg (by omega)]
    · rw [ways]
      exact id
    · rw [client]

theorem group_complete {g : Nat} (inv : GroupInv cfg s g) (going : s.maitre.test < maxtest)
    (owed : owes cfg s.maitre g = 0) :
    way s g = [] ∧ List.Perm ((got s g).map Reply.slave) (List.range cfg.nclnt) := by
  obtain ⟨tags, nodup, count, _⟩ := inv
  rw [owed, if_pos going, Nat.zero_add] at count
  have inside : (back s g).map Reply.slave ⊆ List.range cfg.nclnt := by
    intro i member
    obtain ⟨r, reply, rfl⟩ := List.mem_map.mp member
    exact List.mem_range.mpr (tags r reply).2.2
  have few := (List.subperm_of_subset nodup inside).length_le
  rw [List.length_map, List.length_range, back, List.length_append, count] at few
  have none_left : way s g = [] := List.eq_nil_of_length_eq_zero (by omega)
  have all : back s g = got s g := by rw [back, none_left, List.append_nil]
  rw [all] at nodup inside
  refine ⟨none_left, (List.subperm_of_subset nodup inside).perm_of_length_le ?_⟩
  rw [List.length_map, List.length_range, count]

theorem esclave_replied {k offset : Nat} {clean : Bool} {e : Esclave} {rest : List Message}
    {replied : Prop} {pc : EsclavePc} (place : EsclaveAt cfg k clean offset e rest replied pc)
    (done : replied) :
    pc = .etat .sync ∧ rest = [] ∧ k < maxtest ∧ Done cfg e offset (k + 1) ∧ (clean = true → e.locked = false) := by
  cases pc with
  | etat e' =>
    cases e' with
    | sync =>
      rcases place with waits | replied
      · exact absurd done waits.1
      · exact ⟨rfl, replied.2⟩
    | select | lock => exact place.elim
    | rdonly | wronly | readlock | writelock | bytelockRead | bytelockWrite | bytelock | resultat
      | clean | fin => exact absurd done place.1
  | lockSection | closed | finished => exact absurd done place.1

theorem expand_commands (cfg : Config) (k : Nat) (clean : Bool) (offset i : Nat) :
    (commands cfg k clean offset).map (expand i) = commands cfg k clean (offset + i) := by
  simp only [commands, after]
  split
  · rfl
  · split
    · rfl
    · split
      · rfl
      · rfl

theorem history_next {m : Maitre} (inv : Inv cfg s)
    (complete : ∀ g, g < cfg.maxClients + 1 → List.Perm ((got s g).map Reply.slave) (List.range cfg.nclnt))
    (next : phase s.maitre.test s.maitre.cleaning + 1 = phase m.test m.cleaning)
    (received : m.received = s.maitre.received) : HistoryInv cfg m := by
  refine ⟨?_, ?_, ?_⟩
  · intro k clean before
    rw [received]
    rcases Nat.lt_or_ge (phase k clean) (phase s.maitre.test s.maitre.cleaning) with earlier | now
    · exact inv.history.past k clean earlier
    · have same : k = s.maitre.test ∧ clean = s.maitre.cleaning := by
        have equal : phase k clean = phase s.maitre.test s.maitre.cleaning := by omega
        rw [phase, phase] at equal
        revert equal
        cases clean <;> cases s.maitre.cleaning <;> simp <;> omega
      obtain ⟨rfl, rfl⟩ := same
      refine ⟨?_, ?_⟩
      · intro x member
        have group := inv.history.present x member
        refine ⟨group, ?_⟩
        have reply : x.2 ∈ back s x.1 := by
          refine List.mem_append_left _ (List.mem_map.mpr ⟨x, ?_, rfl⟩)
          exact List.mem_filter.mpr ⟨member, by simp⟩
        obtain ⟨k_tag, ack_tag, _⟩ := (inv.group x.1 group).tags x.2 reply
        exact ⟨k_tag, ack_tag⟩
      · intro g group
        have perm := complete g group
        rw [got, List.map_map] at perm
        exact perm
  · intro x member
    rw [received, inv.history.future _ _ (by omega)] at member
    cases member
  · intro k clean later
    rw [received]
    exact inv.history.future k clean (by omega)

theorem group_next {g : Nat} (fresh : got t g = []) (quiet : way t g = [])
    (count : owes cfg t.maitre g = if t.maitre.test < maxtest then cfg.nclnt else 0)
    (waits : ∀ i, i < cfg.nclnt → (t.esclave (g, i)).pc = .etat .sync ∧
      line cfg t g i = commands cfg t.maitre.test t.maitre.cleaning (g * cfg.nclnt + i) ∧
      Done cfg (t.esclave (g, i)) (g * cfg.nclnt + i)
        (if t.maitre.cleaning = true then t.maitre.test + 1 else t.maitre.test) ∧
      (t.maitre.cleaning = false → (t.esclave (g, i)).locked = false)) : GroupInv cfg t g := by
  have none_back : back t g = [] := by
    rw [back, fresh, quiet]
    rfl
  refine ⟨?_, ?_, ?_, ?_⟩
  · rw [none_back]
    nofun
  · rw [none_back]
    exact List.nodup_nil
  · rw [count, fresh]
    rfl
  · intro i inside
    obtain ⟨pc, unread, done, unlocked⟩ := waits i inside
    have unreplied : ¬ Replied t g i := by
      rw [Replied, none_back]
      nofun
    rw [pc]
    exact Or.inl ⟨unreplied, unread, done, unlocked⟩

theorem client_next {c : Nat} (before : ClientInv cfg s c) (group : GroupInv cfg s (c + 1))
    (going : s.maitre.test < maxtest) (owed : owes cfg s.maitre (c + 1) = 0)
    (client : t.client c = s.client c) (empty : passed t c = 0)
    (conns : conn cfg t c = commands cfg t.maitre.test t.maitre.cleaning ((c + 1) * cfg.nclnt))
    (last : t.maitre.test = maxtest → conn cfg t c = [command cfg maxtest .fin 0]) :
    ClientInv cfg t c := by
  have place := before.place
  have full := group.count
  rw [owed, if_pos going, Nat.zero_add] at full
  refine ⟨⟨[], conns⟩, ?_⟩
  rw [client]
  cases pc : s.client c with
  | select | lockSection | send => exact ⟨Or.inl empty, last⟩
  | relay i =>
    rw [pc] at place
    refine ⟨?_, fun _ => Or.inl empty, last⟩
    intro going'
    have count := (place.1 going').1
    rw [passed] at count
    omega
  | relayed i r =>
    have silent := (group_complete group going owed).1
    rw [way, pc] at silent
    simp [hand] at silent
  | fin test i =>
    rw [pc] at place
    exact absurd place.1 (by omega)
  | finished =>
    rw [pc] at place
    exact absurd place.1 (by omega)

theorem phase_inv (some_slave : 0 < cfg.nclnt) (inv : Inv cfg s) (good : MaitreOk cfg t.maitre)
    (owed : ∀ g, owes cfg s.maitre g = 0) (going : s.maitre.test < maxtest)
    (test : t.maitre.test = if s.maitre.cleaning = true then s.maitre.test + 1 else s.maitre.test)
    (cleaning : t.maitre.cleaning = !s.maitre.cleaning)
    (net' : ∀ c, netTodo cfg t.maitre c = commands cfg t.maitre.test t.maitre.cleaning ((c + 1) * cfg.nclnt))
    (loc' : ∀ i, locTodo cfg t.maitre i = commands cfg t.maitre.test t.maitre.cleaning i)
    (owed' : ∀ g, owes cfg t.maitre g = if t.maitre.test < maxtest then cfg.nclnt else 0)
    (received : t.maitre.received = s.maitre.received) (rest : t = { s with maitre := t.maitre }) :
    Inv cfg t := by
  have next : phase s.maitre.test s.maitre.cleaning + 1 = phase t.maitre.test t.maitre.cleaning := by
    rw [test, cleaning, phase, phase]
    cases s.maitre.cleaning with
    | true => simp only [if_true, Bool.not_true, Bool.toNat_true, Bool.toNat_false]; omega
    | false =>
      simp only [Bool.false_eq_true, if_false, Bool.not_false, Bool.toNat_true, Bool.toNat_false]
  have client : t.client = s.client := by rw [rest]
  have esclave : t.esclave = s.esclave := by rw [rest]
  have complete := fun g (group : g < cfg.maxClients + 1) =>
    group_complete (inv.group g group) going (owed g)
  have quiet : ∀ g, g < cfg.maxClients + 1 → way t g = [] := by
    intro g group
    have none_left := (complete g group).1
    rw [rest]
    cases g with
    | zero => exact none_left
    | succ c => exact none_left
  have fresh : ∀ g, got t g = [] := by
    intro g
    have unread := inv.history.future t.maitre.test t.maitre.cleaning (by omega)
    rw [got, received, unread]
    rfl
  have place := fun g (group : g < cfg.maxClients + 1) i (inside : i < cfg.nclnt) =>
    esclave_replied ((inv.group g group).esclaves i inside) (by
      have member : i ∈ (got s g).map Reply.slave :=
        (complete g group).2.mem_iff.mpr (List.mem_range.mpr inside)
      rw [Replied, back, List.map_append]
      exact List.mem_append_left _ member)
  have sent : ∀ c, c < cfg.maxClients → s.toClient c = [] := by
    intro c inside
    have silent := (place (c + 1) (by omega) 0 some_slave).2.1
    rw [line, up, conn] at silent
    have mapped := (List.append_eq_nil_iff.mp (List.append_eq_nil_iff.mp silent).2).2
    exact (List.append_eq_nil_iff.mp (List.map_eq_nil_iff.mp mapped)).1
  have conns : ∀ c, c < cfg.maxClients → conn cfg t c =
      commands cfg t.maitre.test t.maitre.cleaning ((c + 1) * cfg.nclnt) := by
    intro c inside
    have empty : t.toClient c = [] := by
      rw [rest]
      exact sent c inside
    rw [conn, empty, net' c, List.nil_append]
  have lines : ∀ g i, g < cfg.maxClients + 1 → line cfg s g i = [] →
      line cfg t g i = commands cfg t.maitre.test t.maitre.cleaning (g * cfg.nclnt + i) := by
    intro g i group silent
    rw [line] at silent
    obtain ⟨read, written⟩ := List.append_eq_nil_iff.mp silent
    have read' : t.lclnt (g, i) = [] := by
      rw [rest]
      exact read
    rw [line, read', List.nil_append]
    cases g with
    | zero => rw [up, loc', Nat.zero_mul, Nat.zero_add]
    | succ c =>
      rw [up] at written
      rw [up, client, (List.append_eq_nil_iff.mp written).1, List.nil_append, conns c (by omega), expand_commands]
  refine ⟨good, ?_, ?_, history_next inv (fun g group => (complete g group).2) next received⟩
  · intro g group
    refine group_next (fresh g) (quiet g group) (owed' g) ?_
    intro i inside
    obtain ⟨pc, silent, _, done, unlocked⟩ := place g group i inside
    rw [esclave]
    refine ⟨pc, lines g i group silent, ?_, ?_⟩
    · rw [test, cleaning]
      cases s.maitre.cleaning with
      | true => exact done
      | false => exact done
    · intro tests
      rw [cleaning, Bool.not_eq_false'] at tests
      exact unlocked tests
  · intro c inside
    have empty : passed t c = 0 := by
      have silent := quiet (c + 1) (by omega)
      rw [way] at silent
      have unread := (List.append_eq_nil_iff.mp (List.append_eq_nil_iff.mp silent).1).1
      rw [passed, fresh, unread]
      rfl
    refine client_next (inv.client c inside) (inv.group (c + 1) (by omega)) going (owed _)
      (by rw [client]) empty (conns c inside) ?_
    intro ended
    have tests : s.maitre.cleaning = true := by
      by_contra other
      rw [if_neg other] at test
      omega
    rw [conns c inside, ended, cleaning, tests]
    rfl

theorem maitre_inv (some_slave : 0 < cfg.nclnt) (inv : Inv cfg s) (good : MaitreOk cfg t.maitre)
    (move : MaitreMove cfg s t) : Inv cfg t := by
  cases move with
  | silent same net loc owed received rest => exact silent_inv inv good same net loc owed received rest
  | toNet c message _ same sent net loc owed received rest =>
    exact to_net_inv inv good same sent net loc owed received rest
  | toLoc i message _ same sent net loc owed received rest =>
    exact to_loc_inv inv good same sent net loc owed received rest
  | fromNet c r queue inside same net loc read owed received head rest =>
    exact from_net_inv inv good inside same net loc read owed received head rest
  | fromLoc r queue same net loc read owed received head rest =>
    exact from_loc_inv inv good same net loc read owed received head rest
  | phase _ _ owed going test cleaning net' loc' owed' received rest =>
    exact phase_inv some_slave inv good owed going test cleaning net' loc' owed' received rest

end maitre
section client
variable {cfg : Config} {s t : State} {c : Nat}

theorem repeater_inv (inv : Inv cfg s) (maitre : t.maitre = s.maitre) (esclave : t.esclave = s.esclave)
    (client : ∀ c', c' ≠ c → t.client c' = s.client c')
    (lclnt : ∀ g i, g ≠ c + 1 → t.lclnt (g, i) = s.lclnt (g, i))
    (tube : ∀ g, g ≠ c + 1 → t.tube g = s.tube g)
    (toClient : ∀ c', c' ≠ c → t.toClient c' = s.toClient c')
    (fromClient : ∀ c', c' ≠ c → t.fromClient c' = s.fromClient c')
    (ways : way t (c + 1) = way s (c + 1))
    (lines : ∀ i, i < cfg.nclnt → line cfg t (c + 1) i = line cfg s (c + 1) i)
    (own : ClientInv cfg t c) : Inv cfg t := by
  have gotten : ∀ g, got t g = got s g := by
    intro g
    rw [got, got, maitre]
  have conns : ∀ c', c' ≠ c → conn cfg t c' = conn cfg s c' := by
    intro c' other
    rw [conn, conn, toClient c' other, maitre]
  have ways' : ∀ g, way t g = way s g := by
    intro g
    by_cases here : g = c + 1
    · rw [here, ways]
    · cases g with
      | zero => rw [way, way, tube 0 here]
      | succ c' =>
        have other : c' ≠ c := by omega
        rw [way, way, tube _ here, fromClient c' other, client c' other]
  have replies : ∀ g, back t g = back s g := by
    intro g
    rw [back, back, gotten, ways']
  refine ⟨by rw [maitre]; exact inv.maitre, ?_, ?_, by rw [maitre]; exact inv.history⟩
  · intro g group
    refine (inv.group g group).keep (by rw [maitre]) (by rw [maitre]) (by rw [maitre, gotten])
      (replies g) ?_ (fun i _ => by rw [esclave])
    intro i inside
    by_cases here : g = c + 1
    · rw [here]
      exact lines i inside
    · rw [line, line, lclnt g i here]
      cases g with
      | zero => rw [up, up, maitre]
      | succ c' =>
        have other : c' ≠ c := by omega
        rw [up, up, client c' other, conns c' other]
  · intro c' inside
    by_cases here : c' = c
    · rw [here]
      exact own
    · refine (inv.client c' inside).keep (by rw [maitre]) (by rw [maitre]) (conns c' here) ?_ ?_
        (client c' here)
      · rw [passed, passed, gotten, fromClient c' here]
      · rw [replies]
        exact id

theorem read_server_inv {message : Message} {rest : List Message} {pc : ClientPc} (inv : Inv cfg s)
    (here : s.client c = .select) (head : s.toClient c = message :: rest) (inside : c < cfg.maxClients)
    (told : ∀ j, repeats pc j = [expand j message])
    (quiet : hand pc = [])
    (own : conn cfg s c = message :: (rest ++ netTodo cfg s.maitre c) → passed s c = 0 ∨ passed s c = cfg.nclnt →
      ClientAt cfg { s with toClient := update s.toClient c rest, client := update s.client c pc } c pc) :
    Inv cfg { s with toClient := update s.toClient c rest, client := update s.client c pc } := by
  have before := inv.client c inside
  have place := before.place
  rw [here] at place
  have first : conn cfg s c = message :: (rest ++ netTodo cfg s.maitre c) := by
    rw [conn, head, List.cons_append]
  have conn_rest : conn cfg { s with toClient := update s.toClient c rest, client := update s.client c pc } c =
      rest ++ netTodo cfg s.maitre c := by
    rw [conn]
    simp only [update_self]
  refine repeater_inv inv rfl rfl (fun c' other => update_of_ne other _ _) (fun _ _ _ => rfl)
    (fun _ _ => rfl) (fun c' other => update_of_ne other _ _) (fun _ _ => rfl) ?_ ?_ ?_
  · simp only [way, update_self, quiet, here]
    rfl
  · intro i _
    have none_left : repeats .select i = [] := rfl
    rw [line, line, up, up, conn_rest, first, here, none_left, List.map_cons]
    simp only [update_self]
    rw [told]
    rfl
  · refine ⟨?_, ?_⟩
    · rw [conn_rest]
      have suffix := before.conn
      rw [first] at suffix
      exact List.IsSuffix.trans (List.suffix_cons _ _) suffix
    · simp only [update_self]
      exact own first place.1

theorem write_esclave_inv {pc pc' : ClientPc} {i : Nat} {m : Nat → Message} (inv : Inv cfg s)
    (here : s.client c = pc) (inside : c < cfg.maxClients)
    (before : ∀ j, repeats pc j = if i ≤ j then [m j] else [])
    (later : ∀ j, repeats pc' j = if i + 1 ≤ j then [m j] else [])
    (quiet : hand pc = []) (quiet' : hand pc' = [])
    (own : ∀ t, conn cfg t c = conn cfg s c → passed t c = passed s c → t.maitre = s.maitre →
      ClientAt cfg s c pc → ClientAt cfg t c pc') :
    Inv cfg { s.writeEsclave (c + 1) i (m i) with client := update s.client c pc' } := by
  have client := inv.client c inside
  refine repeater_inv inv rfl rfl (fun c' other => update_of_ne other _ _) ?_
    (fun _ _ => rfl) (fun _ _ => rfl) (fun _ _ => rfl) ?_ ?_ ?_
  · intro g j other
    exact update_of_ne (by simpa using fun same => absurd same other) _ _
  · simp only [way, update_self, quiet', here, quiet]
    rfl
  · intro j _
    rw [line, line, up, up, here, before]
    simp only [update_self, State.writeEsclave]
    rw [later]
    by_cases same : j = i
    · rw [same, update_self, if_neg (by omega), if_pos (Nat.le_refl i), List.append_assoc]
      rfl
    · rw [update_of_ne (by simpa using same)]
      by_cases told : i ≤ j
      · rw [if_pos told, if_pos (by omega)]
        rfl
      · rw [if_neg told, if_neg (by omega)]
        rfl
  · refine ⟨client.conn, ?_⟩
    simp only [update_self]
    have place := client.place
    rw [here] at place
    exact own _ rfl rfl rfl place

theorem loop_inv {pc pc' : ClientPc} (inv : Inv cfg s) (here : s.client c = pc)
    (inside : c < cfg.maxClients) (before : ∀ j, j < cfg.nclnt → repeats pc j = [])
    (later : ∀ j, j < cfg.nclnt → repeats pc' j = []) (quiet : hand pc = []) (quiet' : hand pc' = [])
    (own : ∀ t, conn cfg t c = conn cfg s c → passed t c = passed s c →
      back t (c + 1) = back s (c + 1) → t.maitre = s.maitre → ClientAt cfg s c pc →
      ClientAt cfg t c pc') :
    Inv cfg { s with client := update s.client c pc' } := by
  have client := inv.client c inside
  have ways : way { s with client := update s.client c pc' } (c + 1) = way s (c + 1) := by
    simp only [way, update_self, quiet', here, quiet]
  refine repeater_inv inv rfl rfl (fun c' other => update_of_ne other _ _) (fun _ _ _ => rfl)
    (fun _ _ => rfl) (fun _ _ => rfl) (fun _ _ => rfl) ways ?_ ?_
  · intro j bound
    rw [line, line, up, up, here, before j bound]
    simp only [update_self]
    rw [later j bound]
    rfl
  · refine ⟨client.conn, ?_⟩
    simp only [update_self]
    have place := client.place
    rw [here] at place
    refine own _ rfl rfl ?_ rfl place
    rw [back, back, ways]
    rfl

theorem take_reply_inv {i : Nat} {r : Reply} {rest : List Reply} (inv : Inv cfg s)
    (here : s.client c = .relay i) (head : s.tube (c + 1) = r :: rest) (inside : c < cfg.maxClients)
    (going : i < cfg.nclnt) :
    Inv cfg { s with
      tube := update s.tube (c + 1) rest
      client := update s.client c (.relayed i r) } := by
  have client := inv.client c inside
  have place := client.place
  rw [here] at place
  refine repeater_inv inv rfl rfl (fun c' other => update_of_ne other _ _) (fun _ _ _ => rfl)
    (fun g other => update_of_ne other _ _) (fun _ _ => rfl) (fun _ _ => rfl) ?_ ?_ ?_
  · simp only [way, update_self, here, head, hand, List.append_nil, List.append_assoc]
    rfl
  · intro j _
    rw [line, line, up, up, here]
    simp only [update_self]
    rfl
  · refine ⟨client.conn, ?_⟩
    simp only [update_self]
    exact ⟨going, (place.1 going).1, place.2.2⟩

theorem pass_reply_inv {i : Nat} {r : Reply} (inv : Inv cfg s) (here : s.client c = .relayed i r)
    (inside : c < cfg.maxClients) :
    Inv cfg { s with
      fromClient := update s.fromClient c (s.fromClient c ++ [r])
      client := update s.client c (.relay (i + 1)) } := by
  have client := inv.client c inside
  have place := client.place
  rw [here] at place
  obtain ⟨going, count, last⟩ := place
  have ways : way { s with
      fromClient := update s.fromClient c (s.fromClient c ++ [r])
      client := update s.client c (.relay (i + 1)) } (c + 1) = way s (c + 1) := by
    simp only [way, update_self, here, hand, List.append_nil]
  refine repeater_inv inv rfl rfl (fun c' other => update_of_ne other _ _) (fun _ _ _ => rfl)
    (fun _ _ => rfl) (fun _ _ => rfl) (fun c' other => update_of_ne other _ _) ways ?_ ?_
  · intro j _
    rw [line, line, up, up, here]
    simp only [update_self]
    rfl
  · have count' : passed { s with
        fromClient := update s.fromClient c (s.fromClient c ++ [r])
        client := update s.client c (.relay (i + 1)) } c = i + 1 := by
      rw [passed] at count
      rw [passed]
      simp only [update_self, List.length_append, List.length_singleton]
      change (got s (c + 1)).length + ((s.fromClient c).length + 1) = i + 1
      omega
    refine ⟨client.conn, ?_⟩
    simp only [update_self]
    refine ⟨fun _ => ⟨count', ?_⟩, fun finished => Or.inr (by rw [count']; omega), last⟩
    rw [back, ways, way, here, hand]
    simp

theorem test_le {m : Maitre} (good : MaitreOk cfg m) : m.test ≤ maxtest := by
  have place := good.place
  cases pc : m.pc with
  | etat e =>
    rw [pc] at place
    cases e with
    | select => exact place
    | rdonly | wronly => exact place.elim
    | readlock | writelock | lock => exact Nat.le_of_lt (Nat.lt_of_lt_of_le place.1 (by decide))
    | bytelockRead | bytelockWrite =>
      rw [place.1]
      decide
    | sync | bytelock | resultat | clean => exact Nat.le_of_lt place.1
    | fin => exact Nat.le_of_eq place.1
  | net what i | loc what i =>
    rw [pc] at place
    cases what with
    | test | lockSection | clean => exact Nat.le_of_lt place.1
    | fin => exact Nat.le_of_eq place.1
  | fromNet what c i =>
    rw [pc] at place
    cases what with
    | results => exact Nat.le_of_lt place.1
    | acks => exact Nat.le_of_lt place
  | fromLoc what i =>
    rw [pc] at place
    cases what with
    | results => exact Nat.le_of_lt place.1
    | acks => exact Nat.le_of_lt place
  | finished =>
    rw [pc] at place
    exact Nat.le_of_eq place
  | exited =>
    rw [pc] at place
    exact place.elim

theorem test_kind {k : Nat} (going : k < maxtest) :
    (k < 8 ∧ ((selectTest cfg k).test = .rdonly ∨ (selectTest cfg k).test = .wronly ∨
      (selectTest cfg k).test = .readlock ∨ (selectTest cfg k).test = .writelock)) ∨
    (8 ≤ k ∧ ((selectTest cfg k).test = .bytelockRead ∨ (selectTest cfg k).test = .bytelockWrite)) := by
  change k < 10 at going
  interval_cases k <;> simp [selectTest, listeTests]

theorem commands_fin {k offset : Nat} {clean : Bool} {test : STest} {rest : List Message}
    (bound : k ≤ maxtest) (suffix : .T test :: rest <:+ commands cfg k clean offset)
    (ends : test.test = .fin) : k = maxtest ∧ rest = [] := by
  have member : Message.T test ∈ commands cfg k clean offset :=
    suffix.subset (List.mem_cons_self ..)
  rw [commands] at member suffix
  split at member
  · simp only [List.mem_singleton, command, Message.T.injEq] at member
    rw [member] at ends
    cases ends
  · rename_i tests
    split at member
    · rename_i last
      rw [if_neg tests, if_pos last] at suffix
      refine ⟨last, ?_⟩
      have few := suffix.length_le
      simp only [List.length_cons, List.length_nil] at few
      exact List.eq_nil_of_length_eq_zero (by omega)
    · rename_i going
      exfalso
      have kind := @test_kind cfg k (by omega)
      have same : test = selectTest cfg k := by
        rcases List.mem_cons.mp member with first | second
        · exact Message.T.inj first
        · rw [after] at second
          split at second
          · simp [command] at second
          · cases second
      rw [← same, ends] at kind
      simp at kind

theorem wake_inv (inside : c < cfg.maxClients) (inv : Inv cfg s) (here : s.client c = .select)
    (replies : s.tube (c + 1) ≠ []) :
    Inv cfg { s with client := update s.client c (.relay 0) } := by
  refine loop_inv inv here inside (fun _ _ => rfl) (fun _ _ => rfl) rfl rfl ?_
  intro t line count back_same maitre idle
  have some_reply : back s (c + 1) ≠ [] := by
    intro none_back
    rw [back, way] at none_back
    exact replies (List.append_eq_nil_iff.mp (List.append_eq_nil_iff.mp none_back).2).2
  refine ⟨?_, ?_, ?_⟩
  · intro _
    rw [count, back_same]
    refine ⟨?_, some_reply⟩
    rcases idle.1 with none_passed | all_passed
    · exact none_passed
    · -- all replies were passed on, and the pipe has one more
      exfalso
      obtain ⟨tags, nodup, _, _⟩ := inv.group (c + 1) (by omega)
      have slaves : (back s (c + 1)).map Reply.slave ⊆ List.range cfg.nclnt := by
        intro i member
        obtain ⟨r, reply, rfl⟩ := List.mem_map.mp member
        exact List.mem_range.mpr (tags r reply).2.2
      have few := (List.subperm_of_subset nodup slaves).length_le
      have more := List.length_pos_of_ne_nil replies
      rw [passed] at all_passed
      simp only [List.length_map, List.length_range, back, way, List.length_append] at few
      omega
  · intro _
    rw [count]
    exact idle.1
  · rw [maitre, line]
    exact idle.2

theorem message_inv {message : Message} {rest : List Message} (inside : c < cfg.maxClients)
    (inv : Inv cfg s) (here : s.client c = .select) (head : s.toClient c = message :: rest)
    (taken : clientStep cfg c s = some t) : Inv cfg t := by
  have suffix := (inv.client c inside).conn
  have place := (inv.client c inside).place
  rw [here] at place
  have first : conn cfg s c = message :: (rest ++ netTodo cfg s.maitre c) := by
    rw [conn, head, List.cons_append]
  have told : ∀ j, (if 0 ≤ j then [expand j message] else []) = [expand j message] :=
    fun j => if_pos (Nat.zero_le j)
  simp only [clientStep, here, head] at taken
  cases message with
  | L lock =>
    obtain rfl := Option.some.inj taken
    refine read_server_inv inv here head inside told rfl ?_
    intro _ idle
    refine ⟨idle, ?_⟩
    intro last
    have ends := place.2 last
    rw [first] at ends
    cases ends
  | T test =>
    dsimp only at taken
    split at taken
    · rename_i ends
      obtain rfl := Option.some.inj taken
      refine read_server_inv inv here head inside told rfl ?_
      intro _ _
      rw [first] at suffix
      obtain ⟨last, none_left⟩ := commands_fin (test_le inv.maitre) suffix ends
      refine ⟨last, ?_⟩
      rw [conn]
      simp only [update_self]
      exact none_left
    · rename_i going
      obtain rfl := Option.some.inj taken
      refine read_server_inv inv here head inside told rfl ?_
      intro _ idle
      refine ⟨idle, ?_⟩
      intro last
      have ends := place.2 last
      rw [first] at ends
      have same : Message.T test = .T (finTest cfg) := (List.cons.inj ends).1
      rw [Message.T.inj same] at going
      exact absurd rfl going

theorem client_inv (inside : c < cfg.maxClients) (inv : Inv cfg s)
    (taken : clientStep cfg c s = some t) : Inv cfg t := by
  cases here : s.client c with
  | select =>
    cases head : s.toClient c with
    | nil =>
      simp only [clientStep, here, head] at taken
      split at taken
      · cases taken
      · rename_i replies
        obtain rfl := Option.some.inj taken
        exact wake_inv inside inv here replies
    | cons message rest => exact message_inv inside inv here head taken
  | lockSection lock i =>
    simp only [clientStep, here] at taken
    split at taken
    · obtain rfl := Option.some.inj taken
      refine write_esclave_inv (m := fun j => .L { lock with lStart := lock.lStart + j }) inv here
        inside (fun _ => rfl) (fun _ => rfl) rfl rfl ?_
      intro t line count maitre idle
      exact ⟨by rw [count]; exact idle.1, by rw [maitre, line]; exact idle.2⟩
    · rename_i ends
      obtain rfl := Option.some.inj taken
      refine loop_inv inv here inside (fun j bound => if_neg (by omega)) (fun _ _ => rfl) rfl rfl ?_
      intro t line count _ maitre idle
      exact ⟨by rw [count]; exact idle.1, by rw [maitre, line]; exact idle.2⟩
  | send test i =>
    simp only [clientStep, here] at taken
    split at taken
    · obtain rfl := Option.some.inj taken
      refine write_esclave_inv (m := fun _ => .T test) inv here inside (fun _ => rfl)
        (fun _ => rfl) rfl rfl ?_
      intro t line count maitre idle
      exact ⟨by rw [count]; exact idle.1, by rw [maitre, line]; exact idle.2⟩
    · rename_i ends
      obtain rfl := Option.some.inj taken
      refine loop_inv inv here inside (fun j bound => if_neg (by omega)) (fun _ _ => rfl) rfl rfl ?_
      intro t line count _ maitre idle
      exact ⟨by rw [count]; exact idle.1, by rw [maitre, line]; exact idle.2⟩
  | fin test i =>
    simp only [clientStep, here] at taken
    split at taken
    · obtain rfl := Option.some.inj taken
      refine write_esclave_inv (m := fun _ => .T test) inv here inside (fun _ => rfl)
        (fun _ => rfl) rfl rfl ?_
      intro t line _ maitre last
      exact ⟨by rw [maitre]; exact last.1, by rw [line]; exact last.2⟩
    · rename_i ends
      obtain rfl := Option.some.inj taken
      refine loop_inv inv here inside (fun j bound => if_neg (by omega)) (fun _ _ => rfl) rfl rfl ?_
      intro t line _ _ maitre last
      exact ⟨by rw [maitre]; exact last.1, by rw [line]; exact last.2⟩
  | relay i =>
    simp only [clientStep, here] at taken
    split at taken
    · rename_i going
      cases head : s.tube (c + 1) with
      | nil => simp [head] at taken
      | cons r rest =>
        simp only [head] at taken
        obtain rfl := Option.some.inj taken
        exact take_reply_inv inv here head inside going
    · rename_i ends
      obtain rfl := Option.some.inj taken
      refine loop_inv inv here inside (fun _ _ => rfl) (fun _ _ => rfl) rfl rfl ?_
      intro t line count _ maitre relays
      exact ⟨by rw [count]; exact relays.2.1 ends, by rw [maitre, line]; exact relays.2.2⟩
  | relayed i r =>
    simp only [clientStep, here] at taken
    obtain rfl := Option.some.inj taken
    exact pass_reply_inv inv here inside
  | finished => simp [clientStep, here] at taken

end client
section esclave
variable {cfg : Config} {s t : State} {g i : Nat}

theorem lines_other (maitre : t.maitre = s.maitre) (client : t.client = s.client)
    (toClient : t.toClient = s.toClient) (g' j : Nat) : up cfg t j g' = up cfg s j g' := by
  cases g' with
  | zero => rw [up, up, maitre]
  | succ c => rw [up, up, conn, conn, client, toClient, maitre]

theorem slave_inv (inv : Inv cfg s) (maitre : t.maitre = s.maitre) (client : t.client = s.client)
    (toClient : t.toClient = s.toClient) (fromClient : t.fromClient = s.fromClient)
    (lclnt : ∀ p, p ≠ (g, i) → t.lclnt p = s.lclnt p)
    (esclave : ∀ p, p ≠ (g, i) → t.esclave p = s.esclave p)
    (others : ∀ g', g' ≠ g → back t g' = back s g') (kept : back s g ≠ [] → back t g ≠ [])
    (own : GroupInv cfg s g → GroupInv cfg t g) : Inv cfg t := by
  have ups := @lines_other cfg s t maitre client toClient
  have gotten : ∀ g', got t g' = got s g' := by
    intro g'
    rw [got, got, maitre]
  refine ⟨by rw [maitre]; exact inv.maitre, ?_, ?_, by rw [maitre]; exact inv.history⟩
  · intro g' group
    have before := inv.group g' group
    by_cases here : g' = g
    · rw [here] at before ⊢
      exact own before
    · refine before.keep (by rw [maitre]) (by rw [maitre]) (by rw [gotten, maitre]) (others g' here)
        ?_ ?_
      · intro j _
        rw [line, line, ups, lclnt _ (by simp [here])]
      · intro j _
        exact esclave _ (by simp [here])
  · intro c inside
    refine (inv.client c inside).keep (by rw [maitre]) (by rw [maitre]) ?_ ?_ ?_ (by rw [client])
    · rw [conn, conn, toClient, maitre]
    · rw [passed, passed, gotten, fromClient]
    · by_cases here : c + 1 = g
      · rw [here]
        exact kept
      · rw [others _ here]
        exact id

theorem own_inv (inv : Inv cfg s) (maitre : t.maitre = s.maitre) (client : t.client = s.client)
    (tube : t.tube = s.tube) (toClient : t.toClient = s.toClient)
    (fromClient : t.fromClient = s.fromClient)
    (lclnt : ∀ p, p ≠ (g, i) → t.lclnt p = s.lclnt p)
    (esclave : ∀ p, p ≠ (g, i) → t.esclave p = s.esclave p)
    (own : EsclaveAt cfg s.maitre.test s.maitre.cleaning (g * cfg.nclnt + i) (t.esclave (g, i))
      (t.lclnt (g, i) ++ up cfg s i g) (Replied s g i) (t.esclave (g, i)).pc) : Inv cfg t := by
  have ups := @lines_other cfg s t maitre client toClient
  have replies : ∀ g', back t g' = back s g' := by
    intro g'
    rw [back, back, got, got, maitre]
    cases g' with
    | zero => rw [way, way, tube]
    | succ c => rw [way, way, tube, client, fromClient]
  refine slave_inv inv maitre client toClient fromClient lclnt esclave (fun g' _ => replies g')
    (by rw [replies]; exact id) ?_
  rintro ⟨tags, nodup, count, esclaves⟩
  refine ⟨?_, ?_, ?_, ?_⟩
  · rw [replies, maitre]
    exact tags
  · rw [replies]
    exact nodup
  · rw [got, maitre]
    exact count
  · intro j inside
    have same : Replied t g j = Replied s g j := by rw [Replied, Replied, replies]
    rw [line, ups, same, maitre]
    by_cases this : j = i
    · rw [this]
      exact own
    · have other : (g, j) ≠ (g, i) := by simpa using this
      rw [lclnt _ other, esclave _ other]
      exact esclaves j inside

theorem reply_inv {r : Reply} (inv : Inv cfg s) (inside : i < cfg.nclnt)
    (maitre : t.maitre = s.maitre) (client : t.client = s.client)
    (tube : t.tube = update s.tube g (s.tube g ++ [r])) (toClient : t.toClient = s.toClient)
    (fromClient : t.fromClient = s.fromClient) (lclnt : t.lclnt = s.lclnt)
    (esclave : ∀ p, p ≠ (g, i) → t.esclave p = s.esclave p) (fresh : ¬ Replied s g i)
    (slave : r.slave = i) (tags : r.test = s.maitre.test ∧ r.ack = s.maitre.cleaning)
    (own : ∀ replied : Prop, replied →
      EsclaveAt cfg s.maitre.test s.maitre.cleaning (g * cfg.nclnt + i) (t.esclave (g, i))
        (line cfg s g i) replied (t.esclave (g, i)).pc) : Inv cfg t := by
  have ups := @lines_other cfg s t maitre client toClient
  have replies : back t g = back s g ++ [r] := by
    rw [back, back, got, got, maitre]
    cases g with
    | zero => rw [way, way, tube, update_self, List.append_assoc]
    | succ c =>
      rw [way, way, tube, client, fromClient, update_self]
      simp only [List.append_assoc]
  have others : ∀ g', g' ≠ g → back t g' = back s g' := by
    intro g' other
    rw [back, back, got, got, maitre]
    cases g' with
    | zero => rw [way, way, tube, update_of_ne other]
    | succ c => rw [way, way, tube, client, fromClient, update_of_ne other]
  refine slave_inv inv maitre client toClient fromClient (fun p _ => by rw [lclnt]) esclave others
    (by rw [replies]; simp) ?_
  rintro ⟨before, nodup, count, esclaves⟩
  refine ⟨?_, ?_, ?_, ?_⟩
  · rw [replies, maitre]
    intro r' member
    rcases List.mem_append.mp member with member | member
    · exact before r' member
    · rw [List.mem_singleton.mp member]
      exact ⟨tags.1, tags.2, by omega⟩
  · rw [replies, List.map_append, List.map_singleton]
    refine List.nodup_append.mpr ⟨nodup, List.nodup_singleton _, ?_⟩
    intro j member j' member' same
    rw [List.mem_singleton, slave] at member'
    rw [same, member'] at member
    exact fresh member
  · rw [got, maitre]
    exact count
  · intro j inside'
    rw [line, ups, lclnt, maitre]
    by_cases this : j = i
    · rw [this]
      have replied : Replied t g i := by
        rw [Replied, replies, List.map_append, List.map_singleton, slave]
        exact List.mem_append_right _ (List.mem_singleton_self i)
      exact own _ replied
    · have same : Replied t g j = Replied s g j := by
        rw [Replied, Replied, replies, List.map_append, List.map_singleton, slave]
        simp [this]
      rw [same, esclave _ (by simpa using this)]
      exact esclaves j inside'

theorem cleaning_going {m : Maitre} (good : MaitreOk cfg m) (cleans : m.cleaning = true) :
    m.test < maxtest := by
  have place := good.place
  cases pc : m.pc with
  | etat e =>
    rw [pc] at place
    simp only [Maitre.cleaning, pc] at cleans
    cases e <;> simp at cleans
    exact place.1
  | net what j | loc what j =>
    rw [pc] at place
    simp only [Maitre.cleaning, pc] at cleans
    cases what <;> simp at cleans
    exact place.1
  | fromNet what c j | fromLoc what j =>
    rw [pc] at place
    simp only [Maitre.cleaning, pc] at cleans
    cases what <;> simp at cleans
    exact place
  | finished | exited => simp [Maitre.cleaning, pc] at cleans

theorem first_command {k offset : Nat} {clean : Bool} {e : Esclave} {message : Message}
    {rest : List Message} {replied : Prop} (bound : k ≤ maxtest) (cleans : clean = true → k < maxtest)
    (place : EsclaveAt cfg k clean offset e (message :: rest) replied (.etat .sync)) :
    ∃ test, message = .T test ∧
      EsclaveAt cfg k clean offset { e with tLock := test, pc := .etat test.test } rest replied
        (.etat test.test) := by
  rcases place with ⟨waits, all, done, _⟩ | ⟨_, silent, _⟩
  · rw [commands] at all
    cases clean with
    | true =>
      rw [if_pos rfl] at all
      obtain ⟨first, none_left⟩ := List.cons.inj all
      exact ⟨cleanTest cfg k, first, waits, rfl, cleans rfl, none_left, done⟩
    | false =>
      rw [if_neg (by simp)] at all
      by_cases last : k = maxtest
      · rw [if_pos last] at all
        obtain ⟨first, none_left⟩ := List.cons.inj all
        refine ⟨finTest cfg, first, waits, rfl, last, none_left, ?_⟩
        rw [← last]
        exact done
      · rw [if_neg last] at all
        obtain ⟨first, others⟩ := List.cons.inj all
        refine ⟨selectTest cfg k, first, ?_⟩
        rcases @test_kind cfg k (by omega) with ⟨whole, kind⟩ | ⟨bytes, kind⟩
        · rw [after, if_neg (by omega)] at others
          rcases kind with kind | kind | kind | kind
          all_goals
            rw [kind]
            exact ⟨waits, rfl, whole, others, done, rfl⟩
        · rw [after, if_pos bytes] at others
          rcases kind with kind | kind
          all_goals
            rw [kind]
            exact ⟨waits, rfl, bytes, by omega, others, done, rfl⟩
  · cases silent

theorem done_next {e : Esclave} {offset k : Nat} (done : Done cfg e offset k) (whole : k < 8)
    (tLock : e.tLock = selectTest cfg k) (ok locks : Bool) :
    Done cfg (tried e ok locks) offset (k + 1) := by
  obtain ⟨executed, sections⟩ := done
  refine ⟨?_, ?_⟩
  · change e.executed ++ [e.tLock] = _
    rw [executed, tLock, List.range_succ, List.map_append]
    rfl
  · change e.sections = _
    rw [sections, Nat.sub_eq_zero_of_le (by omega), Nat.sub_eq_zero_of_le (by omega)]

theorem esclave_inv {ok : Bool} (group : g < cfg.maxClients + 1) (inside : i < cfg.nclnt)
    (inv : Inv cfg s) (taken : esclaveStep g i ok s = some t) : Inv cfg t := by
  have bound := test_le inv.maitre
  have cleans := cleaning_going inv.maitre
  have place := (inv.group g group).esclaves i inside
  have others : ∀ e p, p ≠ (g, i) → update s.esclave (g, i) e p = s.esclave p :=
    fun e p other => update_of_ne other _ _
  cases here : (s.esclave (g, i)).pc with
  | etat e =>
    rw [here] at place
    cases e with
    | select | lock => exact place.elim
    | sync =>
      simp only [esclaveStep, here] at taken
      cases head : s.lclnt (g, i) with
      | nil => simp [head] at taken
      | cons message rest =>
        rw [line, head, List.cons_append] at place
        obtain ⟨test, rfl, own⟩ := first_command bound cleans place
        simp only [head] at taken
        obtain rfl := Option.some.inj taken
        refine own_inv inv rfl rfl rfl rfl rfl (fun p other => update_of_ne other _ _) (others _) ?_
        simp only [update_self]
        exact own
    | rdonly | wronly =>
      simp only [esclaveStep, here] at taken
      obtain rfl := Option.some.inj taken
      obtain ⟨waits, tests, whole, silent, done, tLock⟩ := place
      refine own_inv inv rfl rfl rfl rfl rfl (fun _ _ => rfl) (others _) ?_
      simp only [update_self]
      exact ⟨waits, tests, Nat.lt_of_lt_of_le whole (by decide), silent, done_next done whole tLock ok false⟩
    | readlock | writelock =>
      simp only [esclaveStep, here] at taken
      obtain rfl := Option.some.inj taken
      obtain ⟨waits, tests, whole, silent, done, tLock⟩ := place
      refine own_inv inv rfl rfl rfl rfl rfl (fun _ _ => rfl) (others _) ?_
      simp only [update_self]
      exact ⟨waits, tests, Nat.lt_of_lt_of_le whole (by decide), silent, done_next done whole tLock ok true⟩
    | bytelockRead | bytelockWrite =>
      simp only [esclaveStep, here] at taken
      obtain rfl := Option.some.inj taken
      refine own_inv inv rfl rfl rfl rfl rfl (fun _ _ => rfl) (others _) ?_
      simp only [update_self]
      exact place
    | bytelock =>
      simp only [esclaveStep, here] at taken
      obtain ⟨waits, tests, bytes, going, all, done, tLock⟩ := place
      cases head : s.lclnt (g, i) with
      | nil => simp [head] at taken
      | cons message rest =>
        rw [line, head, List.cons_append] at all
        obtain ⟨rfl, none_left⟩ := List.cons.inj all
        simp only [head, command] at taken
        obtain rfl := Option.some.inj taken
        refine own_inv inv rfl rfl rfl rfl rfl (fun p other => update_of_ne other _ _) (others _) ?_
        simp only [update_self]
        refine ⟨waits, tests, bytes, going, none_left, tLock, done.1, ?_⟩
        change (s.esclave (g, i)).sections ++ [g * cfg.nclnt + i] = _
        have next : s.maitre.test + 1 - 8 = (s.maitre.test - 8) + 1 := by omega
        rw [done.2, next, List.replicate_succ']
    | resultat =>
      simp only [esclaveStep, here] at taken
      obtain rfl := Option.some.inj taken
      obtain ⟨waits, tests, going, silent, done⟩ := place
      refine reply_inv inv inside rfl rfl rfl rfl rfl rfl (others _) waits rfl ⟨?_, tests.symm⟩ ?_
      · change (s.esclave (g, i)).executed.length - 1 = s.maitre.test
        rw [done.1, List.length_map, List.length_range]
        rfl
      · intro replied done'
        simp only [sendResult, update_self]
        exact Or.inr ⟨done', silent, going, done, fun clean => absurd clean (by simp [tests])⟩
    | clean =>
      simp only [esclaveStep, here] at taken
      obtain rfl := Option.some.inj taken
      obtain ⟨waits, clean, going, silent, done⟩ := place
      refine own_inv inv rfl rfl rfl rfl rfl (fun _ _ => rfl) (others _) ?_
      simp only [update_self]
      exact ⟨waits, clean, going, silent, done, rfl⟩
    | fin =>
      simp only [esclaveStep, here] at taken
      obtain rfl := Option.some.inj taken
      refine own_inv inv rfl rfl rfl rfl rfl (fun _ _ => rfl) (others _) ?_
      simp only [update_self]
      exact place
  | lockSection =>
    rw [here] at place
    simp only [esclaveStep, here] at taken
    obtain rfl := Option.some.inj taken
    obtain ⟨waits, tests, bytes, going, silent, tLock, executed, sections⟩ := place
    refine own_inv inv rfl rfl rfl rfl rfl (fun _ _ => rfl) (others _) ?_
    simp only [update_self]
    refine ⟨waits, tests, going, silent, ?_, sections⟩
    change (s.esclave (g, i)).executed ++ [(s.esclave (g, i)).tLock] = _
    rw [executed, tLock, List.range_succ, List.map_append]
    rfl
  | closed =>
    rw [here] at place
    simp only [esclaveStep, here] at taken
    obtain rfl := Option.some.inj taken
    obtain ⟨waits, clean, going, silent, done, unlocked⟩ := place
    refine reply_inv inv inside rfl rfl rfl rfl rfl rfl (others _) waits rfl ⟨?_, clean.symm⟩ ?_
    · change (s.esclave (g, i)).executed.length - 1 = s.maitre.test
      rw [done.1, List.length_map, List.length_range]
      rfl
    · intro replied done'
      simp only [sendResult, update_self]
      exact Or.inr ⟨done', silent, going, done, fun _ => unlocked⟩
  | finished => simp [esclaveStep, here] at taken

end esclave
section runs
variable {cfg : Config} {s t : State}

theorem commands_some (cfg : Config) (k : Nat) (clean : Bool) (offset : Nat) :
    commands cfg k clean offset ≠ [] := by
  rw [commands]
  split
  · rintro ⟨⟩
  · split
    · rintro ⟨⟩
    · rintro ⟨⟩

theorem up_unsent (unsent : ∀ offset sent, todo cfg s.maitre offset sent =
      commands cfg s.maitre.test s.maitre.cleaning offset) (g i : Nat) : up cfg s i g ≠ [] := by
  cases g with
  | zero =>
    rw [up, locTodo, unsent]
    exact commands_some _ _ _ _
  | succ c =>
    rw [up, conn, netTodo, unsent]
    intro silent
    have mapped := List.map_eq_nil_iff.mp (List.append_eq_nil_iff.mp silent).2
    exact commands_some _ _ _ _ (List.append_eq_nil_iff.mp mapped).2

theorem lock_free (inv : Inv cfg s) (here : s.maitre.pc = .etat .lock) : ¬ SomeLock cfg s := by
  rintro ⟨g, group, i, inside, locked⟩
  have maitre := inv.maitre.place
  rw [here] at maitre
  have whole : s.maitre.test < 8 := maitre.1
  have tests : s.maitre.cleaning = false := by simp only [Maitre.cleaning, here]
  have unread : line cfg s g i ≠ [] := by
    intro silent
    exact up_unsent (fun _ _ => todo_etat here (by rintro ⟨⟩) (by rintro ⟨⟩)) g i (List.append_eq_nil_iff.mp silent).2
  have place := (inv.group g group).esclaves i inside
  cases pc : (s.esclave (g, i)).pc with
  | etat e =>
    rw [pc] at place
    cases e with
    | sync =>
      rcases place with ⟨_, _, _, unlocked⟩ | ⟨_, silent, _⟩
      · rw [unlocked tests] at locked
        cases locked
      · exact unread silent
    | select | lock => exact place.elim
    | rdonly | wronly | readlock | writelock => exact unread place.2.2.2.1
    | bytelockRead | bytelockWrite | bytelock => exact absurd whole (by have := place.2.2.1; omega)
    | resultat => exact unread place.2.2.2.1
    | clean => exact unread place.2.2.2.1
    | fin => exact unread place.2.2.2.1
  | lockSection =>
    rw [pc] at place
    exact unread place.2.2.2.2.1
  | closed =>
    rw [pc] at place
    exact unread place.2.2.2.1
  | finished =>
    rw [pc] at place
    exact unread place.2.2.2.1

theorem start_inv : Inv cfg (start cfg) := by
  have conns : ∀ c, conn cfg (start cfg) c = commands cfg 0 false ((c + 1) * cfg.nclnt) :=
    fun _ => rfl
  have none_back : ∀ g, back (start cfg) g = [] := by
    intro g
    cases g <;> rfl
  refine ⟨⟨Nat.zero_le _, fun other => absurd rfl other, rfl⟩, ?_, ?_, ?_, ?_, ?_⟩
  · intro g _
    refine ⟨by rw [none_back]; nofun, by rw [none_back]; exact List.nodup_nil, rfl, ?_⟩
    intro i _
    refine Or.inl ⟨by rw [Replied, none_back]; nofun, ?_, ⟨rfl, rfl⟩, fun _ => rfl⟩
    cases g with
    | zero =>
      rw [Nat.zero_mul, Nat.zero_add]
      rfl
    | succ c =>
      rw [line, up, conns, expand_commands]
      rfl
  · intro c _
    exact ⟨⟨[], conns c⟩, Or.inl rfl, nofun⟩
  · intro k clean before
    exact absurd before (Nat.not_lt_zero _)
  · nofun
  · intro _ _ _
    rfl

theorem step_inv (some_slave : 0 < cfg.nclnt) (act : Act) (s t : State) (inv : Inv cfg s)
    (taken : step cfg act s = some t) : Inv cfg t := by
  cases act with
  | maitre ok held =>
    obtain ⟨move, good⟩ := maitre_moves inv.maitre (lock_free inv) taken
    exact maitre_inv some_slave inv good move
  | client c =>
    simp only [step] at taken
    split at taken
    · rename_i inside
      exact client_inv inside inv taken
    · cases taken
  | esclave g i ok =>
    simp only [step] at taken
    split at taken
    · rename_i inside
      exact esclave_inv inside.1 inside.2 inv taken
    · cases taken

end runs
end VteLockTests
