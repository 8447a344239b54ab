import Vte.Nfs.LockTests
import Mathlib.Data.List.Range
import Mathlib.Tactic.IntervalCases

/-!
What one step of the master does, in terms of what it still has to send and to read in the phase it is
in: the tests 0 to 9 with a phase of cleaning after each, and the end.
-/
namespace VteLockTests
open Function Machine

def Maitre.test (m : Maitre) : Nat :=
  match m.pc with
  | .etat .select => m.n
  | _ => m.n - 1

def Maitre.cleaning (m : Maitre) : Bool :=
  match m.pc with
  | .etat .clean | .net .clean _ | .loc .clean _ | .fromNet .acks _ _ | .fromLoc .acks _ => true
  | _ => false

section commands
variable (cfg : Config) (k : Nat)

def cleanTest : STest := { selectTest cfg k with test := .clean }

def finTest : STest := { selectTest cfg maxtest with test := .fin }

def sectionAt (offset : Nat) : Flock := ⟨if k = 8 then fRdlck else fWrlck, offset, 1⟩

/-- What each kind of message is in the phases of test `k`, where sections start at `offset`. -/
def command (what : Sending) (offset : Nat) : Message :=
  match what with
  | .test => .T (selectTest cfg k)
  | .lockSection => .L (sectionAt k offset)
  | .clean => .T (cleanTest cfg k)
  | .fin => .T (finTest cfg)

def after (what : Sending) (offset : Nat) : List Message :=
  match what with
  | .test => if 8 ≤ k then [command cfg k .lockSection offset] else []
  | .lockSection | .clean | .fin => []

/-- All that is sent in a phase to who has its sections at `offset`. -/
def commands (clean : Bool) (offset : Nat) : List Message :=
  if clean = true then [command cfg k .clean offset]
  else if k = maxtest then [command cfg k .fin offset]
  else command cfg k .test offset :: after cfg k .test offset

end commands

/-- What the master still sends in this phase to one of the clients or of its own slaves; `sent` says
    whether a loop over them has been there. -/
def todo (cfg : Config) (m : Maitre) (offset : Nat) (sent : MaitrePc → Bool) : List Message :=
  match m.pc with
  | .etat .resultat | .fromNet _ _ _ | .fromLoc _ _ | .finished | .exited => []
  | .etat .bytelock => [command cfg m.test .lockSection offset]
  | .etat _ => commands cfg m.test m.cleaning offset
  | .net what _ | .loc what _ =>
    (if sent m.pc = true then [] else [command cfg m.test what offset]) ++ after cfg m.test what offset

def netSent (c : Nat) : MaitrePc → Bool
  | .net _ i => c < i
  | _ => true

def locSent (i : Nat) : MaitrePc → Bool
  | .loc _ j => i < j
  | _ => false

def netTodo (cfg : Config) (m : Maitre) (c : Nat) : List Message :=
  todo cfg m ((c + 1) * cfg.nclnt) (netSent c)

def locTodo (cfg : Config) (m : Maitre) (i : Nat) : List Message := todo cfg m i (locSent i)

def owes (cfg : Config) (m : Maitre) (g : Nat) : Nat :=
  match m.pc with
  | .fromNet _ c i =>
    if g = 0 then cfg.nclnt
    else if g - 1 < c then 0
    else if g - 1 = c then cfg.nclnt - i
    else cfg.nclnt
  | .fromLoc _ i => if g = 0 then cfg.nclnt - i else 0
  | .finished | .exited => 0
  | _ => if m.test < maxtest then cfg.nclnt else 0

def SendingAt (cfg : Config) (m : Maitre) (k : Nat) (what : Sending) : Prop :=
  match what with
  | .test =>
    k < maxtest ∧ m.bl = decide (8 ≤ k) ∧ m.tLock = selectTest cfg k ∧ (8 ≤ k → m.request.lType = (sectionAt k 0).lType)
  | .lockSection =>
    k < maxtest ∧ 8 ≤ k ∧ m.bl = true ∧ m.tLock = selectTest cfg k ∧
      m.request.lType = (sectionAt k 0).lType ∧ m.request.lLen = 1
  | .clean => k < maxtest ∧ m.tLock = cleanTest cfg k
  | .fin => k = maxtest ∧ m.tLock = finTest cfg

def ReceivingAt (cfg : Config) (m : Maitre) (k : Nat) (what : Receiving) : Prop :=
  match what with
  | .results => k < maxtest ∧ m.bl = decide (8 ≤ k) ∧ m.tLock = selectTest cfg k
  | .acks => k < maxtest

def MaitreAt (cfg : Config) (m : Maitre) (k : Nat) : MaitrePc → Prop
  | .etat .select => k ≤ maxtest
  | .etat .readlock | .etat .writelock | .etat .lock => k < 8 ∧ m.bl = false ∧ m.tLock = selectTest cfg k
  | .etat .bytelockRead => k = 8 ∧ m.tLock = selectTest cfg k
  | .etat .bytelockWrite => k = 9 ∧ m.tLock = selectTest cfg k
  | .etat .sync => SendingAt cfg m k .test
  | .etat .bytelock =>
    k < maxtest ∧ 8 ≤ k ∧ m.bl = true ∧ m.tLock = selectTest cfg k ∧ m.request.lType = (sectionAt k 0).lType
  | .etat .resultat => ReceivingAt cfg m k .results
  | .etat .clean => k < maxtest ∧ m.tLock = selectTest cfg k
  | .etat .fin => k = maxtest ∧ m.tLock = selectTest cfg k
  | .net what _ | .loc what _ => SendingAt cfg m k what
  | .fromNet what _ _ | .fromLoc what _ => ReceivingAt cfg m k what
  | .finished => k = maxtest
  | .etat .rdonly | .etat .wronly | .exited => False

structure MaitreOk (cfg : Config) (m : Maitre) : Prop where
  place : MaitreAt cfg m m.test m.pc
  next : m.pc ≠ .etat .select → m.n = m.test + 1
  performed : m.performed = List.range (min m.n maxtest)

structure SamePhase (cfg : Config) (m m' : Maitre) : Prop where
  test : m'.test = m.test
  cleaning : m'.cleaning = m.cleaning

def SameNet (cfg : Config) (m m' : Maitre) : Prop :=
  ∀ c, c < cfg.maxClients → netTodo cfg m' c = netTodo cfg m c

def SameLoc (cfg : Config) (m m' : Maitre) : Prop :=
  ∀ i, i < cfg.nclnt → locTodo cfg m' i = locTodo cfg m i

def SameOwes (cfg : Config) (m m' : Maitre) : Prop :=
  ∀ g, g < cfg.maxClients + 1 → owes cfg m' g = owes cfg m g

inductive MaitreMove (cfg : Config) (s t : State) : Prop where
  | silent (same : SamePhase cfg s.maitre t.maitre) (net : SameNet cfg s.maitre t.maitre)
      (loc : SameLoc cfg s.maitre t.maitre) (owed : SameOwes cfg s.maitre t.maitre)
      (received : t.maitre.received = s.maitre.received)
      (rest : t = { s with maitre := t.maitre })
  | toNet (c : Nat) (message : Message) (inside : c < cfg.maxClients)
      (same : SamePhase cfg s.maitre t.maitre)
      (sent : netTodo cfg s.maitre c = message :: netTodo cfg t.maitre c)
      (net : ∀ c', c' ≠ c → netTodo cfg t.maitre c' = netTodo cfg s.maitre c')
      (loc : SameLoc cfg s.maitre t.maitre) (owed : SameOwes cfg s.maitre t.maitre)
      (received : t.maitre.received = s.maitre.received)
      (rest : t = { s with
        maitre := t.maitre
        toClient := update s.toClient c (s.toClient c ++ [message]) })
  | toLoc (i : Nat) (message : Message) (inside : i < cfg.nclnt)
      (same : SamePhase cfg s.maitre t.maitre)
      (sent : locTodo cfg s.maitre i = message :: locTodo cfg t.maitre i)
      (net : SameNet cfg s.maitre t.maitre)
      (loc : ∀ i', i' ≠ i → locTodo cfg t.maitre i' = locTodo cfg s.maitre i')
      (owed : SameOwes cfg s.maitre t.maitre)
      (received : t.maitre.received = s.maitre.received)
      (rest : t = { s with
        maitre := t.maitre
        lclnt := update s.lclnt (0, i) (s.lclnt (0, i) ++ [message]) })
  | fromNet (c : Nat) (r : Reply) (queue : List Reply) (inside : c < cfg.maxClients)
      (same : SamePhase cfg s.maitre t.maitre)
      (net : SameNet cfg s.maitre t.maitre) (loc : SameLoc cfg s.maitre t.maitre)
      (read : owes cfg s.maitre (c + 1) = owes cfg t.maitre (c + 1) + 1)
      (owed : ∀ g, g ≠ c + 1 → owes cfg t.maitre g = owes cfg s.maitre g)
      (received : t.maitre.received = fun k ack =>
        if k = s.maitre.test ∧ ack = s.maitre.cleaning then s.maitre.received k ack ++ [(c + 1, r)]
        else s.maitre.received k ack)
      (head : s.fromClient c = r :: queue)
      (rest : t = { s with maitre := t.maitre, fromClient := update s.fromClient c queue })
  | fromLoc (r : Reply) (queue : List Reply) (same : SamePhase cfg s.maitre t.maitre)
      (net : SameNet cfg s.maitre t.maitre) (loc : SameLoc cfg s.maitre t.maitre)
      (read : owes cfg s.maitre 0 = owes cfg t.maitre 0 + 1)
      (owed : ∀ g, g ≠ 0 → owes cfg t.maitre g = owes cfg s.maitre g)
      (received : t.maitre.received = fun k ack =>
        if k = s.maitre.test ∧ ack = s.maitre.cleaning then s.maitre.received k ack ++ [(0, r)]
        else s.maitre.received k ack)
      (head : s.tube 0 = r :: queue)
      (rest : t = { s with maitre := t.maitre, tube := update s.tube 0 queue })
  | phase (net : ∀ c, c < cfg.maxClients → netTodo cfg s.maitre c = [])
      (loc : ∀ i, i < cfg.nclnt → locTodo cfg s.maitre i = [])
      (owed : ∀ g, owes cfg s.maitre g = 0) (going : s.maitre.test < maxtest)
      (test : t.maitre.test = if s.maitre.cleaning = true then s.maitre.test + 1 else s.maitre.test)
      (cleaning : t.maitre.cleaning = !s.maitre.cleaning)
      (net' : ∀ c, netTodo cfg t.maitre c = commands cfg t.maitre.test t.maitre.cleaning ((c + 1) * cfg.nclnt))
      (loc' : ∀ i, locTodo cfg t.maitre i = commands cfg t.maitre.test t.maitre.cleaning i)
      (owed' : ∀ g, owes cfg t.maitre g = if t.maitre.test < maxtest then cfg.nclnt else 0)
      (received : t.maitre.received = s.maitre.received)
      (rest : t = { s with maitre := t.maitre })

section steps
variable {cfg : Config} {s t : State} {ok : Bool} {held : Nat → Bool}

theorem net_message {m : Maitre} {what : Sending} {i c : Nat} (here : m.pc = .net what i)
    (place : MaitreAt cfg m m.test m.pc) :
    netMessage cfg m what c = command cfg m.test what ((c + 1) * cfg.nclnt) := by
  rw [here] at place
  cases what with
  | test => rw [netMessage, command, place.2.2.1]
  | clean => rw [netMessage, command, place.2]
  | fin => rw [netMessage, command, place.2]
  | lockSection =>
    obtain ⟨_, _, _, _, lType, lLen⟩ := place
    simp only [netMessage, command, lLen, lType]
    rfl

theorem loc_message {m : Maitre} {what : Sending} {i j : Nat} (here : m.pc = .loc what i)
    (place : MaitreAt cfg m m.test m.pc) : locMessage m what j = command cfg m.test what j := by
  rw [here] at place
  cases what with
  | test => rw [locMessage, command, place.2.2.1]
  | clean => rw [locMessage, command, place.2]
  | fin => rw [locMessage, command, place.2]
  | lockSection =>
    obtain ⟨_, _, _, _, lType, lLen⟩ := place
    simp only [locMessage, command, lLen, lType]
    rfl

theorem net_todo_at {m : Maitre} {what : Sending} {i c : Nat} (here : m.pc = .net what i) :
    netTodo cfg m c = (if c < i then [] else [command cfg m.test what ((c + 1) * cfg.nclnt)]) ++
      after cfg m.test what ((c + 1) * cfg.nclnt) := by
  simp only [netTodo, todo, here, netSent, decide_eq_true_eq]

theorem loc_todo_net {m : Maitre} {what : Sending} {i j : Nat} (here : m.pc = .net what i) :
    locTodo cfg m j = [command cfg m.test what j] ++ after cfg m.test what j := by
  simp [locTodo, todo, here, locSent]

theorem net_todo_loc {m : Maitre} {what : Sending} {i c : Nat} (here : m.pc = .loc what i) :
    netTodo cfg m c = after cfg m.test what ((c + 1) * cfg.nclnt) := by
  simp [netTodo, todo, here, netSent]

theorem loc_todo_at {m : Maitre} {what : Sending} {i j : Nat} (here : m.pc = .loc what i) :
    locTodo cfg m j = (if j < i then [] else [command cfg m.test what j]) ++ after cfg m.test what j := by
  simp only [locTodo, todo, here, locSent, decide_eq_true_eq]

theorem owes_sending {m : Maitre} {what : Sending} {i g : Nat}
    (here : m.pc = .net what i ∨ m.pc = .loc what i) :
    owes cfg m g = if m.test < maxtest then cfg.nclnt else 0 := by
  rcases here with here | here
  · simp only [owes, here]
  · simp only [owes, here]

theorem sending_move {what : Sending} {pc : MaitrePc} {i j : Nat} {m : Maitre}
    (good : MaitreOk cfg m) (here : m.pc = .net what i ∨ m.pc = .loc what i)
    (there : pc = .net what j ∨ pc = .loc what j) :
    SamePhase cfg m { m with pc := pc } ∧ MaitreOk cfg { m with pc := pc } ∧ SameOwes cfg m { m with pc := pc } := by
  obtain ⟨place, next, performed⟩ := good
  have same : SamePhase cfg m { m with pc := pc } := by
    rcases here with here | here <;> rcases there with rfl | rfl <;>
      exact ⟨by simp only [Maitre.test, here], by cases what <;> simp only [Maitre.cleaning, here]⟩
  have sending : SendingAt cfg m m.test what := by
    rcases here with here | here
    · rwa [here] at place
    · rwa [here] at place
  have count : m.n = m.test + 1 := by
    apply next
    rcases here with here | here
    · rw [here]
      nofun
    · rw [here]
      nofun
  refine ⟨same, ⟨?_, ?_, performed⟩, ?_⟩
  · rw [same.test]
    rcases there with rfl | rfl
    · exact sending
    · exact sending
  · intro _
    rw [same.test]
    exact count
  · intro g _
    rw [owes_sending here, owes_sending there, same.test]

theorem test_eq {m : Maitre} (inside : m.pc ≠ .etat .select) : m.test = m.n - 1 := by
  rw [Maitre.test]
  split
  · rename_i select
    exact absurd select inside
  · rfl

theorem silent_to {m' : Maitre} (good : MaitreOk cfg s.maitre) (here : s.maitre.pc ≠ .etat .select)
    (there : m'.pc ≠ .etat .select) (n : m'.n = s.maitre.n)
    (performed : m'.performed = s.maitre.performed) (received : m'.received = s.maitre.received)
    (cleaning : m'.cleaning = s.maitre.cleaning) (place : MaitreAt cfg m' s.maitre.test m'.pc)
    (net : m'.test = s.maitre.test → SameNet cfg s.maitre m')
    (loc : m'.test = s.maitre.test → SameLoc cfg s.maitre m')
    (owed : m'.test = s.maitre.test → SameOwes cfg s.maitre m') :
    MaitreMove cfg s { s with maitre := m' } ∧ MaitreOk cfg m' := by
  have test : m'.test = s.maitre.test := by rw [test_eq here, test_eq there, n]
  refine ⟨.silent ⟨test, cleaning⟩ (net test) (loc test) (owed test) received rfl, ?_, ?_, ?_⟩
  · rw [test]
    exact place
  · intro _
    rw [n, test]
    exact good.next here
  · rw [performed, n]
    exact good.performed

theorem owes_first {m : Maitre} {what : Receiving} {g : Nat} :
    owes cfg { m with pc := .fromNet what 0 0 } g = cfg.nclnt := by
  simp only [owes]
  split
  · rfl
  · rw [if_neg (Nat.not_lt_zero _)]
    split
    · rfl
    · rfl

theorem net_move {what : Sending} {i : Nat} (good : MaitreOk cfg s.maitre)
    (here : s.maitre.pc = .net what i) (taken : maitreStep cfg ok held s = some t) :
    MaitreMove cfg s t ∧ MaitreOk cfg t.maitre := by
  have message := @net_message cfg s.maitre what i i here good.place
  simp only [maitreStep, here] at taken
  split at taken
  · rename_i inside
    obtain rfl := Option.some.inj taken
    have there : ({ s.maitre with pc := .net what (i + 1) } : Maitre).pc = .net what (i + 1) := rfl
    obtain ⟨same, good', owed⟩ := sending_move good (Or.inl here) (Or.inl there)
    refine ⟨.toNet i _ inside same ?_ ?_ ?_ owed rfl rfl, good'⟩
    · rw [net_todo_at here, net_todo_at there, same.test, message, if_neg (Nat.lt_irrefl i),
        if_pos (Nat.lt_succ_self i)]
      rfl
    · intro c other
      rw [net_todo_at here, net_todo_at there, same.test]
      by_cases before : c < i
      · rw [if_pos before, if_pos (by omega)]
      · rw [if_neg before, if_neg (by omega)]
    · intro j _
      rw [loc_todo_net here, loc_todo_net there, same.test]
  · rename_i last
    obtain rfl := Option.some.inj taken
    have there : ({ s.maitre with pc := .loc what 0 } : Maitre).pc = .loc what 0 := rfl
    obtain ⟨same, good', owed⟩ := sending_move good (Or.inl here) (Or.inr there)
    refine ⟨.silent same ?_ ?_ owed rfl rfl, good'⟩
    · intro c inside
      rw [net_todo_at here, net_todo_loc there, same.test, if_pos (by omega), List.nil_append]
    · intro j _
      rw [loc_todo_net here, loc_todo_at there, same.test, if_neg (Nat.not_lt_zero j)]

theorem after_sends_move {what : Sending} {i : Nat} (good : MaitreOk cfg s.maitre)
    (here : s.maitre.pc = .loc what i) (last : ¬ i < cfg.nclnt) :
    MaitreMove cfg s { s with maitre := { s.maitre with pc := afterSends s.maitre what } } ∧
      MaitreOk cfg { s.maitre with pc := afterSends s.maitre what } := by
  have place := good.place
  rw [here] at place
  cases what with
  | test =>
    obtain ⟨going, bl, tLock, lType⟩ := place
    by_cases bytes : 8 ≤ s.maitre.test
    · have locks : s.maitre.bl = true := by rw [bl, decide_eq_true bytes]
      rw [afterSends, if_pos locks]
      refine silent_to good (by rw [here]; rintro ⟨⟩) (by rintro ⟨⟩) rfl rfl rfl
        (by simp only [Maitre.cleaning, here]) ⟨going, bytes, locks, tLock, lType bytes⟩ ?_ ?_ ?_
      · intro same c inside
        rw [net_todo_loc here, after, if_pos bytes, ← same]
        rfl
      · intro same j inside
        rw [loc_todo_at here, if_pos (by omega), after, if_pos bytes, ← same]
        rfl
      · intro same g _
        rw [owes_sending (Or.inr here), ← same]
        rfl
    · have locks : ¬ s.maitre.bl = true := by rw [bl, decide_eq_true_eq]; exact bytes
      have count := good.next (by rw [here]; rintro ⟨⟩)
      rw [afterSends, if_neg locks, if_pos (by omega)]
      refine silent_to good (by rw [here]; rintro ⟨⟩) (by rintro ⟨⟩) rfl rfl rfl
        (by simp only [Maitre.cleaning, here]) ⟨going, bl, tLock⟩ ?_ ?_ ?_
      · intro same c inside
        rw [net_todo_loc here, after, if_neg bytes]
        rfl
      · intro same j inside
        rw [loc_todo_at here, if_pos (by omega), after, if_neg bytes]
        rfl
      · intro same g _
        rw [owes_sending (Or.inr here), ← same]
        rfl
  | lockSection =>
    obtain ⟨going, bytes, bl, tLock, _⟩ := place
    refine silent_to good (by rw [here]; rintro ⟨⟩) (by rintro ⟨⟩) rfl rfl rfl
      (by simp only [Maitre.cleaning, here, afterSends]) ⟨going, ?_, tLock⟩ ?_ ?_ ?_
    · rw [decide_eq_true bytes]
      exact bl
    · intro same c inside
      rw [net_todo_loc here]
      rfl
    · intro same j inside
      rw [loc_todo_at here, if_pos (by omega)]
      rfl
    · intro same g _
      rw [owes_sending (Or.inr here), ← same]
      rfl
  | clean =>
    refine silent_to good (by rw [here]; rintro ⟨⟩) (by rintro ⟨⟩) rfl rfl rfl
      (by simp only [Maitre.cleaning, here, afterSends]) place.1 ?_ ?_ ?_
    · intro same c inside
      rw [net_todo_loc here]
      rfl
    · intro same j inside
      rw [loc_todo_at here, if_pos (by omega)]
      rfl
    · intro same g _
      rw [owes_sending (Or.inr here), if_pos place.1]
      exact owes_first
  | fin =>
    obtain ⟨ended, _⟩ := place
    refine silent_to good (by rw [here]; rintro ⟨⟩) (by rintro ⟨⟩) rfl rfl rfl
      (by simp only [Maitre.cleaning, here, afterSends]) ended ?_ ?_ ?_
    · intro same c inside
      rw [net_todo_loc here]
      rfl
    · intro same j inside
      rw [loc_todo_at here, if_pos (by omega)]
      rfl
    · intro same g _
      rw [owes_sending (Or.inr here), if_neg (by omega)]
      rfl

theorem loc_move {what : Sending} {i : Nat} (good : MaitreOk cfg s.maitre)
    (here : s.maitre.pc = .loc what i) (taken : maitreStep cfg ok held s = some t) :
    MaitreMove cfg s t ∧ MaitreOk cfg t.maitre := by
  have message := @loc_message cfg s.maitre what i i here good.place
  simp only [maitreStep, here] at taken
  split at taken
  · rename_i inside
    obtain rfl := Option.some.inj taken
    have there : ({ s.maitre with pc := .loc what (i + 1) } : Maitre).pc = .loc what (i + 1) := rfl
    obtain ⟨same, good', owed⟩ := sending_move good (Or.inr here) (Or.inr there)
    refine ⟨.toLoc i _ inside same ?_ ?_ ?_ owed rfl rfl, good'⟩
    · rw [loc_todo_at here, loc_todo_at there, same.test, message, if_neg (Nat.lt_irrefl i),
        if_pos (Nat.lt_succ_self i)]
      rfl
    · intro c _
      rw [net_todo_loc here, net_todo_loc there, same.test]
    · intro j other
      rw [loc_todo_at here, loc_todo_at there, same.test]
      by_cases before : j < i
      · rw [if_pos before, if_pos (by omega)]
      · rw [if_neg before, if_neg (by omega)]
  · rename_i last
    obtain rfl := Option.some.inj taken
    exact after_sends_move good here last

theorem from_net_sent {m : Maitre} {what : Receiving} {c i : Nat} (here : m.pc = .fromNet what c i) :
    (∀ c', netTodo cfg m c' = []) ∧ ∀ j, locTodo cfg m j = [] := by
  simp only [netTodo, locTodo, todo, here, implies_true, and_self]

theorem from_loc_sent {m : Maitre} {what : Receiving} {i : Nat} (here : m.pc = .fromLoc what i) :
    (∀ c', netTodo cfg m c' = []) ∧ ∀ j, locTodo cfg m j = [] := by
  simp only [netTodo, locTodo, todo, here, implies_true, and_self]

theorem owes_net {m : Maitre} {what : Receiving} {c i g : Nat} (here : m.pc = .fromNet what c i) :
    owes cfg m g =
      if g = 0 then cfg.nclnt
      else if g - 1 < c then 0
      else if g - 1 = c then cfg.nclnt - i
      else cfg.nclnt := by
  simp only [owes, here]

theorem owes_loc {m : Maitre} {what : Receiving} {i g : Nat} (here : m.pc = .fromLoc what i) :
    owes cfg m g = if g = 0 then cfg.nclnt - i else 0 := by
  simp only [owes, here]

theorem receiving {m : Maitre} {what : Receiving}
    (here : (∃ c i, m.pc = .fromNet what c i) ∨ ∃ i, m.pc = .fromLoc what i) :
    m.pc ≠ .etat .select ∧ m.cleaning = decide (what = .acks) := by
  rcases here with ⟨c, i, here⟩ | ⟨i, here⟩
  · refine ⟨by rw [here]; nofun, ?_⟩
    cases what <;> simp only [Maitre.cleaning, here] <;> rfl
  · refine ⟨by rw [here]; nofun, ?_⟩
    cases what <;> simp only [Maitre.cleaning, here] <;> rfl

theorem read_reply {m m' : Maitre} {what : Receiving} {g : Nat} {r : Reply} {pc : MaitrePc}
    (good : MaitreOk cfg m) (here : (∃ c i, m.pc = .fromNet what c i) ∨ ∃ i, m.pc = .fromLoc what i)
    (there : (∃ c i, pc = .fromNet what c i) ∨ ∃ i, pc = .fromLoc what i)
    (read : m' = { readReply m what g r with pc := pc }) :
    SamePhase cfg m m' ∧ MaitreOk cfg m' ∧ m'.received = fun k ack =>
      if k = m.test ∧ ack = m.cleaning then m.received k ack ++ [(g, r)] else m.received k ack := by
  have pc' : m'.pc = pc := by rw [read]
  obtain ⟨inside, cleaning⟩ := receiving here
  obtain ⟨inside', cleaning'⟩ := @receiving m' what (by rwa [pc'])
  have kept : m'.n = m.n ∧ m'.performed = m.performed := by
    rw [read]
    cases what with
    | results => exact ⟨rfl, rfl⟩
    | acks => exact ⟨rfl, rfl⟩
  obtain ⟨n, performed⟩ := kept
  have test : m'.test = m.test := by rw [test_eq inside, test_eq inside', n]
  have before : ReceivingAt cfg m m.test what := by
    have place := good.place
    rcases here with ⟨c, i, here⟩ | ⟨i, here⟩
    · rwa [here] at place
    · rwa [here] at place
  have place : ReceivingAt cfg m' m.test what := by
    rw [read]
    cases what with
    | results => exact before
    | acks => exact before
  refine ⟨⟨test, cleaning'.trans cleaning.symm⟩, ⟨?_, ?_, ?_⟩, ?_⟩
  · rw [test, pc']
    rcases there with ⟨c, i, rfl⟩ | ⟨i, rfl⟩
    · exact place
    · exact place
  · intro _
    rw [test, n]
    exact good.next inside
  · rw [performed, n]
    exact good.performed
  · rw [read, test_eq inside, cleaning]
    cases what with
    | results => rfl
    | acks => rfl

theorem from_net_move {what : Receiving} {c i : Nat} (good : MaitreOk cfg s.maitre)
    (here : s.maitre.pc = .fromNet what c i) (taken : maitreStep cfg ok held s = some t) :
    MaitreMove cfg s t ∧ MaitreOk cfg t.maitre := by
  obtain ⟨inside, cleaning⟩ := receiving (Or.inl ⟨c, i, here⟩)
  have place := good.place
  rw [here] at place
  simp only [maitreStep, here] at taken
  split at taken
  · rename_i client
    split at taken
    · rename_i slave
      cases head : s.fromClient c with
      | nil => simp [head] at taken
      | cons r queue =>
        simp only [head] at taken
        obtain rfl := Option.some.inj taken
        have there : ({ readReply s.maitre what (c + 1) r with pc := .fromNet what c (i + 1) } :
          Maitre).pc = .fromNet what c (i + 1) := rfl
        obtain ⟨same, good', received⟩ :=
          read_reply good (Or.inl ⟨c, i, here⟩) (Or.inl ⟨c, i + 1, there⟩) rfl
        refine ⟨.fromNet c r queue client same ?_ ?_ ?_ ?_ received head rfl, good'⟩
        · intro c' _
          rw [(from_net_sent here).1, (from_net_sent there).1]
        · intro j _
          rw [(from_net_sent here).2, (from_net_sent there).2]
        · rw [owes_net here, owes_net there]
          simp only [Nat.succ_ne_zero, if_false, Nat.add_sub_cancel, Nat.lt_irrefl, if_true]
          omega
        · intro g other
          rw [owes_net here, owes_net there]
          by_cases zero : g = 0
          · rw [if_pos zero, if_pos zero]
          · rw [if_neg zero, if_neg zero, if_neg (by omega : ¬ g - 1 = c), if_neg (by omega : ¬ g - 1 = c)]
    · rename_i last
      obtain rfl := Option.some.inj taken
      have there : ({ s.maitre with pc := .fromNet what (c + 1) 0 } : Maitre).pc = .fromNet what (c + 1) 0 := rfl
      have cleaning' := (receiving (Or.inl ⟨c + 1, 0, there⟩)).2
      refine silent_to good inside nofun rfl rfl rfl (cleaning'.trans cleaning.symm) place ?_ ?_ ?_
      · intro _ c' _
        rw [(from_net_sent here).1, (from_net_sent there).1]
      · intro _ j _
        rw [(from_net_sent here).2, (from_net_sent there).2]
      · intro _ g _
        rw [owes_net here, owes_net there]
        by_cases zero : g = 0
        · rw [if_pos zero, if_pos zero]
        · rw [if_neg zero, if_neg zero]
          rcases Nat.lt_trichotomy (g - 1) c with before | now | later
          · rw [if_pos before, if_pos (by omega)]
          · rw [if_pos (by omega : g - 1 < c + 1), if_neg (by omega : ¬ g - 1 < c), if_pos now]
            omega
          · rw [if_neg (by omega : ¬ g - 1 < c + 1), if_neg (by omega : ¬ g - 1 < c),
              if_neg (by omega : ¬ g - 1 = c), Nat.sub_zero, ite_self]
  · rename_i last
    obtain rfl := Option.some.inj taken
    have there : ({ s.maitre with pc := .fromLoc what 0 } : Maitre).pc = .fromLoc what 0 := rfl
    have cleaning' := (receiving (Or.inr ⟨0, there⟩)).2
    refine silent_to good inside nofun rfl rfl rfl (cleaning'.trans cleaning.symm) place ?_ ?_ ?_
    · intro _ c' _
      rw [(from_net_sent here).1, (from_loc_sent there).1]
    · intro _ j _
      rw [(from_net_sent here).2, (from_loc_sent there).2]
    · intro _ g inside'
      rw [owes_net here, owes_loc there]
      by_cases zero : g = 0
      · rw [if_pos zero, if_pos zero, Nat.sub_zero]
      · rw [if_neg zero, if_neg zero, if_pos (by omega)]

theorem after_replies_move {what : Receiving} {i : Nat} (good : MaitreOk cfg s.maitre)
    (here : s.maitre.pc = .fromLoc what i) (last : ¬ i < cfg.nclnt) :
    MaitreMove cfg s { s with maitre := afterReplies cfg held s.maitre what } ∧
      MaitreOk cfg (afterReplies cfg held s.maitre what) := by
  obtain ⟨inside, cleaning⟩ := receiving (Or.inr ⟨i, here⟩)
  have place := good.place
  rw [here] at place
  have count := good.next inside
  have none_owed : ∀ g, owes cfg s.maitre g = 0 := by
    intro g
    rw [owes_loc here]
    split
    · omega
    · rfl
  cases what with
  | results =>
    obtain ⟨going, bl, tLock⟩ := place
    have test : (afterReplies cfg held s.maitre .results).test = s.maitre.test := by
      have left : (afterReplies cfg held s.maitre .results).pc ≠ .etat .select := nofun
      rw [test_eq inside, test_eq left]
      rfl
    refine ⟨.phase (fun c _ => (from_loc_sent here).1 c) (fun j _ => (from_loc_sent here).2 j)
      none_owed going ?_ ?_ ?_ ?_ ?_ rfl rfl, ?_, ?_, good.performed⟩
    · rw [cleaning]
      exact test
    · rw [cleaning]
      rfl
    · intro c
      rfl
    · intro j
      rfl
    · intro g
      rfl
    · rw [test]
      exact ⟨going, tLock⟩
    · intro _
      rw [test]
      exact count
  | acks =>
    have going : s.maitre.test < maxtest := place
    refine ⟨.phase (fun c _ => (from_loc_sent here).1 c) (fun j _ => (from_loc_sent here).2 j)
      none_owed going ?_ ?_ ?_ ?_ ?_ rfl rfl, ?_, nofun, good.performed⟩
    · rw [cleaning]
      exact count
    · rw [cleaning]
      rfl
    · intro c
      rfl
    · intro j
      rfl
    · intro g
      rfl
    · change s.maitre.n ≤ maxtest
      omega

theorem from_loc_move {what : Receiving} {i : Nat} (good : MaitreOk cfg s.maitre)
    (here : s.maitre.pc = .fromLoc what i) (taken : maitreStep cfg ok held s = some t) :
    MaitreMove cfg s t ∧ MaitreOk cfg t.maitre := by
  simp only [maitreStep, here] at taken
  split at taken
  · rename_i slave
    cases head : s.tube 0 with
    | nil => simp [head] at taken
    | cons r queue =>
      simp only [head] at taken
      obtain rfl := Option.some.inj taken
      have there : ({ readReply s.maitre what 0 r with pc := .fromLoc what (i + 1) } :
        Maitre).pc = .fromLoc what (i + 1) := rfl
      obtain ⟨same, good', received⟩ :=
        read_reply good (Or.inr ⟨i, here⟩) (Or.inr ⟨i + 1, there⟩) rfl
      refine ⟨.fromLoc r queue same ?_ ?_ ?_ ?_ received head rfl, good'⟩
      · intro c' _
        rw [(from_loc_sent here).1, (from_loc_sent there).1]
      · intro j _
        rw [(from_loc_sent here).2, (from_loc_sent there).2]
      · rw [owes_loc here, owes_loc there, if_pos rfl, if_pos rfl]
        omega
      · intro g other
        rw [owes_loc here, owes_loc there, if_neg other, if_neg other]
  · rename_i last
    obtain rfl := Option.some.inj taken
    exact after_replies_move good here last

theorem lock_type {k : Nat} (going : k < maxtest) :
    (k < 8 ∧ ((selectTest cfg k).type = .readlock ∨ (selectTest cfg k).type = .writelock)) ∨
      (k = 8 ∧ (selectTest cfg k).type = .bytelockRead) ∨
      (k = 9 ∧ (selectTest cfg k).type = .bytelockWrite) := by
  change k < 10 at going
  interval_cases k <;> simp [selectTest, listeLocks]

theorem select_move (good : MaitreOk cfg s.maitre) (here : s.maitre.pc = .etat .select) :
    MaitreMove cfg s { s with maitre := switch cfg .select s.maitre } ∧ MaitreOk cfg (switch cfg .select s.maitre) := by
  obtain ⟨place, _, performed⟩ := good
  have now : s.maitre.test = s.maitre.n := by simp only [Maitre.test, here]
  have uncleaned : s.maitre.cleaning = false := by simp only [Maitre.cleaning, here]
  rw [here, now] at place
  have first : s.maitre.n ≤ maxtest := place
  have moved : ∀ e, (switch cfg .select s.maitre).pc = .etat e → e ≠ .select → e ≠ .clean →
      e ≠ .resultat → e ≠ .bytelock →
      (switch cfg .select s.maitre).test = s.maitre.n ∧
      MaitreMove cfg s { s with maitre := switch cfg .select s.maitre } := by
    intro e there select clean resultat bytelock
    have test : (switch cfg .select s.maitre).test = s.maitre.n := by
      rw [test_eq (by rw [there]; simpa using select)]
      rfl
    have cleaning : (switch cfg .select s.maitre).cleaning = false := by
      simp only [Maitre.cleaning, there]
      cases e <;> simp_all
    have left : ∀ offset sent, todo cfg (switch cfg .select s.maitre) offset sent = todo cfg s.maitre offset sent := by
      intro offset sent
      have before : todo cfg s.maitre offset sent = commands cfg s.maitre.n false offset := by
        simp only [todo, here, now, uncleaned]
      rw [before, todo, there, test, cleaning]
      cases e <;> simp_all
    refine ⟨test, .silent ⟨test.trans now.symm, cleaning.trans uncleaned.symm⟩ ?_ ?_ ?_ rfl rfl⟩
    · intro c _
      exact left _ _
    · intro j _
      exact left _ _
    · intro g _
      simp only [owes, there, here, test, now]
  by_cases going : s.maitre.n < maxtest
  · have pc : (switch cfg .select s.maitre).pc = .etat (selectTest cfg s.maitre.n).type := if_pos going
    have kept : (switch cfg .select s.maitre).performed = List.range (min (switch cfg .select s.maitre).n maxtest) := by
      change (if s.maitre.n < maxtest then s.maitre.performed ++ [s.maitre.n] else s.maitre.performed) =
        List.range (min (s.maitre.n + 1) maxtest)
      rw [if_pos going, performed, Nat.min_eq_left (by omega), Nat.min_eq_left (by omega), List.range_succ]
    rcases @lock_type cfg _ going with ⟨whole, type⟩ | ⟨bytes, type⟩ | ⟨bytes, type⟩
    · obtain ⟨test, move⟩ := moved _ pc (by rcases type with type | type <;> rw [type] <;> nofun)
        (by rcases type with type | type <;> rw [type] <;> nofun)
        (by rcases type with type | type <;> rw [type] <;> nofun)
        (by rcases type with type | type <;> rw [type] <;> nofun)
      refine ⟨move, ?_, fun _ => by rw [test]; rfl, kept⟩
      rw [test, pc]
      rcases type with type | type
      · rw [type]
        exact ⟨whole, rfl, rfl⟩
      · rw [type]
        exact ⟨whole, rfl, rfl⟩
    · obtain ⟨test, move⟩ := moved _ pc (by rw [type]; nofun) (by rw [type]; nofun)
        (by rw [type]; nofun) (by rw [type]; nofun)
      refine ⟨move, ?_, fun _ => by rw [test]; rfl, kept⟩
      rw [test, pc, type]
      exact ⟨bytes, rfl⟩
    · obtain ⟨test, move⟩ := moved _ pc (by rw [type]; nofun) (by rw [type]; nofun)
        (by rw [type]; nofun) (by rw [type]; nofun)
      refine ⟨move, ?_, fun _ => by rw [test]; rfl, kept⟩
      rw [test, pc, type]
      exact ⟨bytes, rfl⟩
  · have pc : (switch cfg .select s.maitre).pc = .etat .fin := if_neg going
    obtain ⟨test, move⟩ := moved _ pc nofun nofun nofun nofun
    refine ⟨move, ?_, fun _ => by rw [test]; rfl, ?_⟩
    · rw [test, pc]
      exact ⟨by omega, rfl⟩
    · change (if s.maitre.n < maxtest then s.maitre.performed ++ [s.maitre.n] else s.maitre.performed) =
        List.range (min (s.maitre.n + 1) maxtest)
      rw [if_neg going, performed, Nat.min_eq_right (by omega), Nat.min_eq_right (by omega)]

theorem todo_etat {m : Maitre} {e : Etat} {offset : Nat} {sent : MaitrePc → Bool}
    (here : m.pc = .etat e) (resultat : e ≠ .resultat) (bytelock : e ≠ .bytelock) :
    todo cfg m offset sent = commands cfg m.test m.cleaning offset := by
  rw [todo, here]
  cases e <;> simp_all

theorem owes_etat {m : Maitre} {e : Etat} {g : Nat} (here : m.pc = .etat e) :
    owes cfg m g = if m.test < maxtest then cfg.nclnt else 0 := by
  simp only [owes, here]

theorem etat_to {m' : Maitre} {e e' : Etat} (good : MaitreOk cfg s.maitre)
    (here : s.maitre.pc = .etat e) (there : m'.pc = .etat e') (n : m'.n = s.maitre.n)
    (performed : m'.performed = s.maitre.performed) (received : m'.received = s.maitre.received)
    (states : ∀ e'' ∈ [e, e'], e'' ≠ .select ∧ e'' ≠ .clean ∧ e'' ≠ .resultat ∧ e'' ≠ .bytelock)
    (place : MaitreAt cfg m' s.maitre.test m'.pc) :
    MaitreMove cfg s { s with maitre := m' } ∧ MaitreOk cfg m' := by
  obtain ⟨select, clean, resultat, bytelock⟩ := states e (by simp)
  obtain ⟨select', clean', resultat', bytelock'⟩ := states e' (by simp)
  have before : s.maitre.cleaning = false := by
    simp only [Maitre.cleaning, here]
    cases e <;> simp_all
  have later : m'.cleaning = false := by
    simp only [Maitre.cleaning, there]
    cases e' <;> simp_all
  refine silent_to good (by rw [here]; simpa using select) (by rw [there]; simpa using select')
    n performed received (later.trans before.symm) place ?_ ?_ ?_
  · intro same c _
    rw [netTodo, netTodo, todo_etat here resultat bytelock, todo_etat there resultat' bytelock', same, before, later]
  · intro same j _
    rw [locTodo, locTodo, todo_etat here resultat bytelock, todo_etat there resultat' bytelock', same, before, later]
  · intro same g _
    rw [owes_etat here, owes_etat there, same]

theorem etat_sends {m' : Maitre} {e : Etat} {what : Sending} (good : MaitreOk cfg s.maitre)
    (here : s.maitre.pc = .etat e) (there : m'.pc = .net what 0) (n : m'.n = s.maitre.n)
    (performed : m'.performed = s.maitre.performed) (received : m'.received = s.maitre.received)
    (select : e ≠ .select) (cleaning : m'.cleaning = s.maitre.cleaning)
    (place : SendingAt cfg m' s.maitre.test what)
    (all : ∀ offset sent, todo cfg s.maitre offset sent =
      command cfg s.maitre.test what offset :: after cfg s.maitre.test what offset) :
    MaitreMove cfg s { s with maitre := m' } ∧ MaitreOk cfg m' := by
  refine silent_to good (by rw [here]; simpa using select) (by rw [there]; nofun) n performed
    received cleaning (by rw [there]; exact place) ?_ ?_ ?_
  · intro same c _
    rw [net_todo_at there, netTodo, all, same, if_neg (Nat.not_lt_zero c)]
    rfl
  · intro same j _
    rw [loc_todo_net there, locTodo, all, same]
    rfl
  · intro same g _
    rw [owes_etat here, owes_sending (Or.inl there), same]

theorem switch_move {e : Etat} (good : MaitreOk cfg s.maitre) (here : s.maitre.pc = .etat e) :
    MaitreMove cfg s { s with maitre := switch cfg e s.maitre } ∧ MaitreOk cfg (switch cfg e s.maitre) := by
  have place := good.place
  rw [here] at place
  have uncleaned : e ≠ .clean → s.maitre.cleaning = false := by
    intro other
    simp only [Maitre.cleaning, here]
    cases e <;> simp_all
  cases e with
  | select => exact select_move good here
  | rdonly => exact place.elim
  | wronly => exact place.elim
  | readlock => exact etat_to good here rfl rfl rfl rfl (by decide) place
  | writelock => exact etat_to good here rfl rfl rfl rfl (by decide) place
  | lock =>
    obtain ⟨whole, bl, tLock⟩ := place
    refine etat_to good here rfl rfl rfl rfl (by decide)
      ⟨Nat.lt_of_lt_of_le whole (by decide), ?_, tLock, by omega⟩
    change s.maitre.bl = _
    rw [bl, decide_eq_false (by omega)]
  | bytelockRead =>
    obtain ⟨now, tLock⟩ := place
    refine etat_to good here rfl rfl rfl rfl (by decide)
      ⟨by rw [now]; decide, ?_, tLock, ?_⟩
    · rw [now]
      rfl
    · intro _
      rw [now]
      rfl
  | bytelockWrite =>
    obtain ⟨now, tLock⟩ := place
    refine etat_to good here rfl rfl rfl rfl (by decide)
      ⟨by rw [now]; decide, ?_, tLock, ?_⟩
    · rw [now]
      rfl
    · intro _
      rw [now]
      rfl
  | sync =>
    have going : s.maitre.test < maxtest := place.1
    refine etat_sends good here rfl rfl rfl rfl nofun (uncleaned nofun).symm place ?_
    intro offset sent
    rw [todo_etat here nofun nofun, uncleaned nofun, commands, if_neg nofun, if_neg (by omega)]
  | bytelock =>
    obtain ⟨going, bytes, bl, tLock, lType⟩ := place
    refine etat_sends good here rfl rfl rfl rfl nofun (uncleaned nofun).symm
      ⟨going, bytes, bl, tLock, lType, rfl⟩ ?_
    intro offset sent
    rw [todo, here]
    rfl
  | clean =>
    obtain ⟨going, tLock⟩ := place
    have cleans : s.maitre.cleaning = true := by simp only [Maitre.cleaning, here]
    refine etat_sends good here rfl rfl rfl rfl nofun cleans.symm
      ⟨going, ?_⟩ ?_
    · change { s.maitre.tLock with test := .clean } = _
      rw [tLock]
      rfl
    · intro offset sent
      rw [todo_etat here nofun nofun, cleans, commands, if_pos rfl]
      rfl
  | fin =>
    obtain ⟨last, tLock⟩ := place
    refine etat_sends good here rfl rfl rfl rfl nofun (uncleaned nofun).symm
      ⟨last, ?_⟩ ?_
    · change { s.maitre.tLock with test := .fin } = _
      rw [tLock, last]
      rfl
    · intro offset sent
      rw [todo_etat here nofun nofun, uncleaned nofun, commands, if_neg nofun, if_pos last]
      rfl
  | resultat =>
    refine silent_to good (by rw [here]; nofun) nofun rfl rfl rfl (uncleaned nofun).symm place ?_ ?_ ?_
    · intro _ c _
      simp only [netTodo, todo, here]
      rfl
    · intro _ j _
      simp only [locTodo, todo, here]
      rfl
    · intro same g _
      rw [owes_etat here, if_pos place.1]
      exact owes_first

theorem maitre_moves (good : MaitreOk cfg s.maitre)
    (unlocked : s.maitre.pc = .etat .lock → ¬ SomeLock cfg s)
    (taken : maitreStep cfg ok held s = some t) : MaitreMove cfg s t ∧ MaitreOk cfg t.maitre := by
  cases here : s.maitre.pc with
  | etat e =>
    simp only [maitreStep, here] at taken
    split at taken
    · rename_i refused
      rw [refused.1] at here
      rw [if_neg (unlocked here)] at taken
      cases taken
    · obtain rfl := Option.some.inj taken
      exact switch_move good here
  | net what i => exact net_move good here taken
  | loc what i => exact loc_move good here taken
  | fromNet what c i => exact from_net_move good here taken
  | fromLoc what i => exact from_loc_move good here taken
  | finished => simp [maitreStep, here] at taken
  | exited => simp [maitreStep, here] at taken

end steps
end VteLockTests
