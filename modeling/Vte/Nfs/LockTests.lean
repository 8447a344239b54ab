import Mathlib.Data.List.Basic
import Mathlib.Logic.Function.Basic
import Vte.Base.Machine

/-!
The NFS lock tests: the master, the repeater of each remote client, and the slaves, with the pipe to
each slave, the pipe back that the slaves of one host share, and the two ways of each connection.
Group 0 are the slaves of the master's own host, group `c + 1` those of the remote client `c`.
-/
namespace VteLockTests
open Function Machine

inductive Etat where
  | clean
  | rdonly
  | resultat
  | wronly
  | select
  | lock
  | sync
  | fin
  | readlock
  | writelock
  | bytelock
  | bytelockRead
  | bytelockWrite
deriving DecidableEq

def succes : Int := 1
def echec : Int := 0
def maxtest : Nat := 10

def fRdlck : Int := 0
def fWrlck : Int := 1

structure STest where
  test : Etat
  type : Etat
  resAtt : Int
deriving DecidableEq

structure Flock where
  lType : Int
  lStart : Nat
  lLen : Nat
deriving DecidableEq

inductive Message where
  | T (test : STest)
  | L (lock : Flock)
deriving DecidableEq

/-- What a slave sends. Only the result is in the message; the slave, the number of the test it
    executed last and whether this is its acknowledgement are kept for the statements. -/
structure Reply where
  resultat : Int
  slave : Nat
  test : Nat
  ack : Bool
deriving DecidableEq

/-- The number of remote clients and of slaves for each; `past` is what lies behind the tables. -/
structure Config where
  maxClients : Nat
  nclnt : Nat
  past : STest

def listeLocks : List Etat :=
  [.readlock, .writelock, .readlock, .writelock, .readlock, .writelock, .readlock, .writelock,
    .bytelockRead, .bytelockWrite]

def listeTests : List Etat :=
  [.wronly, .wronly, .rdonly, .rdonly, .readlock, .writelock, .writelock, .readlock, .bytelockRead, .bytelockWrite]

def listeResultats : List Int :=
  [succes, succes, succes, succes, succes, echec, echec, echec, succes, succes]

def selectTest (cfg : Config) (n : Nat) : STest where
  test := listeTests.getD n cfg.past.test
  type := listeLocks.getD n cfg.past.type
  resAtt := listeResultats.getD n cfg.past.resAtt

def matchResult (r : Int) (n : Nat) : Nat := if listeResultats[n]? = some r then 1 else 0

inductive Sending where
  | test
  | lockSection
  | clean
  | fin
deriving DecidableEq

inductive Receiving where
  | results
  | acks
deriving DecidableEq

/-- The `switch`, or a loop over the clients or over the slaves of the master's own host. -/
inductive MaitrePc where
  | etat (e : Etat)
  | net (what : Sending) (i : Nat)
  | loc (what : Sending) (i : Nat)
  | fromNet (what : Receiving) (c i : Nat)
  | fromLoc (what : Receiving) (i : Nat)
  | finished
  | exited
deriving DecidableEq

/-- The master's variables. `performed` lists the tests that were selected, and `received` the
    replies, with their groups, that were read as results of a test or as its acknowledgements. -/
structure Maitre where
  pc : MaitrePc
  n : Nat
  bl : Bool
  tLock : STest
  request : Flock
  totalResultatOk : Nat → Nat
  performed : List Nat
  received : Nat → Bool → List (Nat × Reply)

inductive ClientPc where
  | select
  | lockSection (lock : Flock) (i : Nat)
  | send (test : STest) (i : Nat)
  | fin (test : STest) (i : Nat)
  | relay (i : Nat)
  | relayed (i : Nat) (message : Reply)
  | finished
deriving DecidableEq

inductive EsclavePc where
  | etat (e : Etat)
  | lockSection
  | closed
  | finished
deriving DecidableEq

/-- A slave's variables. `locked` says that it holds a lock on the file through `ftest`; `executed`
    lists the tests it tried, and `sections` the offsets it was given. -/
structure Esclave where
  pc : EsclavePc
  tLock : STest
  request : Flock
  resultat : Int
  locked : Bool
  executed : List STest
  sections : List Nat

/-- All parties and what is on the way between them; `lclnt` has the pipe to each slave and `tube` the
    pipe back of each group. -/
structure State where
  maitre : Maitre
  client : Nat → ClientPc
  esclave : Nat × Nat → Esclave
  lclnt : Nat × Nat → List Message
  tube : Nat → List Reply
  toClient : Nat → List Message
  fromClient : Nat → List Reply

/-- One step of one party; `ok` is the answer to its lock or its operation on the file, and `held` says
    which bytes `F_GETLK` finds locked. -/
inductive Act where
  | maitre (ok : Bool) (held : Nat → Bool)
  | client (c : Nat)
  | esclave (g i : Nat) (ok : Bool)

section maitre
variable (cfg : Config)

def netMessage (m : Maitre) (what : Sending) (c : Nat) : Message :=
  match what with
  | .lockSection => .L { m.request with lStart := (c + 1) * cfg.nclnt }
  | .test | .clean | .fin => .T m.tLock

/-- What goes to the slave `i` of the master's own host. -/
def locMessage (m : Maitre) (what : Sending) (i : Nat) : Message :=
  match what with
  | .lockSection => .L { m.request with lStart := i }
  | .test | .clean | .fin => .T m.tLock

def afterSends (m : Maitre) (what : Sending) : MaitrePc :=
  match what with
  | .test =>
    if m.bl = true then .etat .bytelock
    else if m.n < maxtest + 1 then .etat .resultat
    else .etat .fin
  | .lockSection => .etat .resultat
  | .clean => .fromNet .acks 0 0
  | .fin => .finished

def validationResultats (held : Nat → Bool) (n : Nat) : Nat :=
  let expected := listeResultats[n]? ≠ some 0
  ((List.range (cfg.nclnt * (cfg.maxClients + 1))).filter fun i => held i = decide expected).length

/-- The master after a reply of the group `g`. -/
def readReply (m : Maitre) (what : Receiving) (g : Nat) (r : Reply) : Maitre :=
  match what with
  | .results =>
    { m with
      totalResultatOk := update m.totalResultatOk (m.n - 1)
        (m.totalResultatOk (m.n - 1) + matchResult r.resultat (m.n - 1))
      received := fun k ack =>
        if k = m.n - 1 ∧ ack = false then m.received k ack ++ [(g, r)] else m.received k ack }
  | .acks =>
    { m with
      received := fun k ack =>
        if k = m.n - 1 ∧ ack = true then m.received k ack ++ [(g, r)] else m.received k ack }

def afterReplies (held : Nat → Bool) (m : Maitre) (what : Receiving) : Maitre :=
  match what with
  | .results =>
    { m with
      totalResultatOk :=
        if m.bl = true then
          update m.totalResultatOk (m.n - 1) (validationResultats cfg held (m.n - 1))
        else m.totalResultatOk
      pc := .etat .clean }
  | .acks => { m with pc := .etat .select }

/-- The states of the `switch` that neither send nor read. -/
def switch (e : Etat) (m : Maitre) : Maitre :=
  match e with
  | .select =>
    let tLock := selectTest cfg m.n
    { m with
      tLock := tLock
      bl := false
      pc := if m.n < maxtest then .etat tLock.type else .etat .fin
      n := m.n + 1
      performed := if m.n < maxtest then m.performed ++ [m.n] else m.performed }
  | .rdonly | .wronly | .readlock =>
    { m with request := { m.request with lType := fRdlck }, pc := .etat .lock }
  | .writelock => { m with request := { m.request with lType := fWrlck }, pc := .etat .lock }
  | .lock => { m with request := { m.request with lStart := 0, lLen := 0 }, pc := .etat .sync }
  | .bytelockRead =>
    { m with bl := true, request := { m.request with lType := fRdlck }, pc := .etat .sync }
  | .bytelockWrite =>
    { m with bl := true, request := { m.request with lType := fWrlck }, pc := .etat .sync }
  | .bytelock => { m with request := { m.request with lStart := 0, lLen := 1 }, pc := .net .lockSection 0 }
  | .sync => { m with pc := .net .test 0 }
  | .resultat => { m with pc := .fromNet .results 0 0 }
  | .clean => { m with tLock := { m.tLock with test := .clean }, pc := .net .clean 0 }
  | .fin => { m with tLock := { m.tLock with test := .fin }, pc := .net .fin 0 }

def SomeLock (s : State) : Prop :=
  ∃ g, g < cfg.maxClients + 1 ∧ ∃ i, i < cfg.nclnt ∧ (s.esclave (g, i)).locked = true

instance (s : State) : Decidable (SomeLock cfg s) :=
  inferInstanceAs (Decidable
    (∃ g, g < cfg.maxClients + 1 ∧ ∃ i, i < cfg.nclnt ∧ (s.esclave (g, i)).locked = true))

def maitreStep (ok : Bool) (held : Nat → Bool) (s : State) : Option State :=
  let m := s.maitre
  match m.pc with
  | .etat e =>
    -- the lock of the whole file can fail only where a slave still holds a lock
    if e = .lock ∧ ok = false then
      if SomeLock cfg s then some { s with maitre := { m with pc := .exited } } else none
    else some { s with maitre := switch cfg e m }
  | .net what i =>
    if i < cfg.maxClients then
      some { s with
        maitre := { m with pc := .net what (i + 1) }
        toClient := update s.toClient i (s.toClient i ++ [netMessage cfg m what i]) }
    else some { s with maitre := { m with pc := .loc what 0 } }
  | .loc what i =>
    if i < cfg.nclnt then
      some { s with
        maitre := { m with pc := .loc what (i + 1) }
        lclnt := update s.lclnt (0, i) (s.lclnt (0, i) ++ [locMessage m what i]) }
    else some { s with maitre := { m with pc := afterSends m what } }
  | .fromNet what c i =>
    if c < cfg.maxClients then
      if i < cfg.nclnt then
        match s.fromClient c with
        | [] => none
        | r :: rest =>
          some { s with
            maitre := { readReply m what (c + 1) r with pc := .fromNet what c (i + 1) }
            fromClient := update s.fromClient c rest }
      else some { s with maitre := { m with pc := .fromNet what (c + 1) 0 } }
    else some { s with maitre := { m with pc := .fromLoc what 0 } }
  | .fromLoc what i =>
    if i < cfg.nclnt then
      match s.tube 0 with
      | [] => none
      | r :: rest =>
        some { s with
          maitre := { readReply m what 0 r with pc := .fromLoc what (i + 1) }
          tube := update s.tube 0 rest }
    else some { s with maitre := afterReplies cfg held m what }
  | .finished | .exited => none

end maitre

/-- The section that the repeater hands to its slave `i`, or the test as it is. -/
def expand (i : Nat) : Message → Message
  | .T test => .T test
  | .L lock => .L { lock with lStart := lock.lStart + i }

/-- A write to the slave `i` of the group `g`. -/
def State.writeEsclave (s : State) (g i : Nat) (message : Message) : State :=
  { s with lclnt := update s.lclnt (g, i) (s.lclnt (g, i) ++ [message]) }

/-- `maitreClient`; a message of the server comes before the replies of the slaves. -/
def clientStep (cfg : Config) (c : Nat) (s : State) : Option State :=
  let goto (s : State) (pc : ClientPc) : State := { s with client := update s.client c pc }
  match s.client c with
  | .select =>
    match s.toClient c with
    | message :: rest =>
      let s := { s with toClient := update s.toClient c rest }
      match message with
      | .L lock => some (goto s (.lockSection lock 0))
      | .T test => if test.test = .fin then some (goto s (.fin test 0)) else some (goto s (.send test 0))
    | [] => if s.tube (c + 1) = [] then none else some (goto s (.relay 0))
  | .lockSection lock i =>
    if i < cfg.nclnt then
      some (goto (s.writeEsclave (c + 1) i (.L { lock with lStart := lock.lStart + i }))
        (.lockSection lock (i + 1)))
    else some (goto s .select)
  | .send test i =>
    if i < cfg.nclnt then some (goto (s.writeEsclave (c + 1) i (.T test)) (.send test (i + 1)))
    else some (goto s .select)
  | .fin test i =>
    if i < cfg.nclnt then some (goto (s.writeEsclave (c + 1) i (.T test)) (.fin test (i + 1)))
    else some (goto s .finished)
  | .relay i =>
    if i < cfg.nclnt then
      match s.tube (c + 1) with
      | [] => none
      | r :: rest => some (goto { s with tube := update s.tube (c + 1) rest } (.relayed i r))
    else some (goto s .select)
  | .relayed i r =>
    some (goto { s with fromClient := update s.fromClient c (s.fromClient c ++ [r]) } (.relay (i + 1)))
  | .finished => none

def tried (e : Esclave) (ok locks : Bool) : Esclave :=
  { e with
    resultat := if ok then succes else echec
    locked := if ok && locks then true else e.locked
    executed := e.executed ++ [e.tLock]
    pc := .etat .resultat }

def sendResult (g i : Nat) (ack : Bool) (s : State) : State :=
  let e := s.esclave (g, i)
  { s with
    tube := update s.tube g (s.tube g ++ [⟨e.resultat, i, e.executed.length - 1, ack⟩])
    esclave := update s.esclave (g, i) { e with pc := .etat .sync } }

def esclaveStep (g i : Nat) (ok : Bool) (s : State) : Option State :=
  let e := s.esclave (g, i)
  let become (s : State) (e : Esclave) : State := { s with esclave := update s.esclave (g, i) e }
  match e.pc with
  | .etat .select | .etat .sync =>
    match s.lclnt (g, i) with
    | [] => none
    | message :: rest =>
      let tLock :=
        match message with
        | .T test => test
        | .L _ => e.tLock
      some (become { s with lclnt := update s.lclnt (g, i) rest }
        { e with tLock := tLock, pc := .etat tLock.test })
  | .etat .rdonly | .etat .wronly => some (become s (tried e ok false))
  | .etat .lock | .etat .readlock | .etat .writelock => some (become s (tried e ok true))
  | .etat .bytelockRead | .etat .bytelockWrite => some (become s { e with pc := .etat .bytelock })
  | .etat .bytelock =>
    match s.lclnt (g, i) with
    | [] => none
    | message :: rest =>
      let request :=
        match message with
        | .T _ => e.request
        | .L lock => lock
      some (become { s with lclnt := update s.lclnt (g, i) rest }
        { e with request := request, sections := e.sections ++ [request.lStart], pc := .lockSection })
  | .lockSection => some (become s (tried e ok true))
  | .etat .resultat => some (sendResult g i false s)
  | .etat .clean => some (become s { e with locked := false, pc := .closed })
  | .closed => some (sendResult g i true s)
  | .etat .fin => some (become s { e with pc := .finished })
  | .finished => none

def step (cfg : Config) (act : Act) (s : State) : Option State :=
  match act with
  | .maitre ok held => maitreStep cfg ok held s
  | .client c => if c < cfg.maxClients then clientStep cfg c s else none
  | .esclave g i ok => if g < cfg.maxClients + 1 ∧ i < cfg.nclnt then esclaveStep g i ok s else none

def start (cfg : Config) : State where
  maitre := ⟨.etat .select, 0, false, cfg.past, ⟨0, 0, 0⟩, fun _ => 0, [], fun _ _ => []⟩
  client _ := .select
  esclave _ := ⟨.etat .sync, cfg.past, ⟨0, 0, 0⟩, -1, false, [], []⟩
  lclnt _ := []
  tube _ := []
  toClient _ := []
  fromClient _ := []

end VteLockTests
