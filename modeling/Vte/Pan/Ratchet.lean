import Mathlib.Data.List.Forall2
import Vte.Pan.Scheduler

/-!
pan/ltp-pan.c: the signals that pan sends on to its children, one request after the other. What
`wait_handler` sends depends on the request and on what it sent last.
-/
namespace VteScheduler

/-- What `propagate_signal` does to the table, with the signals sent, each with its group. -/
def State.propagateSignal (s : State) : State × List (Nat × Nat) :=
  ({ s with
      running := s.running.map fun slot =>
        if slot.pgrp = 0 then slot else { slot with stopping := true }
      recSignal := 0
      sendSignal := 0 },
   (s.running.filter (·.pgrp != 0)).map fun slot => (slot.pgrp, s.sendSignal))

theorem on_signal_propagates {s : State} (received : s.recSignal ≠ 0) (sent : s.recSignal ≠ sigusr2) :
    s.onSignal.running = s.propagateSignal.1.running ∧ s.onSignal.recSignal = s.propagateSignal.1.recSignal ∧
      s.onSignal.sendSignal = s.propagateSignal.1.sendSignal ∧
      s.onSignal.lastsent = s.propagateSignal.1.lastsent := by
  simp [State.onSignal, State.propagateSignal, received, sent]

def kills : State → List (Nat × List Slot) → List (List (Nat × Nat))
  | _, [] => []
  | s, (sig, running) :: requests =>
    let r := (State.waitHandler { s with running } sig).propagateSignal
    r.2 :: kills r.1 requests

def requestSignals : List Nat := [sigusr1, sigint, sigterm, sighup]

def rank (sig : Nat) : Nat := [sigusr1, sigint, sigterm, sighup, sigkill].idxOf sig

/-- Every request sends a real signal, the signals do not fall back, and from the fifth request on
    they are SIGKILL. -/
structure Escalates (kills : List (List (Nat × Nat))) : Prop where
  real : ∀ sent ∈ kills, ∃ kill ∈ sent, kill.2 ≠ 0
  climbs : kills.Pairwise fun before after =>
    ∀ a ∈ before, ∀ b ∈ after, a.2 ≠ 0 → b.2 ≠ 0 → rank a.2 ≤ rank b.2
  last : ∀ sent ∈ kills.drop 4, ∀ kill ∈ sent, kill.2 ≠ 0 → kill.2 = sigkill

def afterHup : List Nat → Prop
  | [] => True
  | [sig] => sig ≠ sighup
  | _ => False

def afterTerm : List Nat → Prop
  | [] => True
  | sig :: requests => if sig = sigterm then afterTerm requests else afterHup requests

def afterInt : List Nat → Prop
  | [] => True
  | sig :: requests => sig = sigint ∧ afterTerm requests

def afterUsr1 : List Nat → Prop
  | [] => True
  | _ :: requests => afterInt requests

def climb : List Nat → Prop
  | [] => True
  | sig :: requests =>
    if sig = sigusr1 then afterUsr1 requests
    else if sig = sigint then afterInt requests
    else if sig = sigterm then afterTerm requests
    else afterHup requests

/-- At most five requests that keep to the ladder, and no SIGTERM before the fifth one. -/
structure Climbs (requests : List Nat) : Prop where
  ladder : climb requests
  few : requests.length ≤ 5
  full : requests.length = 5 → requests[3]? ≠ some sigterm

/-- What `wait_handler` sends, by what it sent last; `send_signal` is 0 when it comes. -/
def send (lastsent sig : Nat) : Nat :=
  if lastsent = 0 then sig
  else if lastsent = sigusr1 then sigint
  else if lastsent = sig then sigterm
  else if lastsent = sigterm then sighup
  else if lastsent = sighup then sigkill
  else 0

def sends : Nat → List Nat → List Nat
  | _, [] => []
  | lastsent, sig :: requests => send lastsent sig :: sends (send lastsent sig) requests

theorem request_sends {s : State} (idle : s.sendSignal = 0) {sig : Nat} (request : sig ≠ sigusr2) :
    (s.waitHandler sig).sendSignal = send s.lastsent sig ∧ (s.waitHandler sig).lastsent = send s.lastsent sig ∧
      (s.waitHandler sig).running = s.running := by
  simp only [State.waitHandler, if_neg request, idle]
  exact ⟨rfl, rfl, trivial⟩

theorem kills_send {s : State} (idle : s.sendSignal = 0) {requests : List (Nat × List Slot)}
    (signals : ∀ r ∈ requests, r.1 ∈ requestSignals)
    (active : ∀ r ∈ requests, ∃ slot ∈ r.2, slot.pgrp ≠ 0) :
    List.Forall₂ (fun sent sig => sent ≠ [] ∧ ∀ kill ∈ sent, kill.2 = sig) (kills s requests)
      (sends s.lastsent (requests.map Prod.fst)) := by
  induction requests generalizing s with
  | nil => exact .nil
  | cons r requests ih =>
    obtain ⟨sig, running⟩ := r
    have request : sig ≠ sigusr2 := by
      rintro rfl
      have known : sigusr2 ∈ requestSignals := signals _ List.mem_cons_self
      exact absurd known (by decide)
    obtain ⟨sent, last, table⟩ := request_sends (s := { s with running }) idle request
    simp only [kills, List.map_cons, sends]
    refine .cons ⟨?_, ?_⟩ ?_
    · obtain ⟨slot, member, busy⟩ := active _ List.mem_cons_self
      have kept : slot ∈ running.filter (·.pgrp != 0) :=
        List.mem_filter.mpr ⟨member, by simpa using busy⟩
      simp only [State.propagateSignal, table]
      intro none
      rw [List.map_eq_nil_iff] at none
      rw [none] at kept
      cases kept
    · intro kill member
      obtain ⟨slot, _, rfl⟩ := List.mem_map.mp member
      exact sent
    · have rest := ih (s := (State.waitHandler { s with running } sig).propagateSignal.1) rfl
        (fun r member => signals r (List.mem_cons_of_mem _ member))
        (fun r member => active r (List.mem_cons_of_mem _ member))
      have same : (State.waitHandler { s with running } sig).propagateSignal.1.lastsent = send s.lastsent sig := last
      rwa [same] at rest

/-- From `lastsent` on, the signals sent are real and do not fall back. -/
def Steady : Nat → List Nat → Prop
  | _, [] => True
  | lastsent, sig :: requests =>
    send lastsent sig ≠ 0 ∧ rank lastsent ≤ rank (send lastsent sig) ∧ Steady (send lastsent sig) requests

theorem steady_iff (lastsent : Nat) (requests : List Nat) :
    Steady lastsent requests ↔ (∀ sig ∈ sends lastsent requests, sig ≠ 0) ∧
      (lastsent :: sends lastsent requests).Pairwise (rank · ≤ rank ·) := by
  have transitive : IsTrans Nat (rank · ≤ rank ·) := ⟨fun _ _ _ => Nat.le_trans⟩
  rw [← List.isChain_iff_pairwise]
  induction requests generalizing lastsent with
  | nil => simp [Steady, sends]
  | cons sig requests ih =>
    simp only [Steady, sends, ih, List.forall_mem_cons, List.isChain_cons_cons]
    exact ⟨fun ⟨a, b, c, d⟩ => ⟨⟨a, c⟩, b, d⟩, fun ⟨⟨a, c⟩, b, d⟩ => ⟨a, b, c, d⟩⟩

theorem steady_kill (requests : List Nat) (signals : ∀ sig ∈ requests, sig ∈ requestSignals) :
    Steady sigkill requests ↔ requests = [] := by
  cases requests with
  | nil => simp [Steady]
  | cons sig requests =>
    have known := signals sig List.mem_cons_self
    have nothing : send sigkill sig = 0 := by
      simp only [requestSignals, List.mem_cons, List.not_mem_nil, or_false] at known
      rcases known with rfl | rfl | rfl | rfl <;> decide
    simp [Steady, nothing]

theorem steady_hup (requests : List Nat) (signals : ∀ sig ∈ requests, sig ∈ requestSignals) :
    Steady sighup requests ↔ afterHup requests := by
  cases requests with
  | nil => simp [Steady, afterHup]
  | cons sig requests =>
    have later := fun s member => signals s (List.mem_cons_of_mem sig member)
    by_cases again : sig = sighup
    · subst again
      have falls : ¬ Steady sighup (sighup :: requests) :=
        fun steady => absurd steady.2.1 (by decide)
      have barred : ¬ afterHup (sighup :: requests) := by
        cases requests with
        | nil => exact fun other => other rfl
        | cons _ _ => exact id
      exact ⟨fun h => absurd h falls, fun h => absurd h barred⟩
    · have kills : send sighup sig = sigkill := by
        have other : ¬ sighup = sig := fun same => again same.symm
        simp only [send, if_neg other]
        rfl
      rw [Steady, kills, steady_kill requests later]
      cases requests with
      | nil => simpa [afterHup, again] using by decide
      | cons _ _ => simp [afterHup]

theorem steady_term (requests : List Nat) (signals : ∀ sig ∈ requests, sig ∈ requestSignals) :
    Steady sigterm requests ↔ afterTerm requests := by
  induction requests with
  | nil => simp [Steady, afterTerm]
  | cons sig requests ih =>
    have later := fun s member => signals s (List.mem_cons_of_mem sig member)
    rw [Steady, afterTerm]
    by_cases again : sig = sigterm
    · subst again
      have same : send sigterm sigterm = sigterm := by decide
      rw [same, if_pos rfl, ih later]
      exact ⟨fun h => h.2.2, fun h => ⟨by decide, Nat.le_refl _, h⟩⟩
    · have up : send sigterm sig = sighup := by
        have other : ¬ sigterm = sig := fun same => again same.symm
        simp only [send, if_neg other]
        rfl
      rw [up, if_neg again, steady_hup requests later]
      exact ⟨fun h => h.2.2, fun h => ⟨by decide, by decide, h⟩⟩

theorem steady_int (requests : List Nat) (signals : ∀ sig ∈ requests, sig ∈ requestSignals) :
    Steady sigint requests ↔ afterInt requests := by
  cases requests with
  | nil => simp [Steady, afterInt]
  | cons sig requests =>
    have later := fun s member => signals s (List.mem_cons_of_mem sig member)
    rw [Steady, afterInt]
    by_cases again : sig = sigint
    · subst again
      have up : send sigint sigint = sigterm := by decide
      rw [up, steady_term requests later]
      exact ⟨fun h => ⟨rfl, h.2.2⟩, fun h => ⟨by decide, by decide, h.2⟩⟩
    · have nothing : send sigint sig = 0 := by
        have other : ¬ sigint = sig := fun same => again same.symm
        simp only [send, if_neg other]
        rfl
      simp [nothing, again]

theorem steady_usr1 (requests : List Nat) (signals : ∀ sig ∈ requests, sig ∈ requestSignals) :
    Steady sigusr1 requests ↔ afterUsr1 requests := by
  cases requests with
  | nil => simp [Steady, afterUsr1]
  | cons sig requests =>
    have later := fun s member => signals s (List.mem_cons_of_mem sig member)
    have up : send sigusr1 sig = sigint := rfl
    rw [Steady, afterUsr1, up, steady_int requests later]
    exact ⟨fun h => h.2.2, fun h => ⟨by decide, by decide, h⟩⟩

theorem sends_first (sig : Nat) (requests : List Nat) :
    sends 0 (sig :: requests) = sig :: sends sig requests := by
  rw [sends, send, if_pos rfl]

theorem climb_steady {requests : List Nat} (signals : ∀ sig ∈ requests, sig ∈ requestSignals) :
    ((∀ sig ∈ sends 0 requests, sig ≠ 0) ∧ (sends 0 requests).Pairwise (rank · ≤ rank ·)) ↔ climb requests := by
  cases requests with
  | nil => simp [sends, climb]
  | cons sig requests =>
    have later := fun s member => signals s (List.mem_cons_of_mem sig member)
    have known := signals sig List.mem_cons_self
    have real : sig ≠ 0 := by
      rintro rfl
      exact absurd known (by decide)
    have start : ((∀ s ∈ sends 0 (sig :: requests), s ≠ 0) ∧
        (sends 0 (sig :: requests)).Pairwise (rank · ≤ rank ·)) ↔ Steady sig requests := by
      rw [sends_first, steady_iff, List.forall_mem_cons, and_assoc]
      exact ⟨fun h => h.2, fun h => ⟨real, h⟩⟩
    rw [start]
    simp only [requestSignals, List.mem_cons, List.not_mem_nil, or_false] at known
    rcases known with rfl | rfl | rfl | rfl
    · exact steady_usr1 requests later
    · exact steady_int requests later
    · exact steady_term requests later
    · exact steady_hup requests later

theorem last_after_term {d e : Nat} {requests : List Nat} (ladder : afterTerm (d :: e :: requests)) :
    (∀ sig ∈ (sends sigterm (d :: e :: requests)).drop 1, sig = sigkill) ↔ requests = [] ∧ d ≠ sigterm := by
  rw [afterTerm] at ladder
  simp only [sends, List.drop_succ_cons, List.drop_zero]
  by_cases again : d = sigterm
  · subst again
    have same : send sigterm sigterm = sigterm := by decide
    have short : send sigterm e ≠ sigkill := by
      by_cases third : e = sigterm
      · rw [third]
        decide
      · have other : ¬ sigterm = e := fun same => third same.symm
        have up : send sigterm e = sighup := by
          simp only [send, if_neg other]
          rfl
        rw [up]
        decide
    rw [same]
    exact ⟨fun all => absurd (all _ List.mem_cons_self) short, fun h => absurd rfl h.2⟩
  · have other : ¬ sigterm = d := fun same => again same.symm
    have up : send sigterm d = sighup := by
      simp only [send, if_neg other]
      rfl
    rw [if_neg again] at ladder
    cases requests with
    | nil =>
      have kills : send sighup e = sigkill := by
        have new : ¬ sighup = e := fun same => ladder same.symm
        simp only [send, if_neg new]
        rfl
      simp [up, kills, sends, again]
    | cons _ _ => exact absurd ladder id

theorem climb_last {requests : List Nat} (signals : ∀ sig ∈ requests, sig ∈ requestSignals)
    (ladder : climb requests) :
    (∀ sig ∈ (sends 0 requests).drop 4, sig = sigkill) ↔
      requests.length ≤ 5 ∧ (requests.length = 5 → requests[3]? ≠ some sigterm) := by
  match requests with
  | [] => simp [sends]
  | [a] => simp [sends]
  | [a, b] => simp [sends]
  | [a, b, c] => simp [sends]
  | [a, b, c, d] => simp [sends]
  | a :: b :: c :: d :: e :: requests =>
    have four (term : sends 0 (a :: b :: c :: d :: e :: requests) =
          a :: send a b :: sigterm :: sends sigterm (d :: e :: requests))
        (rest : afterTerm (d :: e :: requests)) :
        (∀ sig ∈ (sends 0 (a :: b :: c :: d :: e :: requests)).drop 4, sig = sigkill) ↔
          (a :: b :: c :: d :: e :: requests).length ≤ 5 ∧ ((a :: b :: c :: d :: e :: requests).length = 5 →
              (a :: b :: c :: d :: e :: requests)[3]? ≠ some sigterm) := by
      have drops : (sends 0 (a :: b :: c :: d :: e :: requests)).drop 4 =
          (sends sigterm (d :: e :: requests)).drop 1 := by rw [term]; rfl
      rw [drops, last_after_term rest]
      cases requests <;> simp
    have known := signals a List.mem_cons_self
    simp only [requestSignals, List.mem_cons, List.not_mem_nil, or_false] at known
    rcases known with rfl | rfl | rfl | rfl
    · obtain ⟨rfl, rest⟩ : c = sigint ∧ afterTerm (d :: e :: requests) := ladder
      exact four rfl rest
    · obtain ⟨rfl, rest⟩ : b = sigint ∧ afterTerm (c :: d :: e :: requests) := ladder
      rw [afterTerm] at rest
      split at rest
      · rename_i again
        subst again
        exact four rfl rest
      · exact absurd rest id
    · have rest : afterTerm (b :: c :: d :: e :: requests) := ladder
      rw [afterTerm] at rest
      split at rest
      · rename_i again
        subst again
        rw [afterTerm] at rest
        split at rest
        · rename_i again
          subst again
          exact four rfl rest
        · exact absurd rest id
      · exact absurd rest id
    · exact absurd (show afterHup (b :: c :: d :: e :: requests) from ladder) id

section sent
variable {kills : List (List (Nat × Nat))} {sends : List Nat}
  (sent : List.Forall₂ (fun sent sig => sent ≠ [] ∧ ∀ kill ∈ sent, kill.2 = sig) kills sends)
include sent

theorem sent_each (P : Nat → Prop) :
    (∀ sent ∈ kills, ∀ kill ∈ sent, P kill.2) ↔ ∀ sig ∈ sends, P sig := by
  induction sent with
  | nil => simp
  | cons here _ ih =>
    obtain ⟨some, same⟩ := here
    rw [List.forall_mem_cons, List.forall_mem_cons, ih]
    refine and_congr_left fun _ => ⟨fun all => ?_, fun holds kill member => ?_⟩
    · obtain ⟨kill, member⟩ := List.exists_mem_of_ne_nil _ some
      rw [← same kill member]
      exact all kill member
    · rw [same kill member]
      exact holds

theorem sent_some (P : Nat → Prop) :
    (∀ sent ∈ kills, ∃ kill ∈ sent, P kill.2) ↔ ∀ sig ∈ sends, P sig := by
  induction sent with
  | nil => simp
  | cons here _ ih =>
    obtain ⟨some, same⟩ := here
    rw [List.forall_mem_cons, List.forall_mem_cons, ih]
    refine and_congr_left fun _ => ⟨?_, fun holds => ?_⟩
    · rintro ⟨kill, member, holds⟩
      rwa [← same kill member]
    · obtain ⟨kill, member⟩ := List.exists_mem_of_ne_nil _ some
      exact ⟨kill, member, by rwa [same kill member]⟩

theorem sent_pairwise (real : ∀ sig ∈ sends, sig ≠ 0) :
    (kills.Pairwise fun before after =>
      ∀ a ∈ before, ∀ b ∈ after, a.2 ≠ 0 → b.2 ≠ 0 → rank a.2 ≤ rank b.2) ↔
      sends.Pairwise (rank · ≤ rank ·) := by
  induction sent with
  | nil => simp
  | @cons first sig kills sends here later ih =>
    obtain ⟨some, same⟩ := here
    obtain ⟨real, others⟩ := List.forall_mem_cons.mp real
    rw [List.pairwise_cons, List.pairwise_cons, ih others]
    refine and_congr_left fun _ => ?_
    rw [← sent_each later fun x => rank sig ≤ rank x]
    constructor
    · intro all sent member kill inside
      obtain ⟨a, here⟩ := List.exists_mem_of_ne_nil _ some
      have holds := all sent member a here kill inside
      rw [same a here] at holds
      have sent_real : ∀ x ∈ sends, x ≠ 0 := others
      exact holds real (((sent_each later fun x => x ≠ 0).mpr sent_real) sent member kill inside)
    · intro all sent member a here b inside _ _
      rw [same a here]
      exact all sent member b inside

theorem escalates_by_sends :
    Escalates kills ↔ ((∀ sig ∈ sends, sig ≠ 0) ∧ sends.Pairwise (rank · ≤ rank ·)) ∧
      ∀ sig ∈ sends.drop 4, sig = sigkill := by
  have last := sent_each (List.forall₂_drop 4 sent) fun x => x ≠ 0 → x = sigkill
  constructor
  · intro escalates
    have real := (sent_some sent (· ≠ 0)).mp escalates.real
    refine ⟨⟨real, (sent_pairwise sent real).mp escalates.climbs⟩, fun sig member => ?_⟩
    exact last.mp escalates.last sig member (real sig (List.mem_of_mem_drop member))
  · rintro ⟨⟨real, climbs⟩, ends⟩
    exact ⟨(sent_some sent (· ≠ 0)).mpr real, (sent_pairwise sent real).mpr climbs,
      last.mpr fun sig member _ => ends sig member⟩

end sent

def oneRunning : List Slot := [{ pgrp := 7, stopping := false, cmd := none }]

def oneSlot : Opts where
  keepActive := 1
  sequential := true
  hasBrakes := false
  trackExitStats := false
  fmtPrint := false
  logfile := false
  failcmdfile := false
  testOutDir := false

end VteScheduler
