import Vte.Lib.WriteLogHistory

/-!
What `wlog_scan_backward` does along its way: every record length that it decodes, with the position
in the file of the byte behind the two it reads, and every call of the callback, with the position
where the window begins.
-/
namespace VteWriteLog
open Bytes

inductive Event where
  | decode (pos : Nat) (reclen : Int)
  | call (start : Nat) (rval : Int)
  /-- A copy of a negative size or past an array. -/
  | undefined
deriving DecidableEq

def Event.isAct : Event → Bool
  | .decode _ _ => false
  | _ => true

def Event.isCall : Event → Bool
  | .call _ _ => true
  | _ => false

def acts (events : List Event) : List Event := events.filter Event.isAct

section trace
variable {σ : Type} (signedChar : Bool) (nrecs : Int) (func : σ → WlogRec → σ × Int)

/-- `scanWindow` with its events; the window begins at `start`. -/
def traceWindow (start : Nat) (window : List Byte) : Nat → Nat → List Byte → Int → σ →
    List Event × Option (σ × Int × List Byte × List Byte)
  | 0, _, _, _, _ => ([], none)
  | fuel + 1, cp, albuf, recnum, s =>
    if cp < 2 then ([], some (s, recnum, window.take cp, albuf))
    else
      let reclen := charVal signedChar (byteAt window (cp - 2)) * 256 + charVal signedChar (byteAt window (cp - 1))
      let decoded := Event.decode (start + cp) reclen
      if (cp : Int) < reclen + 2 then ([decoded], some (s, recnum, window.take cp, albuf))
      else if reclen < 0 then ([decoded, .undefined], none)
      else
        let cp := cp - (reclen.toNat + 2)
        match memcpy albuf 0 (window.drop cp) reclen.toNat with
        | none => ([decoded, .undefined], none)
        | some albuf =>
          match wlogRecUnpack albuf with
          | none => ([decoded, .undefined], none)
          | some wrec =>
            let (s, rval) := func s wrec
            let called := [decoded, .call start rval]
            if rval = wlogStopScan then (called, some (s, recnum, [], albuf))
            else if nrecs ≠ 0 ∧ nrecs ≤ recnum + 1 then (called, some (s, recnum + 1, [], albuf))
            else
              let rest := traceWindow start window fuel cp albuf (recnum + 1) s
              (called ++ rest.1, rest.2)

def refillStart (offset : Int) (leftover : List Byte) : Int :=
  if offset + leftover.length < scanBufSize then 0
  else offset - (scanBufSize - leftover.length : Nat)

def refill (file : List Byte) (offset : Int) (leftover : List Byte) : List Byte :=
  let nbytes :=
    if offset + leftover.length < scanBufSize then offset.toNat else scanBufSize - leftover.length
  (file.drop (refillStart offset leftover).toNat).take nbytes ++ leftover

def traceLoop (file : List Byte) : Nat → Int → List Byte → List Byte → Int → σ → List Event × Option σ
  | 0, _, _, _, _, _ => ([], none)
  | fuel + 1, offset, leftover, albuf, recnum, s =>
    if (nrecs = 0 ∨ recnum < nrecs) ∧ 0 < offset then
      let window := refill file offset leftover
      let offset := refillStart offset leftover
      let here := traceWindow signedChar nrecs func offset.toNat window (window.length + 1)
        window.length albuf recnum s
      match here.2 with
      | none => (here.1, none)
      | some (s, recnum, leftover, albuf) =>
        let rest := traceLoop file fuel offset leftover albuf recnum s
        (here.1 ++ rest.1, rest.2)
    else ([], some s)

/-- The scan of a whole file, as far as the refills `fuel` allow. -/
def traceScan (file : List Byte) (fuel : Nat) (albuf : Vector Byte wlogRecMaxSize) (s : σ) :
    List Event × Option σ :=
  traceLoop signedChar nrecs func file fuel (toCInt file.length) [] albuf.toList 0 s

end trace

section same
variable {σ : Type} {signedChar : Bool} {nrecs : Int} {func : σ → WlogRec → σ × Int}

theorem trace_window_result (start : Nat) (window : List Byte) (fuel : Nat) :
    ∀ (cp : Nat) (albuf : List Byte) (recnum : Int) (s : σ),
      (traceWindow signedChar nrecs func start window fuel cp albuf recnum s).2 =
        scanWindow signedChar nrecs func window fuel cp albuf recnum s := by
  induction fuel with
  | zero => exact fun _ _ _ _ => rfl
  | succ fuel ih =>
    intro cp albuf recnum s
    rw [traceWindow, scanWindow]
    split
    · rfl
    · dsimp only
      split
      · rfl
      · split
        · rfl
        · cases memcpy albuf 0 (window.drop _) _ with
          | none => rfl
          | some albuf =>
            simp only [Option.bind_eq_bind, Option.bind_some]
            cases wlogRecUnpack albuf with
            | none => rfl
            | some wrec =>
              simp only [Option.bind_some]
              split
              · rfl
              · split
                · rfl
                · exact ih _ _ _ _

theorem trace_loop_result (file : List Byte) (fuel : Nat) :
    ∀ (offset : Int) (leftover albuf : List Byte) (recnum : Int) (s : σ),
      (traceLoop signedChar nrecs func file fuel offset leftover albuf recnum s).2 =
        scanLoop signedChar nrecs func file fuel offset leftover albuf recnum s := by
  induction fuel with
  | zero => exact fun _ _ _ _ _ => rfl
  | succ fuel ih =>
    intro offset leftover albuf recnum s
    rw [traceLoop, scanLoop]
    by_cases going : (nrecs = 0 ∨ recnum < nrecs) ∧ 0 < offset
    · rw [if_pos going, if_pos going]
      dsimp only
      change _ = (scanWindow signedChar nrecs func (refill file offset leftover)
        ((refill file offset leftover).length + 1) (refill file offset leftover).length albuf recnum
          s).bind _
      rw [trace_window_result]
      cases scanWindow signedChar nrecs func (refill file offset leftover)
        ((refill file offset leftover).length + 1) (refill file offset leftover).length albuf recnum
          s with
      | none => rfl
      | some left => exact ih _ _ _ _ _
    · rw [if_neg going, if_neg going]

theorem trace_scan_result (file : List Byte) (albuf : Vector Byte wlogRecMaxSize) (s : σ) :
    (traceScan signedChar nrecs func file (file.length + 1) albuf s).2 =
      wlogScanBackward signedChar nrecs func file albuf s :=
  trace_loop_result file (file.length + 1) _ _ _ _ _

end same

def decodeAt (signedChar : Bool) (bytes : List Byte) (pos : Nat) : Int :=
  charVal signedChar (byteAt bytes (pos - 2)) * 256 + charVal signedChar (byteAt bytes (pos - 1))

theorem frame_decode {signedChar : Bool} {f : Frame} (valid : f.Valid signedChar)
    (pre post : List Byte) :
    decodeAt signedChar (pre ++ f.bytes ++ post) (pre.length + f.body.length + 2) = f.body.length := by
  obtain ⟨high, low⟩ := trailer_bytes pre f post
  rw [decodeAt, Nat.add_sub_cancel]
  change charVal _ _ * 256 + charVal _ (byteAt _ (pre.length + f.body.length + 1)) = _
  rw [high, low, valid.trailer]

/-- How a window ends, with its calls and what it leaves: with the callback content, or stopped by it,
    or in undefined behaviour. -/
inductive WindowEnd (nrecs : Int) (start : Nat) (recnum : Int) {σ : Type} :
    List Event → Option (σ × Int × List Byte × List Byte) → Prop
  | left {rvals : List Int} {s : σ} {leftover albuf : List Byte}
      (plain : wlogStopScan ∉ rvals) (bound : nrecs = 0 ∨ recnum + rvals.length ≤ nrecs) :
      WindowEnd nrecs start recnum (rvals.map (Event.call start))
        (some (s, recnum + rvals.length, leftover, albuf))
  | stopped {rvals : List Int} {s : σ} {albuf : List Byte}
      (plain : wlogStopScan ∉ rvals) (bound : nrecs = 0 ∨ recnum + rvals.length < nrecs) :
      WindowEnd nrecs start recnum (rvals.map (Event.call start) ++ [.call start wlogStopScan])
        (some (s, recnum + rvals.length, [], albuf))
  | undefined {rvals : List Int} (plain : wlogStopScan ∉ rvals)
      (bound : nrecs = 0 ∨ recnum + rvals.length < nrecs) :
      WindowEnd nrecs start recnum (rvals.map (Event.call start) ++ [.undefined]) none

section window
variable {σ : Type} (signedChar : Bool) (nrecs : Int) (func : σ → WlogRec → σ × Int) (start : Nat)
  (window : List Byte)

inductive WindowPass (fuel cp : Nat) (albuf : List Byte) (recnum : Int) (s : σ) :
    List Event × Option (σ × Int × List Byte × List Byte) → Prop
  | short (few : cp < 2) :
      WindowPass fuel cp albuf recnum s ([], some (s, recnum, window.take cp, albuf))
  | cut (two : 2 ≤ cp) (long : (cp : Int) < decodeAt signedChar window cp + 2) :
      WindowPass fuel cp albuf recnum s ([.decode (start + cp) (decodeAt signedChar window cp)],
        some (s, recnum, window.take cp, albuf))
  | broken (two : 2 ≤ cp) (whole : ¬ (cp : Int) < decodeAt signedChar window cp + 2) :
      WindowPass fuel cp albuf recnum s
        ([.decode (start + cp) (decodeAt signedChar window cp), .undefined], none)
  | stopped {s' : σ} {albuf' : List Byte} (two : 2 ≤ cp)
      (whole : ¬ (cp : Int) < decodeAt signedChar window cp + 2) :
      WindowPass fuel cp albuf recnum s
        ([.decode (start + cp) (decodeAt signedChar window cp), .call start wlogStopScan],
          some (s', recnum, [], albuf'))
  | enough {s' : σ} {albuf' : List Byte} {rval : Int} (two : 2 ≤ cp)
      (whole : ¬ (cp : Int) < decodeAt signedChar window cp + 2) (continues : rval ≠ wlogStopScan)
      (last : nrecs ≠ 0 ∧ nrecs ≤ recnum + 1) :
      WindowPass fuel cp albuf recnum s
        ([.decode (start + cp) (decodeAt signedChar window cp), .call start rval], some (s', recnum + 1, [], albuf'))
  | further {cp' : Nat} {s' : σ} {albuf' : List Byte} {rval : Int} (two : 2 ≤ cp)
      (whole : ¬ (cp : Int) < decodeAt signedChar window cp + 2) (continues : rval ≠ wlogStopScan)
      (more : ¬ (nrecs ≠ 0 ∧ nrecs ≤ recnum + 1)) (back : cp' + 2 ≤ cp) :
      WindowPass fuel cp albuf recnum s
        ([.decode (start + cp) (decodeAt signedChar window cp), .call start rval] ++
            (traceWindow signedChar nrecs func start window fuel cp' albuf' (recnum + 1) s').1,
          (traceWindow signedChar nrecs func start window fuel cp' albuf' (recnum + 1) s').2)

theorem window_pass (fuel cp : Nat) (albuf : List Byte) (recnum : Int) (s : σ) :
    WindowPass signedChar nrecs func start window fuel cp albuf recnum s
      (traceWindow signedChar nrecs func start window (fuel + 1) cp albuf recnum s) := by
  rw [traceWindow]
  by_cases few : cp < 2
  · rw [if_pos few]
    exact .short few
  · have two : 2 ≤ cp := by omega
    rw [if_neg few]
    change WindowPass signedChar nrecs func start window fuel cp albuf recnum s
      (if (cp : Int) < decodeAt signedChar window cp + 2 then _ else _)
    by_cases long : (cp : Int) < decodeAt signedChar window cp + 2
    · rw [if_pos long]
      exact .cut two long
    · rw [if_neg long]
      change WindowPass signedChar nrecs func start window fuel cp albuf recnum s
        (if decodeAt signedChar window cp < 0 then _ else _)
      split
      · exact .broken two long
      · dsimp only
        split
        · exact .broken two long
        · split
          · exact .broken two long
          · rename_i wrec _
            generalize func s wrec = answer
            obtain ⟨s', rval⟩ := answer
            dsimp only
            split
            · rename_i stop
              rw [stop]
              exact .stopped two long
            · rename_i continues
              split
              · rename_i last
                exact .enough two long continues last
              · rename_i more
                exact .further two long continues more (by omega)

variable {signedChar nrecs func start window}

theorem acts_append (xs ys : List Event) : acts (xs ++ ys) = acts xs ++ acts ys :=
  List.filter_append _ _

theorem window_end_cons {recnum : Int} {events : List Event}
    {result : Option (σ × Int × List Byte × List Byte)} {rval : Int}
    (continues : rval ≠ wlogStopScan) (rest : WindowEnd nrecs start (recnum + 1) events result) :
    WindowEnd nrecs start recnum (.call start rval :: events) result := by
  have fresh : ∀ {rvals : List Int}, wlogStopScan ∉ rvals → wlogStopScan ∉ rval :: rvals := by
    intro rvals plain found
    rcases List.mem_cons.mp found with same | later
    · exact continues same.symm
    · exact plain later
  have count : ∀ rvals : List Int, recnum + 1 + (rvals.length : Int) = recnum + ((rval :: rvals).length : Nat) := by
    intro rvals
    rw [List.length_cons]
    omega
  cases rest with
  | left plain bound =>
    rw [count] at bound ⊢
    exact .left (fresh plain) bound
  | stopped plain bound =>
    rw [count] at bound ⊢
    exact .stopped (fresh plain) bound
  | undefined plain bound =>
    rw [count] at bound
    exact .undefined (fresh plain) bound

theorem window_end_here {recnum : Int} {s : σ} {leftover albuf : List Byte}
    (bound : nrecs = 0 ∨ recnum ≤ nrecs) :
    WindowEnd nrecs start recnum [] (some (s, recnum, leftover, albuf)) := by
  have empty : WindowEnd nrecs start recnum (([] : List Int).map (Event.call start))
      (some (s, recnum + (([] : List Int).length : Nat), leftover, albuf)) :=
    .left (by simp) (by simpa using bound)
  simpa using empty

theorem window_end_stopped {recnum : Int} {s : σ} {albuf : List Byte}
    (bound : nrecs = 0 ∨ recnum < nrecs) :
    WindowEnd nrecs start recnum [.call start wlogStopScan] (some (s, recnum, [], albuf)) := by
  have empty : WindowEnd nrecs start recnum
      (([] : List Int).map (Event.call start) ++ [.call start wlogStopScan])
      (some (s, recnum + (([] : List Int).length : Nat), [], albuf)) :=
    .stopped (by simp) (by simpa using bound)
  simpa using empty

theorem window_end_broken {recnum : Int} (bound : nrecs = 0 ∨ recnum < nrecs) :
    WindowEnd nrecs start recnum [.undefined]
      (none : Option (σ × Int × List Byte × List Byte)) := by
  have empty : WindowEnd nrecs start recnum
      (([] : List Int).map (Event.call start) ++ [.undefined])
      (none : Option (σ × Int × List Byte × List Byte)) :=
    .undefined (by simp) (by simpa using bound)
  simpa using empty

theorem window_end (fuel : Nat) : ∀ (cp : Nat) (albuf : List Byte) (recnum : Int)
    (s : σ), cp < fuel → (nrecs = 0 ∨ recnum < nrecs) →
    WindowEnd nrecs start recnum
      (acts (traceWindow signedChar nrecs func start window fuel cp albuf recnum s).1)
      (traceWindow signedChar nrecs func start window fuel cp albuf recnum s).2 := by
  induction fuel with
  | zero => intros; omega
  | succ fuel ih =>
    intro cp albuf recnum s enough wants
    have weak : nrecs = 0 ∨ recnum ≤ nrecs := wants.imp id Int.le_of_lt
    have pass := window_pass signedChar nrecs func start window fuel cp albuf recnum s
    generalize traceWindow signedChar nrecs func start window (fuel + 1) cp albuf recnum s = t at pass
    cases pass with
    | short few => exact window_end_here weak
    | cut two long => exact window_end_here weak
    | broken two whole => exact window_end_broken wants
    | stopped two whole => exact window_end_stopped wants
    | enough two whole continues last =>
      exact window_end_cons continues (window_end_here (by omega))
    | further two whole continues more back =>
      rw [acts_append]
      exact window_end_cons continues (ih _ _ _ _ (by omega) (by omega))

theorem window_first_decode (fuel : Nat) {cp : Nat} (two : 2 ≤ cp) (albuf : List Byte)
    (recnum : Int) (s : σ) :
    .decode (start + cp) (decodeAt signedChar window cp) ∈
      (traceWindow signedChar nrecs func start window (fuel + 1) cp albuf recnum s).1 := by
  have pass := window_pass signedChar nrecs func start window fuel cp albuf recnum s
  generalize traceWindow signedChar nrecs func start window (fuel + 1) cp albuf recnum s = t at pass
  cases pass with
  | short few => omega
  | cut two long => exact List.mem_cons_self ..
  | broken two whole => exact List.mem_cons_self ..
  | stopped two whole => exact List.mem_cons_self ..
  | enough two whole continues last => exact List.mem_cons_self ..
  | further two whole continues more back => exact List.mem_cons_self ..

theorem window_decodes (fuel : Nat) : ∀ (cp : Nat) (albuf : List Byte) (recnum : Int) (s : σ)
    (pos : Nat) (reclen : Int),
    .decode pos reclen ∈ (traceWindow signedChar nrecs func start window fuel cp albuf recnum s).1 →
    ∃ k, 2 ≤ k ∧ k ≤ cp ∧ pos = start + k ∧ reclen = decodeAt signedChar window k := by
  induction fuel with
  | zero => intro _ _ _ _ _ _ found; cases found
  | succ fuel ih =>
    intro cp albuf recnum s pos reclen found
    have here : 2 ≤ cp → ∀ events : List Event, (∀ e ∈ events, e.isAct = true) →
        .decode pos reclen ∈ Event.decode (start + cp) (decodeAt signedChar window cp) :: events →
        ∃ k, 2 ≤ k ∧ k ≤ cp ∧ pos = start + k ∧ reclen = decodeAt signedChar window k := by
      intro two events others inside
      rcases List.mem_cons.mp inside with same | other
      · injection same with same_pos same_len
        exact ⟨cp, two, Nat.le_refl _, same_pos, same_len⟩
      · cases others _ other
    have pass := window_pass signedChar nrecs func start window fuel cp albuf recnum s
    generalize traceWindow signedChar nrecs func start window (fuel + 1) cp albuf recnum s = t
      at pass found
    cases pass with
    | short few => cases found
    | cut two long => exact here two [] (by simp) found
    | broken two whole => exact here two [.undefined] (by simp [Event.isAct]) found
    | stopped two whole => exact here two [.call start _] (by simp [Event.isAct]) found
    | enough two whole continues last =>
      exact here two [.call start _] (by simp [Event.isAct]) found
    | further two whole continues more back =>
      rcases List.mem_append.mp found with inside | later
      · exact here two [.call start _] (by simp [Event.isAct]) inside
      · obtain ⟨k, low, high, same_pos, same_len⟩ := ih _ _ _ _ _ _ later
        exact ⟨k, low, by omega, same_pos, same_len⟩

theorem window_leftover (fuel : Nat) : ∀ (cp : Nat) (albuf : List Byte) (recnum : Int) (s s' : σ)
    (recnum' : Int) (leftover albuf' : List Byte), cp ≤ window.length →
    (traceWindow signedChar nrecs func start window fuel cp albuf recnum s).2 = some (s', recnum', leftover, albuf') →
    ∃ k, k ≤ window.length ∧ leftover = window.take k := by
  induction fuel with
  | zero => intro _ _ _ _ _ _ _ _ _ ended; cases ended
  | succ fuel ih =>
    intro cp albuf recnum s s' recnum' leftover albuf' inside ended
    have pass := window_pass signedChar nrecs func start window fuel cp albuf recnum s
    generalize traceWindow signedChar nrecs func start window (fuel + 1) cp albuf recnum s = t
      at pass ended
    cases pass with
    | short few =>
      cases ended
      exact ⟨cp, inside, rfl⟩
    | cut two long =>
      cases ended
      exact ⟨cp, inside, rfl⟩
    | broken two whole => cases ended
    | stopped two whole =>
      cases ended
      exact ⟨0, Nat.zero_le _, rfl⟩
    | enough two whole continues last =>
      cases ended
      exact ⟨0, Nat.zero_le _, rfl⟩
    | further two whole continues more back => exact ih _ _ _ _ _ _ _ _ (by omega) ended

def Short (signedChar : Bool) (window : List Byte) : Prop :=
  window.length < 2 ∨ (window.length : Int) < decodeAt signedChar window window.length + 2

theorem window_short (albuf : List Byte) (recnum : Int) (s : σ) (fuel : Nat) :
    (Short signedChar window →
      acts (traceWindow signedChar nrecs func start window (fuel + 1) window.length albuf recnum
          s).1 = [] ∧
        (traceWindow signedChar nrecs func start window (fuel + 1) window.length albuf recnum s).2 =
          some (s, recnum, window, albuf)) ∧
    (¬ Short signedChar window →
      acts (traceWindow signedChar nrecs func start window (fuel + 1) window.length albuf recnum
        s).1 ≠ []) := by
  have pass := window_pass signedChar nrecs func start window fuel window.length albuf recnum s
  generalize traceWindow signedChar nrecs func start window (fuel + 1) window.length albuf recnum s
    = t at pass
  have not_short : 2 ≤ window.length → ¬ (window.length : Int) < decodeAt signedChar window window.length + 2 →
      ¬ Short signedChar window := fun two whole short => short.elim (by omega) whole
  cases pass with
  | short few => exact ⟨fun _ => ⟨rfl, by rw [List.take_length]⟩, fun other => absurd (.inl few) other⟩
  | cut two long =>
    exact ⟨fun _ => ⟨rfl, by rw [List.take_length]⟩, fun other => absurd (.inr long) other⟩
  | broken two whole =>
    exact ⟨fun short => absurd short (not_short two whole), fun _ => by simp [acts, Event.isAct]⟩
  | stopped two whole =>
    exact ⟨fun short => absurd short (not_short two whole), fun _ => by simp [acts, Event.isAct]⟩
  | enough two whole continues last =>
    exact ⟨fun short => absurd short (not_short two whole), fun _ => by simp [acts, Event.isAct]⟩
  | further two whole continues more back =>
    exact ⟨fun short => absurd short (not_short two whole), fun _ => by simp [acts, Event.isAct]⟩

end window

structure Placed (file : List Byte) (offset : Nat) (leftover : List Byte) : Prop where
  inside : offset + leftover.length ≤ file.length
  bytes : leftover = (file.drop offset).take leftover.length
  small : leftover.length ≤ scanBufSize

/-- Where the window that ends at `stop` begins. -/
def windowStart (stop : Nat) : Nat := stop - min stop scanBufSize

def windowAt (file : List Byte) (stop : Nat) : List Byte :=
  (file.drop (windowStart stop)).take (min stop scanBufSize)

theorem window_at_length {file : List Byte} {stop : Nat} (inside : stop ≤ file.length) :
    (windowAt file stop).length = min stop scanBufSize := by
  rw [windowAt, List.length_take, List.length_drop, windowStart]
  omega

theorem window_start_stop {file : List Byte} {stop : Nat} (inside : stop ≤ file.length) :
    windowStart stop + (windowAt file stop).length = stop := by
  rw [window_at_length inside, windowStart]
  omega

theorem refill_start_eq {file leftover : List Byte} {offset : Nat}
    (placed : Placed file offset leftover) :
    refillStart offset leftover = windowStart (offset + leftover.length) := by
  have small := placed.small
  unfold refillStart windowStart
  split <;> omega

theorem refill_eq {file leftover : List Byte} {offset : Nat}
    (placed : Placed file offset leftover) :
    refill file offset leftover = windowAt file (offset + leftover.length) := by
  have small := placed.small
  have inside := placed.inside
  obtain ⟨start, startEq⟩ : ∃ n, n = windowStart (offset + leftover.length) := ⟨_, rfl⟩
  have early : start ≤ offset := by
    rw [startEq, windowStart]
    omega
  have total : min (offset + leftover.length) scanBufSize = offset - start + leftover.length := by
    rw [startEq, windowStart]
    omega
  have nbytes : (if (offset : Int) + leftover.length < scanBufSize then (offset : Int).toNat
      else scanBufSize - leftover.length) = offset - start := by
    rw [startEq, windowStart]
    split <;> omega
  have tail : (file.drop offset).take leftover.length = leftover := placed.bytes.symm
  unfold refill windowAt
  rw [refill_start_eq placed, nbytes, total, ← startEq, Int.toNat_natCast, List.take_add,
    List.drop_drop, Nat.add_sub_cancel' early, tail]

theorem placed_next {file : List Byte} {stop k : Nat} (inside : stop ≤ file.length) :
    Placed file (windowStart stop) ((windowAt file stop).take k) := by
  have length := window_at_length inside
  have whole := window_start_stop inside
  constructor
  case inside =>
    rw [List.length_take]
    omega
  case bytes =>
    rw [List.length_take, length, windowAt, List.take_take]
  case small =>
    rw [List.length_take]
    omega

theorem byte_at_window {file : List Byte} {stop k : Nat} (inside : stop ≤ file.length)
    (within : k < (windowAt file stop).length) :
    byteAt (windowAt file stop) k = byteAt file (windowStart stop + k) := by
  rw [window_at_length inside] at within
  rw [byteAt, byteAt, List.getD_eq_getElem?_getD, List.getD_eq_getElem?_getD, windowAt,
    List.getElem?_take_of_lt within, List.getElem?_drop]

theorem decode_at_window {signedChar : Bool} {file : List Byte} {stop k : Nat}
    (inside : stop ≤ file.length) (two : 2 ≤ k) (within : k ≤ (windowAt file stop).length) :
    decodeAt signedChar (windowAt file stop) k = decodeAt signedChar file (windowStart stop + k) := by
  have back2 : windowStart stop + (k - 2) = windowStart stop + k - 2 := by omega
  have back1 : windowStart stop + (k - 1) = windowStart stop + k - 1 := by omega
  rw [decodeAt, decodeAt, byte_at_window inside (by omega), byte_at_window inside (by omega), back2, back1]

section scan
variable {σ : Type} {signedChar : Bool} {nrecs : Int} {func : σ → WlogRec → σ × Int}
  {file : List Byte}

theorem trace_loop_step {offset : Nat} {leftover : List Byte} (placed : Placed file offset leftover)
    {recnum : Int} (going : (nrecs = 0 ∨ recnum < nrecs) ∧ 0 < offset) (fuel : Nat)
    (albuf : List Byte) (s : σ) :
    traceLoop signedChar nrecs func file (fuel + 1) offset leftover albuf recnum s =
      let start := windowStart (offset + leftover.length)
      let window := windowAt file (offset + leftover.length)
      let here := traceWindow signedChar nrecs func start window (window.length + 1) window.length
        albuf recnum s
      match here.2 with
      | none => (here.1, none)
      | some (s, recnum, leftover, albuf) =>
        let rest := traceLoop signedChar nrecs func file fuel start leftover albuf recnum s
        (here.1 ++ rest.1, rest.2) := by
  have positive : 0 < (offset : Int) := by omega
  rw [traceLoop, if_pos ⟨going.1, positive⟩, refill_start_eq placed, refill_eq placed]
  rfl

theorem trace_loop_done {offset : Nat} {recnum : Int}
    (done : ¬ ((nrecs = 0 ∨ recnum < nrecs) ∧ 0 < offset)) (fuel : Nat) (leftover albuf : List Byte)
    (s : σ) : (traceLoop signedChar nrecs func file (fuel + 1) offset leftover albuf recnum s).1 = [] := by
  have closed : ¬ ((nrecs = 0 ∨ recnum < nrecs) ∧ 0 < (offset : Int)) := by omega
  rw [traceLoop, if_neg closed]

theorem window_placed {stop : Nat} (inside : stop ≤ file.length) {albuf : List Byte} {recnum : Int}
    {s s' : σ} {recnum' : Int} {leftover albuf' : List Byte}
    (ended : (traceWindow signedChar nrecs func (windowStart stop) (windowAt file stop)
      ((windowAt file stop).length + 1) (windowAt file stop).length albuf recnum s).2 =
        some (s', recnum', leftover, albuf')) :
    Placed file (windowStart stop) leftover := by
  obtain ⟨k, _, same⟩ := window_leftover _ _ _ _ _ _ _ _ _ (Nat.le_refl _) ended
  rw [same]
  exact placed_next inside

inductive LoopPass (signedChar : Bool) (nrecs : Int) (func : σ → WlogRec → σ × Int)
    (file : List Byte) (recnum : Int) : (Nat → List Event) → Prop
  | ended : LoopPass signedChar nrecs func file recnum fun _ => []
  | undefined {start : Nat} {rvals : List Int} (plain : wlogStopScan ∉ rvals)
      (bound : nrecs = 0 ∨ recnum + rvals.length < nrecs) :
      LoopPass signedChar nrecs func file recnum fun _ =>
        rvals.map (Event.call start) ++ [.undefined]
  | left {start : Nat} {rvals : List Int} {leftover : List Byte} (albuf : List Byte) (s : σ)
      (plain : wlogStopScan ∉ rvals) (bound : nrecs = 0 ∨ recnum + rvals.length ≤ nrecs)
      (placed : Placed file start leftover) :
      LoopPass signedChar nrecs func file recnum fun fuel =>
        rvals.map (Event.call start) ++ acts (traceLoop signedChar nrecs func file fuel start
          leftover albuf (recnum + rvals.length) s).1
  | stopped {start : Nat} {rvals : List Int} (albuf : List Byte) (s : σ)
      (plain : wlogStopScan ∉ rvals) (bound : nrecs = 0 ∨ recnum + rvals.length < nrecs)
      (placed : Placed file start []) :
      LoopPass signedChar nrecs func file recnum fun fuel =>
        rvals.map (Event.call start) ++ .call start wlogStopScan ::
          acts (traceLoop signedChar nrecs func file fuel start [] albuf
            (recnum + rvals.length) s).1

theorem loop_pass {offset : Nat} {leftover : List Byte} (placed : Placed file offset leftover)
    (albuf : List Byte) (recnum : Int) (s : σ) :
    ∃ calls, LoopPass signedChar nrecs func file recnum calls ∧ ∀ fuel,
      acts (traceLoop signedChar nrecs func file (fuel + 1) offset leftover albuf recnum s).1 = calls fuel := by
  by_cases going : (nrecs = 0 ∨ recnum < nrecs) ∧ 0 < offset
  · simp only [trace_loop_step placed going]
    generalize stopEq : offset + leftover.length = stop
    have inside : stop ≤ file.length := by
      have within := placed.inside
      omega
    obtain ⟨here, hereEq⟩ : ∃ t, t = traceWindow signedChar nrecs func (windowStart stop)
      (windowAt file stop) ((windowAt file stop).length + 1) (windowAt file stop).length albuf
        recnum s := ⟨_, rfl⟩
    have ends : WindowEnd nrecs (windowStart stop) recnum (acts here.1) here.2 := by
      rw [hereEq]
      exact window_end _ _ _ _ _ (Nat.lt_succ_self _) going.1
    have next : ∀ s' recnum' leftover' albuf', here.2 = some (s', recnum', leftover', albuf') →
        Placed file (windowStart stop) leftover' := by
      intro s' recnum' leftover' albuf' result
      rw [hereEq] at result
      exact window_placed inside result
    rw [← hereEq]
    obtain ⟨events, result⟩ := here
    dsimp only at ends next ⊢
    generalize callsEq : acts events = calls at ends
    cases ends with
    | @left rvals s' left' albuf' plain bound =>
      refine ⟨_, .left albuf' s' plain bound (next _ _ _ _ rfl), fun fuel => ?_⟩
      rw [acts_append, callsEq]
    | @stopped rvals s' albuf' plain bound =>
      refine ⟨_, .stopped albuf' s' plain bound (next _ _ _ _ rfl), fun fuel => ?_⟩
      rw [acts_append, callsEq, List.append_assoc]
      rfl
    | undefined plain bound => exact ⟨_, .undefined plain bound, fun _ => callsEq⟩
  · refine ⟨_, .ended, fun fuel => ?_⟩
    rw [trace_loop_done going]
    rfl

theorem loop_decodes {pos : Nat} {reclen : Int} (fuel : Nat) : ∀ {offset : Nat}
    {leftover : List Byte} (albuf : List Byte) (recnum : Int) (s : σ), Placed file offset leftover →
    .decode pos reclen ∈ (traceLoop signedChar nrecs func file fuel offset leftover albuf recnum s).1 →
    reclen = decodeAt signedChar file pos := by
  induction fuel with
  | zero => exact fun _ _ _ _ found => (List.not_mem_nil found).elim
  | succ fuel ih =>
    intro offset leftover albuf recnum s placed found
    by_cases going : (nrecs = 0 ∨ recnum < nrecs) ∧ 0 < offset
    · rw [trace_loop_step placed going] at found
      dsimp only at found
      have inside := placed.inside
      generalize offset + leftover.length = stop at found inside
      obtain ⟨here, hereEq⟩ : ∃ t, t = traceWindow signedChar nrecs func (windowStart stop)
        (windowAt file stop) ((windowAt file stop).length + 1) (windowAt file stop).length albuf
          recnum s := ⟨_, rfl⟩
      have decoded : .decode pos reclen ∈ here.1 → reclen = decodeAt signedChar file pos := by
        intro first
        rw [hereEq] at first
        obtain ⟨k, two, within, rfl, rfl⟩ := window_decodes _ _ _ _ _ _ _ first
        exact decode_at_window inside two within
      rw [← hereEq] at found
      obtain ⟨events, result⟩ := here
      cases result with
      | none => exact decoded found
      | some left =>
        obtain ⟨s', recnum', leftover', albuf'⟩ := left
        rcases List.mem_append.mp found with first | later
        · exact decoded first
        · exact ih _ _ _ (window_placed inside (congrArg Prod.snd hereEq).symm) later
    · rw [trace_loop_done going] at found
      exact (List.not_mem_nil found).elim

theorem offset_inside (n : Nat) : toCInt n ≤ n := by
  have folded : (n : Int) % (2 ^ 32 : Nat) ≤ n := by
    rw [← Int.natCast_emod]
    exact Int.ofNat_le.mpr (Nat.mod_le n _)
  simp only [toCInt, Int.bmod]
  split <;> omega

theorem placed_end {file : List Byte} {offset : Nat} (at_end : toCInt file.length = offset) :
    Placed file offset [] := by
  have inside := offset_inside file.length
  refine ⟨?_, rfl, Nat.zero_le _⟩
  change offset ≤ file.length
  omega

theorem loop_beyond (fuel : Nat) {offset : Int} (beyond : offset < 0) (leftover albuf : List Byte)
    (recnum : Int) (s : σ) :
    (traceLoop signedChar nrecs func file fuel offset leftover albuf recnum s).1 = [] := by
  cases fuel with
  | zero => rfl
  | succ fuel => rw [traceLoop, if_neg (fun going => by omega)]

theorem scan_decodes {pos : Nat} {reclen : Int} {fuel : Nat} {albuf : Vector Byte wlogRecMaxSize}
    {s : σ} (found : .decode pos reclen ∈ (traceScan signedChar nrecs func file fuel albuf s).1) :
    reclen = decodeAt signedChar file pos := by
  unfold traceScan at found
  by_cases beyond : toCInt file.length < 0
  · rw [loop_beyond _ beyond] at found
    exact (List.not_mem_nil found).elim
  · obtain ⟨offset, at_end⟩ := Int.eq_ofNat_of_zero_le (Int.not_lt.mp beyond)
    rw [at_end] at found
    exact loop_decodes fuel _ _ _ (placed_end at_end) found

theorem scan_first_window (signedChar : Bool) (func : σ → WlogRec → σ × Int) {file : List Byte}
    (filled : 0 < file.length) (addressable : file.length < 2 ^ 31) (fuel : Nat)
    (albuf : Vector Byte wlogRecMaxSize) (s : σ) :
    ∃ later, (traceScan signedChar 0 func file (fuel + 1) albuf s).1 =
      (traceWindow signedChar 0 func (windowStart file.length) (windowAt file file.length)
        ((windowAt file file.length).length + 1) (windowAt file file.length).length albuf.toList 0
          s).1 ++ later := by
  have at_end := exact_offset addressable
  rw [traceScan, at_end, trace_loop_step (placed_end at_end) ⟨Or.inl rfl, filled⟩]
  dsimp only [List.length_nil, Nat.add_zero]
  split
  · exact ⟨[], (List.append_nil _).symm⟩
  · exact ⟨_, rfl⟩

theorem scan_first_decode (signedChar : Bool) (func : σ → WlogRec → σ × Int) {file : List Byte}
    (two : 2 ≤ file.length) (addressable : file.length < 2 ^ 31)
    (albuf : Vector Byte wlogRecMaxSize) (s : σ) :
    ∃ reclen, .decode file.length reclen ∈ (traceScan signedChar 0 func file 1 albuf s).1 := by
  obtain ⟨later, first⟩ := scan_first_window signedChar func (by omega) addressable 0 albuf s
  have whole := window_start_stop (Nat.le_refl file.length)
  have length := window_at_length (Nat.le_refl file.length)
  have filled : 2 ≤ (windowAt file file.length).length := by
    rw [length]
    exact Nat.le_min.mpr ⟨two, by decide⟩
  refine ⟨decodeAt signedChar (windowAt file file.length) (windowAt file file.length).length, ?_⟩
  rw [first]
  apply List.mem_append_left
  have place : Event.decode file.length = Event.decode (windowStart file.length +
      (windowAt file file.length).length) := by rw [whole]
  rw [place]
  exact window_first_decode _ filled _ _ _

end scan

end VteWriteLog
