import Vte.Lib.WriteLogTrace

/-!
When a backward scan stops for good: after `nrecs` records, or when its callback asks for it. What the
scan breaks off there is the window only, with nothing left over; the next refill ends in front of the
window, in the middle of a record.
-/
namespace VteWriteLog
open Bytes

def Event.Stops : Event → Prop
  | .call _ rval => rval = wlogStopScan
  | _ => False

/-- Nothing happens after the callback has answered `WLOG_STOP_SCAN`. -/
def NothingAfterStop (calls : List Event) : Prop := calls.Pairwise fun earlier _ => ¬ earlier.Stops

structure StopsWhenAsked (nrecs : Int) (events : List Event) : Prop where
  stop : NothingAfterStop (acts events)
  enough : nrecs ≠ 0 → (acts events).countP Event.isCall ≤ nrecs.toNat

theorem plain_calls_stop_not {start : Nat} {rvals : List Int} (plain : wlogStopScan ∉ rvals)
    {e : Event} (called : e ∈ rvals.map (Event.call start)) : ¬ e.Stops := by
  obtain ⟨rval, mem, rfl⟩ := List.mem_map.mp called
  intro stops
  rw [Event.Stops] at stops
  exact plain (stops ▸ mem)

theorem after_plain_calls {start : Nat} {rvals : List Int} (plain : wlogStopScan ∉ rvals)
    (later : List Event) :
    NothingAfterStop (rvals.map (Event.call start) ++ later) ↔ NothingAfterStop later := by
  unfold NothingAfterStop
  rw [List.pairwise_append]
  constructor
  · exact fun whole => whole.2.1
  · intro rest
    refine ⟨List.pairwise_of_forall_mem_list ?_, rest, ?_⟩
    · exact fun e called _ _ => plain_calls_stop_not plain called
    · exact fun e called _ _ => plain_calls_stop_not plain called

theorem after_stop (start : Nat) (later : List Event) :
    NothingAfterStop (.call start wlogStopScan :: later) ↔ later = [] := by
  unfold NothingAfterStop
  rw [List.pairwise_cons]
  constructor
  · rintro ⟨silent, _⟩
    rcases later with _ | ⟨e, later⟩
    · rfl
    · exact absurd rfl (silent e (List.mem_cons_self ..))
  · rintro rfl
    exact ⟨fun _ none => (List.not_mem_nil none).elim, List.Pairwise.nil⟩

theorem plain_count (start : Nat) (rvals : List Int) (later : List Event) :
    (rvals.map (Event.call start) ++ later).countP Event.isCall = rvals.length + later.countP Event.isCall := by
  rw [List.countP_append, List.countP_map, List.countP_eq_length.mpr]
  intro rval _
  rfl

theorem plain_stop_mem {start : Nat} {rvals : List Int} (plain : wlogStopScan ∉ rvals)
    {stop : Nat} {later : List Event} :
    .call stop wlogStopScan ∈ rvals.map (Event.call start) ++ later ↔ .call stop wlogStopScan ∈ later := by
  rw [List.mem_append]
  constructor
  · rintro (called | rest)
    · exact absurd rfl (plain_calls_stop_not plain called)
    · exact rest
  · exact Or.inr

/-- Nothing is called over the window that ends at `stop`: it is too short for a record length, or for
    the record that the length in front of `stop` promises. -/
def Harmless (signedChar : Bool) (file : List Byte) (stop : Nat) : Prop :=
  min stop scanBufSize < 2 ∨ ((min stop scanBufSize : Nat) : Int) < decodeAt signedChar file stop + 2

theorem short_iff_harmless {signedChar : Bool} {file : List Byte} {stop : Nat}
    (inside : stop ≤ file.length) :
    Short signedChar (windowAt file stop) ↔ Harmless signedChar file stop := by
  have length := window_at_length inside
  have whole := window_start_stop inside
  unfold Short Harmless
  by_cases few : min stop scanBufSize < 2
  · rw [length]
    exact ⟨fun _ => .inl few, fun _ => .inl few⟩
  · rw [decode_at_window inside (by omega) (Nat.le_refl _), whole, length]

section stop
variable {σ : Type} {signedChar : Bool} {nrecs : Int} {func : σ → WlogRec → σ × Int}
  {file : List Byte}

theorem loop_quiet (fuel : Nat) : ∀ {offset : Nat} {leftover : List Byte} (albuf : List Byte)
    (recnum : Int) (s : σ), Placed file offset leftover →
    Harmless signedChar file (offset + leftover.length) →
    acts (traceLoop signedChar nrecs func file fuel offset leftover albuf recnum s).1 = [] := by
  induction fuel with
  | zero => exact fun _ _ _ _ _ => rfl
  | succ fuel ih =>
    intro offset leftover albuf recnum s placed harmless
    by_cases going : (nrecs = 0 ∨ recnum < nrecs) ∧ 0 < offset
    · have inside := placed.inside
      have whole := window_start_stop inside
      have short := (short_iff_harmless inside).mpr harmless
      have next := placed_next (k := (windowAt file (offset + leftover.length)).length) inside
      rw [List.take_length] at next
      rw [trace_loop_step placed going]
      dsimp only
      obtain ⟨silent, kept⟩ := (window_short albuf recnum s _).1 short
      rw [kept, acts_append, silent, List.nil_append]
      exact ih albuf recnum s next (by rw [whole]; exact harmless)
    · have closed : ¬ ((nrecs = 0 ∨ recnum < nrecs) ∧ 0 < (offset : Int)) := by omega
      rw [traceLoop, if_neg closed]
      rfl

theorem loop_loud {offset : Nat} {leftover : List Byte} (placed : Placed file offset leftover)
    {recnum : Int} (going : (nrecs = 0 ∨ recnum < nrecs) ∧ 0 < offset)
    (harms : ¬ Harmless signedChar file (offset + leftover.length)) (fuel : Nat)
    (albuf : List Byte) (s : σ) :
    acts (traceLoop signedChar nrecs func file (fuel + 1) offset leftover albuf recnum s).1 ≠ [] := by
  have long := mt (short_iff_harmless placed.inside).mp harms
  rw [trace_loop_step placed going]
  dsimp only
  split
  · exact (window_short albuf recnum s _).2 long
  · rw [acts_append]
    intro none
    exact (window_short albuf recnum s _).2 long (List.append_eq_nil_iff.mp none).1

def HarmlessStops (signedChar : Bool) (file : List Byte) (events : List Event) : Prop :=
  ∀ start, .call start wlogStopScan ∈ events → Harmless signedChar file start

theorem loop_stops (fuel : Nat) : ∀ {offset : Nat} {leftover : List Byte} (albuf : List Byte)
    (recnum : Int) (s : σ), Placed file offset leftover →
    HarmlessStops signedChar file
      (acts (traceLoop signedChar nrecs func file fuel offset leftover albuf recnum s).1) →
    NothingAfterStop
        (acts (traceLoop signedChar nrecs func file fuel offset leftover albuf recnum s).1) ∧
      (nrecs ≠ 0 → (acts (traceLoop signedChar nrecs func file fuel offset leftover albuf recnum
        s).1).countP Event.isCall ≤ (nrecs - recnum).toNat) := by
  induction fuel with
  | zero => exact fun _ _ _ _ _ => ⟨List.Pairwise.nil, fun _ => Nat.zero_le _⟩
  | succ fuel ih =>
    intro offset leftover albuf recnum s placed harmless
    obtain ⟨calls, pass, callsEq⟩ := loop_pass placed albuf recnum s
    rw [callsEq] at harmless ⊢
    cases pass with
    | ended => exact ⟨List.Pairwise.nil, fun _ => Nat.zero_le _⟩
    | undefined plain bound =>
      rw [after_plain_calls plain, plain_count]
      refine ⟨List.pairwise_singleton _ _, fun some => ?_⟩
      change _ + 0 ≤ _
      omega
    | left albuf' s' plain bound placed' =>
      obtain ⟨stop, enough⟩ := ih _ _ _ placed'
        (fun start called => harmless start ((plain_stop_mem plain).mpr called))
      rw [after_plain_calls plain, plain_count]
      refine ⟨stop, fun some => ?_⟩
      have rest := enough some
      omega
    | stopped albuf' s' plain bound placed' =>
      have here := harmless _ ((plain_stop_mem plain).mpr (List.mem_cons_self ..))
      dsimp only
      rw [loop_quiet fuel _ _ _ placed' here, after_plain_calls plain, plain_count, after_stop]
      refine ⟨rfl, fun some => ?_⟩
      change _ + 1 ≤ _
      omega

theorem harmless_of_silent {start : Nat} (placed : Placed file start []) {recnum : Int}
    (wants : nrecs = 0 ∨ recnum < nrecs) {fuel : Nat} {albuf : List Byte} {s : σ}
    (silent : acts (traceLoop signedChar nrecs func file (fuel + 1) start [] albuf recnum s).1 = []) :
    Harmless signedChar file start := by
  by_contra harms
  have positive : 0 < start := by
    by_contra zero
    exact harms (.inl (by omega))
  exact loop_loud placed ⟨wants, positive⟩ harms fuel albuf s silent

theorem loop_stops_harmless (fuel : Nat) : ∀ {offset : Nat} {leftover : List Byte}
    (albuf : List Byte) (recnum : Int) (s : σ), Placed file offset leftover →
    NothingAfterStop
      (acts (traceLoop signedChar nrecs func file (fuel + 1) offset leftover albuf recnum s).1) →
    HarmlessStops signedChar file
      (acts (traceLoop signedChar nrecs func file fuel offset leftover albuf recnum s).1) := by
  induction fuel with
  | zero => exact fun _ _ _ _ _ _ called => (List.not_mem_nil called).elim
  | succ fuel ih =>
    intro offset leftover albuf recnum s placed silent
    obtain ⟨calls, pass, callsEq⟩ := loop_pass placed albuf recnum s
    rw [callsEq] at silent ⊢
    cases pass with
    | ended => exact fun _ called => (List.not_mem_nil called).elim
    | undefined plain bound =>
      intro start called
      rw [plain_stop_mem plain, List.mem_singleton] at called
      cases called
    | left albuf' s' plain bound placed' =>
      rw [after_plain_calls plain] at silent
      intro start called
      exact ih _ _ _ placed' silent start ((plain_stop_mem plain).mp called)
    | stopped albuf' s' plain bound placed' =>
      rw [after_plain_calls plain, after_stop] at silent
      have harmless := harmless_of_silent placed' bound silent
      intro stop called
      rw [plain_stop_mem plain, loop_quiet fuel _ _ _ placed' harmless, List.mem_singleton] at called
      injection called with same
      rw [same]
      exact harmless

theorem stop_acts {start : Nat} {rval : Int} {events : List Event} :
    .call start rval ∈ acts events ↔ .call start rval ∈ events := by
  rw [acts, List.mem_filter]
  exact and_iff_left rfl

theorem scan_stops_harmless (albuf : Vector Byte wlogRecMaxSize) (s : σ)
    (stops : ∀ fuel, StopsWhenAsked nrecs (traceScan signedChar nrecs func file fuel albuf s).1)
    (fuel : Nat) :
    HarmlessStops signedChar file (traceScan signedChar nrecs func file fuel albuf s).1 := by
  unfold traceScan at stops ⊢
  by_cases beyond : toCInt file.length < 0
  · rw [loop_beyond _ beyond]
    exact fun _ called => (List.not_mem_nil called).elim
  · obtain ⟨offset, at_end⟩ := Int.eq_ofNat_of_zero_le (Int.not_lt.mp beyond)
    rw [at_end] at stops ⊢
    intro start called
    exact loop_stops_harmless fuel _ _ _ (placed_end at_end) (stops (fuel + 1)).stop start
      (stop_acts.mpr called)

/-- The scan stops for good when the callback asks for it, or after `nrecs` records, exactly if at
    every stop the bytes in front of the window promise a record longer than the next window. -/
theorem scan_stops_iff (signedChar : Bool) (nrecs : Int) (func : σ → WlogRec → σ × Int)
    (file : List Byte) (albuf : Vector Byte wlogRecMaxSize) (s : σ) :
    (∀ fuel, StopsWhenAsked nrecs (traceScan signedChar nrecs func file fuel albuf s).1) ↔
      ∀ fuel start, .call start wlogStopScan ∈
        (traceScan signedChar nrecs func file fuel albuf s).1 → Harmless signedChar file start := by
  constructor
  · exact scan_stops_harmless albuf s
  · intro harmless fuel
    replace harmless := harmless fuel
    unfold traceScan at harmless ⊢
    by_cases beyond : toCInt file.length < 0
    · rw [loop_beyond _ beyond]
      exact ⟨List.Pairwise.nil, fun _ => Nat.zero_le _⟩
    · obtain ⟨offset, at_end⟩ := Int.eq_ofNat_of_zero_le (Int.not_lt.mp beyond)
      rw [at_end] at harmless ⊢
      obtain ⟨stop, enough⟩ := loop_stops fuel _ _ _ (placed_end at_end)
        (fun start called => harmless start (stop_acts.mp called))
      refine ⟨stop, fun some => ?_⟩
      have count := enough some
      rwa [Int.sub_zero] at count

theorem window_stops {f : Frame} (valid : f.Valid signedChar) (pre : List Byte) (start : Nat)
    (stop : ∀ s, (func s f.record).2 = wlogStopScan) {albuf : List Byte}
    (size : albuf.length = wlogRecMaxSize) (fuel : Nat) (recnum : Int) (s : σ) :
    .call start wlogStopScan ∈ (traceWindow signedChar nrecs func start (pre ++ f.bytes) (fuel + 1)
      (pre ++ f.bytes).length albuf recnum s).1 := by
  have decoded := frame_decode valid pre []
  have copied := frame_copied valid pre [] albuf size
  rw [List.append_nil] at decoded copied
  have length : (pre ++ f.bytes).length = pre.length + f.body.length + 2 := by
    rw [List.length_append, frame_length, Nat.add_assoc]
  have two : ¬ pre.length + f.body.length + 2 < 2 := by omega
  have whole : ¬ ((pre.length + f.body.length + 2 : Nat) : Int) < (f.body.length : Int) + 2 := by
    omega
  have nonneg : ¬ (f.body.length : Int) < 0 := by omega
  have back : pre.length + f.body.length + 2 - (f.body.length + 2) = pre.length := by omega
  rw [decodeAt] at decoded
  rw [length, traceWindow, if_neg two]
  simp only [decoded, if_neg whole, if_neg nonneg, Int.toNat_natCast, back, copied, valid.unpacks]
  rw [← stop s, if_pos rfl]
  simp

end stop

def shortPathRec : WlogRec := { blankRec with wPathlen := 2 }

def wantOne (s : Unit) (_ : WlogRec) : Unit × Int := (s, wlogStopScan)

theorem short_path_entries {entries : List Entry} {n : Nat}
    (same : entries.map Entry.wrec = List.replicate n shortPathRec) :
    ∀ e ∈ entries, e.bytes.length = 32 := by
  intro e mem
  have wrote : e.wrec = shortPathRec := List.eq_of_mem_replicate (same ▸ List.mem_map_of_mem mem)
  rw [entry_length, wrote]
  rfl

theorem stopped_scan_calls_again :
    ¬ ∀ calls st, CallsFit calls → runCalls calls = some st →
      ∀ fuel, StopsWhenAsked 0 (traceScan false 0 wantOne st.log fuel blankAlbuf ()).1 := by
  intro claim
  have fit : LengthsFit shortPathRec := ⟨by decide, by decide, by decide⟩
  obtain ⟨st, entries, run, log, same⟩ := appends_entries fit 513
  have size := short_path_entries same
  have stops := claim _ st (appends_fit fit 513) run
  have count := congrArg List.length same
  rw [List.length_map, List.length_replicate] at count
  have whole := same_entries_length size
  rw [count, ← log] at whole
  rcases entries with _ | ⟨oldest, entries⟩
  · cases count
  rcases List.eq_nil_or_concat entries with rfl | ⟨between, newest, rfl⟩
  · cases count
  obtain ⟨f₀, body₀, bytes₀, valid₀, _⟩ := entry_frame oldest
  obtain ⟨f, body, bytes, valid, _⟩ := entry_frame newest
  have oldest_size := size oldest (by simp)
  rw [List.flatMap_cons, List.concat_eq_append, List.flatMap_append, List.flatMap_singleton, ← bytes, ← bytes₀] at log
  rw [← bytes₀] at oldest_size
  have rest_size : (between.flatMap Entry.bytes ++ f.bytes).length = 16384 := by
    rw [log, List.length_append] at whole
    omega
  have window : windowAt st.log st.log.length = between.flatMap Entry.bytes ++ f.bytes := by
    rw [windowAt, whole]
    change (st.log.drop 32).take 16384 = _
    rw [log, ← oldest_size, List.drop_left, ← rest_size, List.take_length]
  have asked : .call 32 wlogStopScan ∈ (traceScan false 0 wantOne st.log 1 blankAlbuf ()).1 := by
    have some : 0 < st.log.length := by omega
    obtain ⟨later, first⟩ := scan_first_window false wantOne some (by omega) 0 blankAlbuf ()
    rw [first, window, whole]
    exact List.mem_append_left _ (window_stops valid _ _ (fun _ => rfl) (by simp) _ _ _)
  -- in front of the window is the length of a record of 30 bytes, and there is room for it
  have decoded := frame_decode valid₀ [] (between.flatMap Entry.bytes ++ f.bytes)
  rw [frame_length] at oldest_size
  rw [List.length_nil, Nat.zero_add, oldest_size, List.nil_append, ← log] at decoded
  rcases scan_stops_harmless blankAlbuf () stops 1 32 asked with few | long
  · exact absurd few (by decide)
  · rw [decoded] at long
    change (32 : Int) < _ at long
    omega

end VteWriteLog
