import Mathlib.Data.List.Forall2
import Vte.Lib.WriteLogScan

/-!
Histories of a write log: appends and overlays in any order. While the log can be addressed
by an `int`, it is the concatenation of its entries, and a backward scan replays the abstract
history, newest first.
-/
namespace VteWriteLog
open Bytes Blocks

/-- A call of `wlog_record_write`; an overlay names the append whose returned offset it uses. -/
inductive Call where
  | append (offset : Int) (wrec : WlogRec) (wbuf : WriteBuf)
  | overlay (nth : Nat) (wrec : WlogRec) (wbuf : WriteBuf)

structure LogState where
  log : List Byte
  returned : List Int

def call (st : LogState) : Call → Option LogState
  | .append offset wrec wbuf => do
    let (log, at_) ← wlogRecordWrite st.log wbuf wrec offset
    return ⟨log, st.returned ++ [at_]⟩
  | .overlay nth wrec wbuf => do
    let offset ← st.returned[nth]?
    let (log, _) ← wlogRecordWrite st.log wbuf wrec offset
    return ⟨log, st.returned⟩

def runCalls (calls : List Call) : Option LogState := calls.foldlM call ⟨[], []⟩

/-- The fixed fields of `new` with the strings of `old`. -/
def overlaid (old new : WlogRec) : WlogRec :=
  { new with wHost := old.wHost, wPath := old.wPath, wPattern := old.wPattern }

def remember (hist : List WlogRec) : Call → List WlogRec
  | .append _ wrec _ => hist ++ [wrec]
  | .overlay nth wrec _ => hist.modify nth (overlaid · wrec)

def historyOf (calls : List Call) : List WlogRec := calls.foldl remember []

structure SameLengths (old new : WlogRec) : Prop where
  path : new.wPathlen = old.wPathlen
  host : new.wHostlen = old.wHostlen
  pattern : new.wPatternlen = old.wPatternlen

def CallFits (hist : List WlogRec) : Call → Prop
  | .append offset wrec _ => offset < 0 ∧ LengthsFit wrec
  | .overlay nth wrec _ => ∃ old, hist[nth]? = some old ∧ SameLengths old wrec

def CallsFit (calls : List Call) : Prop :=
  ∀ before c after, calls = before ++ c :: after → CallFits (historyOf before) c

theorem run_snoc (calls : List Call) (c : Call) :
    runCalls (calls ++ [c]) = (runCalls calls).bind (call · c) := by
  simp [runCalls, List.foldlM_append]

theorem history_snoc (calls : List Call) (c : Call) :
    historyOf (calls ++ [c]) = remember (historyOf calls) c := by
  simp [historyOf]

theorem calls_fit_snoc {calls : List Call} {c : Call} :
    CallsFit (calls ++ [c]) ↔ CallsFit calls ∧ CallFits (historyOf calls) c := by
  constructor
  · intro fit
    refine ⟨?_, fit calls c [] rfl⟩
    intro before c' after split
    exact fit before c' (after ++ [c]) (by simp [split])
  · rintro ⟨earlier, last⟩ before c' after split
    rcases List.eq_nil_or_concat after with rfl | ⟨after, c'', rfl⟩
    · obtain ⟨rfl, rfl⟩ := List.append_singleton_inj.mp split
      exact last
    · rw [List.concat_eq_append, ← List.cons_append, ← List.append_assoc] at split
      exact earlier before c' after (List.append_singleton_inj.mp split).1

structure Entry where
  disk : WlogRecDisk
  wrec : WlogRec
  holds : Holds disk wrec
  fit : LengthsFit wrec

def Entry.body (e : Entry) : List Byte := e.disk.toBytes ++ varBytes e.wrec e.disk

def trailer (reclen : Nat) : List Byte :=
  [BitVec.ofNat 8 (reclen / 256), BitVec.ofNat 8 (reclen % 256)]

def Entry.bytes (e : Entry) : List Byte := e.body ++ trailer e.body.length

theorem entry_host (e : Entry) : e.disk.wHostlen.toNat ≤ wlogMaxHost + 1 := by
  rw [held_hostlen e.holds e.fit]
  exact e.fit.host

theorem entry_body_length (e : Entry) :
    e.body.length = sizeofWlogRecDisk + varLength e.disk := by
  rw [Entry.body, List.length_append, disk_bytes_length, var_bytes_length _ _ (entry_host e)]

theorem entry_length (e : Entry) : e.bytes.length =
    sizeofWlogRecDisk + e.wrec.wPathlen.toNat + e.wrec.wHostlen.toNat + e.wrec.wPatternlen.toNat + 2 := by
  rw [Entry.bytes, List.length_append, entry_body_length, varLength, held_pathlen e.holds e.fit,
    held_hostlen e.holds e.fit, held_patternlen e.holds e.fit]
  simp only [trailer, List.length_cons, List.length_nil]
  omega

theorem entry_small (e : Entry) : e.body.length ≤ wlogRecMaxSize := by
  rw [entry_body_length]
  exact var_length_bound e.disk (entry_host e)

theorem trailer_value {n : Nat} (small : n ≤ wlogRecMaxSize) :
    charVal false (BitVec.ofNat 8 (n / 256)) * 256 + charVal false (BitVec.ofNat 8 (n % 256)) = n := by
  simp only [wlogRecMaxSize, sizeofWlogRec, wlogMaxPath, wlogMaxPattern, wlogMaxHost] at small
  simp only [charVal, Bool.false_eq_true, if_false, BitVec.toNat_ofNat]
  omega

theorem entry_frame (e : Entry) :
    ∃ f : Frame, f.body = e.body ∧ f.bytes = e.bytes ∧ f.Valid false ∧ ReadsBack e.wrec f.record := by
  obtain ⟨out, unpacked, read⟩ := unpack_layout e.holds e.fit
  let f : Frame := ⟨e.body, BitVec.ofNat 8 (e.body.length / 256), BitVec.ofNat 8 (e.body.length % 256), out⟩
  exact ⟨f, rfl, rfl, ⟨entry_small e, trailer_value (entry_small e), unpacked⟩, read⟩

theorem entries_frames (entries : List Entry) :
    ∃ frames : List Frame, frames.flatMap Frame.bytes = entries.flatMap Entry.bytes ∧ (∀ f ∈ frames, f.Valid false) ∧
      List.Forall₂ ReadsBack (entries.map Entry.wrec) (frames.map Frame.record) := by
  induction entries with
  | nil => exact ⟨[], rfl, by simp, by simp⟩
  | cons e entries ih =>
    obtain ⟨frames, bytes, valid, back⟩ := ih
    obtain ⟨f, _, same, fValid, read⟩ := entry_frame e
    refine ⟨f :: frames, ?_, ?_, ?_⟩
    · rw [List.flatMap_cons, List.flatMap_cons, bytes, same]
    · simpa using ⟨fValid, valid⟩
    · exact List.Forall₂.cons read back

theorem write_layout (wrec : WlogRec) {offset : Int} (new : offset < 0) (log : List Byte)
    (wbuf : WriteBuf)
    (host : (packFixed wrec (WlogRecDisk.ofBytes wbuf.toList)).wHostlen.toNat ≤ wlogMaxHost + 1) :
    let d := packFixed wrec (WlogRecDisk.ofBytes wbuf.toList)
    let body := d.toBytes ++ varBytes wrec d
    wlogRecordWrite log wbuf wrec offset = some (log ++ (body ++ trailer body.length), toCInt log.length) := by
  intro d body
  have room : wlogRecMaxSize ≤ wbuf.toList.length := by
    rw [Vector.length_toList]
    exact Nat.le_add_right _ _
  have packed := pack_layout wrec wbuf.toList room host
  have size : body.length = sizeofWlogRecDisk + varLength d := by
    rw [List.length_append, disk_bytes_length, var_bytes_length _ _ host]
  have taken : ∀ rest, (body ++ rest).take (sizeofWlogRecDisk + varLength d) = body := by
    intro rest
    rw [← size, List.take_left]
  change wlogRecPack wrec wbuf.toList true = some (body ++ _, _) at packed
  simp only [wlogRecordWrite, new, decide_true, packed, Option.bind_eq_bind, Option.bind_some, if_true]
  rw [taken, ← size]
  simp only [trailer, List.length_append, List.length_cons, List.length_nil, Option.pure_def]
  congr 3
  omega

theorem write_append {wrec : WlogRec} (fit : LengthsFit wrec) {offset : Int} (new : offset < 0)
    (log : List Byte) (wbuf : WriteBuf) :
    ∃ e : Entry, e.wrec = wrec ∧ wlogRecordWrite log wbuf wrec offset = some (log ++ e.bytes, toCInt log.length) := by
  let e : Entry := ⟨packFixed wrec (WlogRecDisk.ofBytes wbuf.toList), wrec, packed_holds _ _, fit⟩
  exact ⟨e, rfl, write_layout wrec new log wbuf (entry_host e)⟩

theorem write_overlay (wrec : WlogRec) (log : List Byte) (wbuf : WriteBuf) {offset : Int}
    (old : 0 ≤ offset) :
    wlogRecordWrite log wbuf wrec offset = some (writeAt 0 log offset.toNat
        (packFixed wrec (WlogRecDisk.ofBytes wbuf.toList)).toBytes, toCInt offset) := by
  have room : sizeofWlogRecDisk ≤ wbuf.toList.length := by
    rw [Vector.length_toList]
    decide
  have packed := pack_overlay_layout wrec wbuf.toList room
  have notNew : ¬ offset < 0 := by omega
  have taken : ∀ (d : WlogRecDisk) rest, (d.toBytes ++ rest).take sizeofWlogRecDisk = d.toBytes := by
    intro d rest
    rw [← disk_bytes_length d, List.take_left]
  simp only [wlogRecordWrite, notNew, decide_false, packed, Option.bind_eq_bind, Option.bind_some,
    if_false, taken, Option.pure_def]

def Entry.overlay (e : Entry) (new : WlogRec) (same : SameLengths e.wrec new) (d : WlogRecDisk) :
    Entry where
  disk := packFixed new d
  wrec := overlaid e.wrec new
  holds := packed_holds (overlaid e.wrec new) d
  fit := by
    have fit := e.fit
    constructor
    · simpa only [overlaid, same.path] using fit.path
    · simpa only [overlaid, same.host] using fit.host
    · simpa only [overlaid, same.pattern] using fit.pattern

theorem overlay_var_bytes (e : Entry) {new : WlogRec} (same : SameLengths e.wrec new)
    (d : WlogRecDisk) :
    varBytes (e.overlay new same d).wrec (e.overlay new same d).disk = varBytes e.wrec e.disk := by
  have path := held_pathlen (e.overlay new same d).holds (e.overlay new same d).fit
  have host := held_hostlen (e.overlay new same d).holds (e.overlay new same d).fit
  have pattern := held_patternlen (e.overlay new same d).holds (e.overlay new same d).fit
  unfold varBytes
  rw [path, host, pattern, held_pathlen e.holds e.fit, held_hostlen e.holds e.fit, held_patternlen e.holds e.fit]
  simp only [Entry.overlay, overlaid, same.path, same.host, same.pattern]

theorem overlay_bytes (e : Entry) {new : WlogRec} (same : SameLengths e.wrec new)
    (d : WlogRecDisk) :
    (e.overlay new same d).bytes = (packFixed new d).toBytes ++ (varBytes e.wrec e.disk ++ trailer e.body.length) := by
  have body : (e.overlay new same d).body = (packFixed new d).toBytes ++ varBytes e.wrec e.disk := by
    rw [Entry.body, overlay_var_bytes e same]
    rfl
  have size : (e.overlay new same d).body.length = e.body.length := by
    rw [body, Entry.body, List.length_append, List.length_append, disk_bytes_length, disk_bytes_length]
  rw [Entry.bytes, size, body, List.append_assoc]

theorem overlay_length (e : Entry) {new : WlogRec} (same : SameLengths e.wrec new)
    (d : WlogRecDisk) : (e.overlay new same d).bytes.length = e.bytes.length := by
  rw [overlay_bytes, Entry.bytes, Entry.body]
  simp only [List.length_append, disk_bytes_length]
  omega

def startOf (entries : List Entry) (i : Nat) : Nat := ((entries.take i).flatMap Entry.bytes).length

structure Represents (st : LogState) (entries : List Entry) : Prop where
  log : st.log = entries.flatMap Entry.bytes
  count : st.returned.length = entries.length
  returned : ∀ i < entries.length, st.returned[i]? = some (startOf entries i : Int)

theorem exact_offset {n : Nat} (small : n < 2 ^ 31) : toCInt n = n := by
  unfold toCInt
  rw [Int.bmod_eq_of_le] <;> omega

theorem represents_append {st : LogState} {entries : List Entry} (rep : Represents st entries)
    (small : st.log.length < 2 ^ 31) (e : Entry) :
    Represents ⟨st.log ++ e.bytes, st.returned ++ [toCInt st.log.length]⟩ (entries ++ [e]) := by
  constructor
  case log => simp [rep.log]
  case count => simp [rep.count]
  case returned =>
    intro i inside
    rw [List.length_append, List.length_singleton] at inside
    by_cases before : i < entries.length
    · have start : startOf (entries ++ [e]) i = startOf entries i := by
        simp [startOf, List.take_append_of_le_length (Nat.le_of_lt before)]
      rw [List.getElem?_append_left (by rw [rep.count]; exact before), rep.returned i before, start]
    · have last : i = entries.length := by omega
      have start : startOf (entries ++ [e]) i = st.log.length := by simp [startOf, last, rep.log]
      rw [start, exact_offset small, last, ← rep.count, List.getElem?_concat_length]

theorem represents_overlay {st : LogState} {entries : List Entry} (rep : Represents st entries)
    {i : Nat} {e : Entry} (at_i : entries[i]? = some e) {new : WlogRec}
    (same : SameLengths e.wrec new) (d : WlogRecDisk) :
    Represents ⟨writeAt 0 st.log (startOf entries i) (packFixed new d).toBytes, st.returned⟩
      (entries.set i (e.overlay new same d)) := by
  have split := split_at entries i e at_i
  have stay : ∀ j, startOf (entries.set i (e.overlay new same d)) j = startOf entries j := by
    intro j
    unfold startOf
    rw [List.take_set]
    by_cases before : i < j
    · apply flat_length_set Entry.bytes _ i e _ _ (overlay_length e same d)
      rw [List.getElem?_take_of_lt before, at_i]
    · rw [List.set_eq_of_length_le (by simp; omega)]
  have inside : i < entries.length := (List.getElem?_eq_some_iff.mp at_i).1
  constructor
  case log =>
    have flat : entries.flatMap Entry.bytes = (entries.take i).flatMap Entry.bytes ++
        e.disk.toBytes ++ (varBytes e.wrec e.disk ++ trailer e.body.length ++
          (entries.drop (i + 1)).flatMap Entry.bytes) := by
      conv_lhs => rw [split]
      simp [Entry.bytes, Entry.body]
    have lengths : (packFixed new d).toBytes.length = e.disk.toBytes.length := rfl
    change writeAt 0 st.log (startOf entries i) (packFixed new d).toBytes = _
    rw [rep.log, flat, startOf, write_at_middle 0 _ _ _ _ lengths, List.set_eq_take_append_cons_drop,
      if_pos inside, List.flatMap_append, List.flatMap_cons, overlay_bytes e same]
    simp
  case count => simp [rep.count]
  case returned =>
    intro j within
    rw [List.length_set] at within
    rw [stay j]
    exact rep.returned j within

theorem call_grows {st st' : LogState} {c : Call} (done : call st c = some st') :
    st.log.length ≤ st'.log.length := by
  have write : ∀ {log log' : List Byte} {wbuf wrec offset at_},
      wlogRecordWrite log wbuf wrec offset = some (log', at_) → log.length ≤ log'.length := by
    intro log log' wbuf wrec offset at_ wrote
    simp only [wlogRecordWrite, Option.bind_eq_bind, Option.bind_eq_some_iff] at wrote
    obtain ⟨packed, _, wrote⟩ := wrote
    split at wrote
    · simp only [Option.pure_def, Option.some.injEq, Prod.mk.injEq] at wrote
      rw [← wrote.1, List.length_append]
      omega
    · simp only [Option.pure_def, Option.some.injEq, Prod.mk.injEq] at wrote
      rw [← wrote.1, write_at_length]
      omega
  cases c with
  | append offset wrec wbuf =>
    simp only [call, Option.bind_eq_bind, Option.bind_eq_some_iff, Option.pure_def, Option.some.injEq] at done
    obtain ⟨⟨log, at_⟩, wrote, rfl⟩ := done
    exact write wrote
  | overlay nth wrec wbuf =>
    simp only [call, Option.bind_eq_bind, Option.bind_eq_some_iff, Option.pure_def, Option.some.injEq] at done
    obtain ⟨offset, _, ⟨log, at_⟩, wrote, rfl⟩ := done
    exact write wrote

theorem call_defined {st : LogState} {hist : List WlogRec} {c : Call}
    (count : st.returned.length = hist.length) (fits : ∀ r ∈ hist, LengthsFit r)
    (fit : CallFits hist c) :
    ∃ st', call st c = some st' ∧ st'.returned.length = (remember hist c).length ∧
      ∀ r ∈ remember hist c, LengthsFit r := by
  cases c with
  | append offset wrec wbuf =>
    obtain ⟨new, lengths⟩ := fit
    obtain ⟨e, _, wrote⟩ := write_append lengths new st.log wbuf
    refine ⟨⟨st.log ++ e.bytes, st.returned ++ [toCInt st.log.length]⟩, ?_, ?_, ?_⟩
    · simp [call, wrote]
    · simp [remember, count]
    · intro r mem
      rcases List.mem_append.mp mem with old | last
      · exact fits r old
      · rwa [List.mem_singleton.mp last]
  | overlay nth wrec wbuf =>
    obtain ⟨old, at_nth, same⟩ := fit
    have inside : nth < st.returned.length := by
      rw [count]
      exact (List.getElem?_eq_some_iff.mp at_nth).1
    have oldFit := fits old (List.mem_of_getElem? at_nth)
    have newFit : LengthsFit wrec :=
      ⟨by rw [same.path]; exact oldFit.path, by rw [same.host]; exact oldFit.host,
        by rw [same.pattern]; exact oldFit.pattern⟩
    have wrote : ∃ log at_, wlogRecordWrite st.log wbuf wrec st.returned[nth] = some (log, at_) := by
      by_cases new : st.returned[nth] < 0
      · obtain ⟨e, _, wrote⟩ := write_append newFit new st.log wbuf
        exact ⟨_, _, wrote⟩
      · exact ⟨_, _, write_overlay wrec st.log wbuf (by omega)⟩
    obtain ⟨log, at_, wrote⟩ := wrote
    refine ⟨⟨log, st.returned⟩, ?_, ?_, ?_⟩
    · simp [call, List.getElem?_eq_getElem inside, wrote]
    · simp [remember, count]
    · intro r mem
      obtain ⟨j, within, rfl⟩ := List.mem_iff_getElem.mp mem
      simp only [remember, List.length_modify] at within
      have jFit := fits _ (List.getElem_mem within)
      simp only [remember, List.getElem_modify]
      split
      · rename_i here
        obtain rfl : hist[j] = old := by
          rw [← Option.some.injEq, ← List.getElem?_eq_getElem within, ← here, at_nth]
        exact ⟨newFit.path, newFit.host, newFit.pattern⟩
      · exact jFit

theorem run_defined (calls : List Call) : CallsFit calls →
    ∃ st, runCalls calls = some st ∧ st.returned.length = (historyOf calls).length ∧
      ∀ r ∈ historyOf calls, LengthsFit r := by
  induction calls using List.reverseRecOn with
  | nil => exact fun _ => ⟨⟨[], []⟩, rfl, rfl, by simp [historyOf]⟩
  | append_singleton calls c ih =>
    intro fit
    obtain ⟨before, here⟩ := calls_fit_snoc.mp fit
    obtain ⟨st, run, count, fits⟩ := ih before
    obtain ⟨st', step, count', fits'⟩ := call_defined count fits here
    rw [run_snoc, run, Option.bind_some, history_snoc]
    exact ⟨st', step, count', fits'⟩

theorem call_represents {st st' : LogState} {entries : List Entry} (rep : Represents st entries)
    (small : st.log.length < 2 ^ 31) {c : Call} (fit : CallFits (entries.map Entry.wrec) c)
    (done : call st c = some st') :
    ∃ entries', Represents st' entries' ∧ entries'.map Entry.wrec = remember (entries.map Entry.wrec) c := by
  cases c with
  | append offset wrec wbuf =>
    obtain ⟨new, lengths⟩ := fit
    obtain ⟨e, same, wrote⟩ := write_append lengths new st.log wbuf
    simp only [call, wrote, Option.bind_eq_bind, Option.bind_some, Option.pure_def, Option.some.injEq] at done
    refine ⟨entries ++ [e], ?_, ?_⟩
    · rw [← done]
      exact represents_append rep small e
    · simp [remember, same]
  | overlay nth wrec wbuf =>
    obtain ⟨old, at_nth, same⟩ := fit
    rw [List.getElem?_map, Option.map_eq_some_iff] at at_nth
    obtain ⟨e, at_e, rfl⟩ := at_nth
    have inside : nth < entries.length := (List.getElem?_eq_some_iff.mp at_e).1
    have offset := rep.returned nth inside
    have wrote := write_overlay wrec st.log wbuf (Int.natCast_nonneg (startOf entries nth))
    simp only [call, offset, wrote, Int.toNat_natCast, Option.bind_eq_bind, Option.bind_some,
      Option.pure_def, Option.some.injEq] at done
    refine ⟨entries.set nth (e.overlay wrec same (WlogRecDisk.ofBytes wbuf.toList)), ?_, ?_⟩
    · rw [← done]
      exact represents_overlay rep at_e same _
    · have within : nth < (entries.map Entry.wrec).length := by simpa using inside
      have there : (entries.map Entry.wrec)[nth] = e.wrec := by
        simp [(List.getElem?_eq_some_iff.mp at_e).2]
      rw [List.map_set, remember, List.modify_eq_take_cons_drop within, there,
        List.set_eq_take_append_cons_drop, if_pos within]
      rfl

theorem run_represents (calls : List Call) : CallsFit calls → ∀ st, runCalls calls = some st → st.log.length < 2 ^ 31 →
    ∃ entries, Represents st entries ∧ entries.map Entry.wrec = historyOf calls := by
  induction calls using List.reverseRecOn with
  | nil =>
    intro _ st run _
    obtain rfl : (⟨[], []⟩ : LogState) = st := Option.some.inj run
    exact ⟨[], ⟨rfl, rfl, by simp⟩, rfl⟩
  | append_singleton calls c ih =>
    intro fit st' run small
    obtain ⟨before, here⟩ := calls_fit_snoc.mp fit
    rw [run_snoc, Option.bind_eq_some_iff] at run
    obtain ⟨st, earlier, step⟩ := run
    have shorter := call_grows step
    obtain ⟨entries, rep, history⟩ := ih before st earlier (by omega)
    rw [history_snoc, ← history]
    rw [← history] at here
    exact call_represents rep (by omega) here step

/-- Every scan with a continuing callback delivers the records of the history, as `Read` says
    they come back, newest first, and only the newest `nrecs` when that is not 0. -/
def DeliversHistory (Read : WlogRec → WlogRec → Prop) (calls : List Call) (log : List Byte) :
    Prop :=
  ∃ outs, List.Forall₂ Read (historyOf calls) outs ∧
    ∀ (σ : Type) (nrecs : Int) (func : σ → WlogRec → σ × Int) (albuf : Vector Byte wlogRecMaxSize)
      (s : σ), (∀ s r, (func s r).2 ≠ wlogStopScan) →
      wlogScanBackward false nrecs func log albuf s =
        some (deliver func s (if nrecs = 0 then outs.reverse else outs.reverse.take nrecs.toNat))

theorem run_delivers {calls : List Call} (fit : CallsFit calls) {st : LogState}
    (run : runCalls calls = some st) (small : st.log.length < 2 ^ 31) :
    DeliversHistory ReadsBack calls st.log := by
  obtain ⟨entries, rep, history⟩ := run_represents calls fit st run small
  obtain ⟨frames, bytes, valid, back⟩ := entries_frames entries
  rw [history] at back
  rw [rep.log, ← bytes] at small
  refine ⟨frames.map Frame.record, back, ?_⟩
  intro σ nrecs func albuf s continues
  rw [rep.log, ← bytes, scan_frames continues frames valid small albuf s]
  simp only [wanted, Int.sub_zero]

theorem history_delivered (calls : List Call) (fit : CallsFit calls) :
    ∃ st, runCalls calls = some st ∧ (st.log.length < 2 ^ 31 → DeliversHistory ReadsBack calls st.log) := by
  obtain ⟨st, run, _⟩ := run_defined calls fit
  exact ⟨st, run, run_delivers fit run⟩

theorem same_entries_length {entries : List Entry} {k : Nat}
    (size : ∀ e ∈ entries, e.bytes.length = k) :
    (entries.flatMap Entry.bytes).length = k * entries.length := by
  rw [List.length_flatMap, List.map_congr_left size, List.map_const', List.sum_replicate_nat]
  exact Nat.mul_comm _ _

/-- `n` appends of one record of empty strings, 30 bytes each. -/
def appends (n : Nat) (wrec : WlogRec) : List Call := List.replicate n (.append (-1) wrec blankBuf)

section appends
variable {wrec : WlogRec} (fit : LengthsFit wrec)
include fit

theorem appends_fit (n : Nat) : CallsFit (appends n wrec) := by
  intro before c after split
  have mem : c ∈ appends n wrec := by simp [split]
  rw [List.eq_of_mem_replicate mem]
  exact ⟨by decide, fit⟩

theorem appends_entries (n : Nat) :
    ∃ st, ∃ entries : List Entry, runCalls (appends n wrec) = some st ∧ st.log = entries.flatMap Entry.bytes ∧
      entries.map Entry.wrec = List.replicate n wrec := by
  induction n with
  | zero => exact ⟨⟨[], []⟩, [], rfl, rfl, rfl⟩
  | succ n ih =>
    obtain ⟨st, entries, run, log, same⟩ := ih
    obtain ⟨e, new, wrote⟩ := write_append fit (by decide : (-1 : Int) < 0) st.log blankBuf
    refine ⟨⟨st.log ++ e.bytes, st.returned ++ [toCInt st.log.length]⟩, entries ++ [e], ?_, ?_, ?_⟩
    · rw [appends, List.replicate_succ', run_snoc, ← appends, run]
      simp [call, wrote]
    · simp [log]
    · rw [List.map_append, same, List.map_singleton, new, List.replicate_succ']

theorem appends_run (path : wrec.wPathlen = 0) (host : wrec.wHostlen = 0)
    (pattern : wrec.wPatternlen = 0) (n : Nat) :
    ∃ st, runCalls (appends n wrec) = some st ∧ st.log.length = 30 * n := by
  obtain ⟨st, entries, run, log, same⟩ := appends_entries fit n
  refine ⟨st, run, ?_⟩
  have size : ∀ e ∈ entries, e.bytes.length = 30 := by
    intro e mem
    have wrote : e.wrec = wrec :=
      List.eq_of_mem_replicate (same ▸ List.mem_map_of_mem mem)
    rw [entry_length, wrote, path, host, pattern]
    rfl
  have count := congrArg List.length same
  rw [List.length_map, List.length_replicate] at count
  rw [log, same_entries_length size, count]

end appends

theorem appends_history (n : Nat) (wrec : WlogRec) :
    historyOf (appends n wrec) = List.replicate n wrec := by
  induction n with
  | zero => rfl
  | succ n ih =>
    rw [appends, List.replicate_succ', history_snoc, ← appends, ih, remember, List.replicate_succ']

theorem blank_rec_fits : LengthsFit blankRec := ⟨by decide, by decide, by decide⟩

theorem two_appends_delivered : ∃ st, runCalls (appends 2 blankRec) = some st ∧
    DeliversHistory ReadsBack (appends 2 blankRec) st.log := by
  obtain ⟨st, run, delivered⟩ := history_delivered (appends 2 blankRec) (appends_fit blank_rec_fits 2)
  obtain ⟨st', run', length⟩ := appends_run blank_rec_fits rfl rfl rfl 2
  obtain rfl : st = st' := Option.some.inj (run.symm.trans run')
  exact ⟨st, run, delivered (by rw [length]; decide)⟩

def collect (seen : List WlogRec) (wrec : WlogRec) : List WlogRec × Int := (seen ++ [wrec], 1)

theorem collect_continues (seen : List WlogRec) (wrec : WlogRec) :
    (collect seen wrec).2 ≠ wlogStopScan := by
  simp [collect, wlogStopScan]

theorem collect_delivers (seen outs : List WlogRec) : deliver collect seen outs = seen ++ outs := by
  induction outs generalizing seen with
  | nil => simp [deliver]
  | cons r outs ih =>
    have rest := ih (seen ++ [r])
    simpa [deliver, collect] using rest

def blankAlbuf : Vector Byte wlogRecMaxSize := Vector.replicate _ 0

theorem delivers_collected {Read : WlogRec → WlogRec → Prop} {calls : List Call} {log : List Byte}
    (delivers : DeliversHistory Read calls log) :
    ∃ outs, List.Forall₂ Read (historyOf calls) outs ∧
      wlogScanBackward false 0 collect log blankAlbuf [] = some outs.reverse := by
  obtain ⟨outs, read, scans⟩ := delivers
  refine ⟨outs, read, ?_⟩
  rw [scans _ 0 collect blankAlbuf [] collect_continues, if_pos rfl, collect_delivers]
  rfl

theorem long_log_silent {σ : Type} {nrecs : Int} {func : σ → WlogRec → σ × Int} {log : List Byte}
    (long : 2 ^ 31 ≤ log.length) (short : log.length < 2 ^ 32)
    (albuf : Vector Byte wlogRecMaxSize) (s : σ) :
    wlogScanBackward false nrecs func log albuf s = some s := by
  have wraps : ¬ 0 < toCInt log.length := by
    have folded : ((log.length : Int) % (2 ^ 32 : Nat)) = log.length := by omega
    simp only [toCInt, Int.bmod, folded]
    split <;> omega
  rw [wlogScanBackward, scanLoop, if_neg (fun h => wraps h.2)]

/-- The first pid that needs more than the 17 bits of `w_pid`. -/
def widePidRec : WlogRec := { blankRec with wPid := 131072 }

theorem wide_pid_not_kept {st : LogState} (run : runCalls (appends 1 widePidRec) = some st)
    (small : st.log.length < 2 ^ 31) :
    ¬ DeliversHistory SameRecord (appends 1 widePidRec) st.log := by
  intro kept
  have fit : LengthsFit widePidRec := ⟨by decide, by decide, by decide⟩
  obtain ⟨outs, same, scan⟩ := delivers_collected kept
  obtain ⟨outs', back, scan'⟩ := delivers_collected (run_delivers (appends_fit fit 1) run small)
  obtain rfl : outs = outs' := List.reverse_injective (Option.some.inj (scan.symm.trans scan'))
  rw [appends_history, List.replicate_one] at same back
  cases same with
  | cons same _ =>
    cases back with
    | cons back _ => exact absurd (same.pid.symm.trans back.pid) (by decide)

theorem long_log_not_delivered {n : Nat} {st : LogState} (length : st.log.length = 30 * n)
    (long : 2 ^ 31 ≤ 30 * n) (short : 30 * n < 2 ^ 32) :
    ¬ DeliversHistory ReadsBack (appends n blankRec) st.log := by
  intro delivers
  obtain ⟨outs, back, scan⟩ := delivers_collected delivers
  rw [long_log_silent (by omega) (by omega)] at scan
  have none : outs = [] := List.reverse_eq_nil_iff.mp (Option.some.inj scan).symm
  have count := back.length_eq
  rw [appends_history, List.length_replicate, none, List.length_nil] at count
  omega

/-- Neither the width of `w_pid` nor the 2 GiB bound can be dropped: one append of pid 131072,
    and 71582789 appends of a record with empty strings. -/
theorem history_needs_widths_and_bound :
    (¬ ∀ calls, CallsFit calls → ∃ st, runCalls calls = some st ∧
      (st.log.length < 2 ^ 31 → DeliversHistory SameRecord calls st.log)) ∧
    ¬ ∀ calls, CallsFit calls → ∃ st, runCalls calls = some st ∧ DeliversHistory ReadsBack calls st.log := by
  constructor
  · intro claim
    have fit : LengthsFit widePidRec := ⟨by decide, by decide, by decide⟩
    obtain ⟨st, run, kept⟩ := claim (appends 1 widePidRec) (appends_fit fit 1)
    obtain ⟨st', run', length⟩ := appends_run fit rfl rfl rfl 1
    obtain rfl : st = st' := Option.some.inj (run.symm.trans run')
    have small : st.log.length < 2 ^ 31 := by rw [length]; decide
    exact wide_pid_not_kept run small (kept small)
  · intro claim
    obtain ⟨st, run, delivers⟩ := claim (appends 71582789 blankRec) (appends_fit blank_rec_fits _)
    obtain ⟨st', run', length⟩ := appends_run blank_rec_fits rfl rfl rfl 71582789
    obtain rfl : st = st' := Option.some.inj (run.symm.trans run')
    exact long_log_not_delivered length (by decide) (by decide) delivers

end VteWriteLog
