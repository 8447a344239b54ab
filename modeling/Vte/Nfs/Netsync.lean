import Mathlib.Data.BitVec
import Vte.Base.CInt
import Vte.Base.StringCopy

/-!
network/nfsv4/locks/netsync.c: the frames of the lock test, put together from partial reads, and the configuration
that is sent to the clients as the text of one.
-/
namespace Netsync
open Text CString Memory StringCopy CInt

def M_SIZE : Nat := 512

/-- What arrives on a connection: bytes, or an error of `read`. Behind the last arrival is the end of file. -/
inductive Arrival
  | data (bytes : Str) (some_bytes : bytes ≠ [])
  | failed

abbrev Connection := List Arrival

/-- The value that `read` of at most `n` bytes returns, the bytes, and what is left. -/
def read (n : Nat) : Connection → Int × Str × Connection
  | [] => (0, [], [])
  | .failed :: later => (-1, [], later)
  | .data bytes _ :: later =>
    if more : n < bytes.length then
      (n, bytes.take n, .data (bytes.drop n) (by simpa using more) :: later)
    else (bytes.length, bytes, later)

structure Receiving where
  s : Nat
  message : Str
  tmp : Str
  conn : Connection

inductive Status
  | running (st : Receiving)
  | returned (s : Nat) (message : Str) (conn : Connection)
  /-- a store outside `message` -/
  | outside

/-- One round of the loop; the number of bytes to copy is a `size_t`. -/
def round (st : Receiving) : Status :=
  let (r, bytes, conn) := read (M_SIZE - st.s) st.conn
  let tmp := bytes ++ st.tmp.drop bytes.length
  match strncpy st.message st.s tmp (u64 r) with
  | none => .outside
  | some message =>
    let s := (st.s + r).toNat
    if s < M_SIZE then .running ⟨s, message, tmp, conn⟩ else .returned s message conn

def receive (conn : Connection) : Nat → Status
  | 0 => .running ⟨0, List.replicate M_SIZE nul, List.replicate M_SIZE nul, conn⟩
  | k + 1 =>
    match receive conn k with
    | .running st => round st
    | status => status

def readFromServer (fdServeur : Connection) : Nat → Status := receive fdServeur

def serverReceiveClient (fdClient : Nat → Connection) (c : Nat) : Nat → Status := receive (fdClient c)

def parameters (type : BitVec 32) (fname : Str) (nThread : BitVec 32) : Str :=
  decimal type.toInt ++ ':' :: (fname ++ ':' :: (decimal nThread.toInt ++ [':', ':']))

/-- The frame that `setupClients` writes to each client; `message` is not initialised. -/
def setupClients (message : Str) (type : BitVec 32) (fname : Str) (nThread : BitVec 32) : Option Str :=
  store message 0 (parameters type fname nThread ++ [nul])

/-- What `getConfiguration` takes out of the message; none where it follows a null pointer. -/
def parse (conf fname : Str) : Option (Int × Str × Int) := do
  let (p, conf, saved) ← strtok (· == ':') conf 0
  let type ← cstr conf (← p)
  let (p, conf, saved) ← strtok (· == ':') conf saved
  let name ← cstr conf (← p)
  let fname ← strncpy fname 0 name name.length
  let (p, conf, _) ← strtok (· == ':') conf saved
  let nThread ← cstr conf (← p)
  some (atoi type, fname, atoi nThread)

/-- The result when `readFromServer` has returned after `k` reads. -/
def getConfiguration (fdServeur : Connection) (k : Nat) (fname : Str) : Option (Int × Str × Int) :=
  match readFromServer fdServeur k with
  | .returned _ conf _ => parse conf fname
  | _ => none

def available : Connection → Str
  | [] => []
  | .failed :: _ => []
  | .data bytes _ :: later => bytes ++ available later

structure Right (received : Nat → Status) (conn : Connection) : Prop where
  terminates : ∃ k s message later, received k = .returned s message later
  inside : ∀ k, received k ≠ .outside
  exactly : ∀ k message later, received k = .returned M_SIZE message later →
    ∃ frame, frame.length = M_SIZE ∧ available conn = frame ++ available later ∧
      message.length = M_SIZE ∧ text message = text frame

def Recovers (fdServeur : Connection) (type : BitVec 32) (fname : Str) (nThread : BitVec 32) : Prop :=
  ∃ k name, getConfiguration fdServeur k (List.replicate M_SIZE nul) = some (type.toInt, name, nThread.toInt) ∧
    cstr name 0 = some fname

section receiving
variable {conn : Connection} {st : Receiving} {k : Nat}

/-- `s` bytes have been received and copied. -/
structure Received (conn : Connection) (s : Nat) (message : Str) (later : Connection) (front : Str) : Prop where
  count : front.length = s
  stream : available conn = front ++ available later
  length : message.length = M_SIZE
  alike : Alike (message.take s) front

theorem read_data {n : Nat} (some_room : 0 < n) {bytes : Str} (some_bytes : bytes ≠ []) (later : Connection) :
    ∃ piece rest, read n (.data bytes some_bytes :: later) = (piece.length, piece, rest) ∧ 0 < piece.length ∧
      piece.length ≤ n ∧ bytes ++ available later = piece ++ available rest := by
  have length := List.length_pos_iff.mpr some_bytes
  rw [read]
  split
  · rename_i more
    have size : (bytes.take n).length = n := List.length_take_of_le (Nat.le_of_lt more)
    refine ⟨bytes.take n, _, by rw [size], by omega, Nat.le_of_eq size, ?_⟩
    rw [available, ← List.append_assoc, List.take_append_drop]
  · exact ⟨bytes, later, rfl, length, by omega, rfl⟩

theorem round_end (low : st.s < M_SIZE) (length : st.message.length = M_SIZE) (ended : st.conn = []) :
    round st = .running st := by
  obtain ⟨s, message, tmp, conn⟩ := st
  dsimp only at low length ended
  subst ended
  have nothing : strncpy message s tmp 0 = some message := by
    have empty : copied tmp 0 = [] := List.eq_nil_of_length_eq_zero (copied_length tmp 0)
    rw [strncpy, empty, store, if_pos (by rw [List.length_nil]; omega), List.append_nil, List.length_nil,
      Nat.add_zero, List.take_append_drop]
  have zero : u64 0 = 0 := rfl
  simp only [round, read, List.length_nil, List.drop_zero, List.nil_append, zero, nothing]
  simp [low]

theorem round_failed (length : st.message.length = M_SIZE) {later : Connection} (failed : st.conn = .failed :: later) :
    round st = .outside := by
  have wide : u64 (-1) = 18446744073709551615 := by
    rw [u64]
    rfl
  have none_copied (tmp : Str) : strncpy st.message st.s tmp (u64 (-1)) = none := by
    refine store_outside ?_
    rw [copied_length, wide, length, M_SIZE]
    omega
  simp only [round, failed, read, none_copied]

theorem round_data {front : Str} (received : Received conn st.s st.message st.conn front) (low : st.s < M_SIZE)
    {bytes : Str} {some_bytes : bytes ≠ []} {later : Connection} (arrived : st.conn = .data bytes some_bytes :: later) :
    ∃ next front', st.s < next.s ∧ Received conn next.s next.message next.conn front' ∧
      (next.s < M_SIZE ∧ round st = .running next ∨
        next.s = M_SIZE ∧ round st = .returned M_SIZE next.message next.conn) := by
  obtain ⟨piece, rest, answer, some_piece, fits, stream⟩ :=
    read_data (n := M_SIZE - st.s) (by omega) some_bytes later
  have count : u64 (piece.length : Int) = piece.length := by
    have small : (piece.length : Int) < 18446744073709551616 := by
      simp only [M_SIZE] at fits
      omega
    exact Int.ofNat_inj.mp (u64_small (Int.natCast_nonneg _) small)
  have size := copied_length (piece ++ st.tmp.drop piece.length) piece.length
  have room : st.s + (copied (piece ++ st.tmp.drop piece.length) piece.length).length ≤ st.message.length := by
    rw [size, received.length]
    omega
  have front_length : (st.message.take st.s).length = st.s := List.length_take_of_le (by rw [received.length]; omega)
  have copy : strncpy st.message st.s (piece ++ st.tmp.drop piece.length) piece.length =
      some (st.message.take st.s ++ copied (piece ++ st.tmp.drop piece.length) piece.length ++
        st.message.drop (st.s + piece.length)) := by
    rw [strncpy, store, if_pos room, size]
  have sum : ((st.s : Int) + piece.length).toNat = st.s + piece.length := by omega
  refine ⟨⟨st.s + piece.length, st.message.take st.s ++ copied (piece ++ st.tmp.drop piece.length) piece.length ++
    st.message.drop (st.s + piece.length), piece ++ st.tmp.drop piece.length, rest⟩, front ++ piece,
    by dsimp only; omega, ⟨?_, ?_, ?_, ?_⟩, ?_⟩
  · rw [List.length_append, received.count]
  · rw [received.stream, arrived, available, stream, List.append_assoc]
  · dsimp only
    rw [List.length_append, List.length_append, List.length_drop, size, front_length, received.length]
    omega
  · dsimp only
    have length : (st.message.take st.s ++ copied (piece ++ st.tmp.drop piece.length) piece.length).length =
        st.s + piece.length := by
      rw [List.length_append, size, front_length]
    rw [List.take_left' length]
    exact alike_append received.alike (copied_alike piece _)
  · simp only [round, arrived, answer, count, copy, sum]
    split
    · rename_i more
      exact .inl ⟨more, rfl⟩
    · have full : st.s + piece.length = M_SIZE := by omega
      exact .inr ⟨full, by rw [full]⟩

/-- Where the loop is after `k` rounds. -/
def Invariant (conn : Connection) : Status → Prop
  | .running st => st.s < M_SIZE ∧ ∃ front, Received conn st.s st.message st.conn front
  | .returned s message later => s = M_SIZE ∧ ∃ front, Received conn s message later front
  | .outside => (available conn).length < M_SIZE

theorem invariant_receive (conn : Connection) (k : Nat) : Invariant conn (receive conn k) := by
  induction k with
  | zero => exact ⟨(by decide : 0 < M_SIZE), [], rfl, rfl, List.length_replicate, fun _ => rfl⟩
  | succ k ih =>
    rw [receive]
    cases here : receive conn k with
    | returned s message later =>
      rw [here] at ih
      exact ih
    | outside =>
      rw [here] at ih
      exact ih
    | running st =>
      rw [here] at ih
      obtain ⟨low, front, received⟩ := ih
      dsimp only
      cases arrived : st.conn with
      | nil =>
        rw [round_end low received.length arrived]
        exact ⟨low, front, received⟩
      | cons arrival later =>
        cases arrival with
        | failed =>
          rw [round_failed received.length arrived]
          have whole := received.stream
          rw [arrived, available, List.append_nil] at whole
          rw [Invariant, whole, received.count]
          exact low
        | data bytes some_bytes =>
          obtain ⟨next, front', _, received', ⟨more, goes_on⟩ | ⟨full, returns⟩⟩ := round_data received low arrived
          · rw [goes_on]
            exact ⟨more, front', received'⟩
          · rw [returns]
            exact ⟨rfl, front', full ▸ received'⟩

theorem receive_ends (enough : M_SIZE ≤ (available conn).length) (k : Nat) :
    (∃ st, receive conn k = .running st ∧ k ≤ st.s) ∨ ∃ s message later, receive conn k = .returned s message later := by
  induction k with
  | zero => exact .inl ⟨_, rfl, Nat.zero_le _⟩
  | succ k ih =>
    rcases ih with ⟨st, running, rounds⟩ | ⟨s, message, later, returned⟩
    · have inv := invariant_receive conn k
      rw [running] at inv
      obtain ⟨low, front, received⟩ := inv
      have stream := congrArg List.length received.stream
      rw [List.length_append, received.count] at stream
      rw [receive, running]
      dsimp only
      cases arrived : st.conn with
      | nil =>
        rw [arrived, available, List.length_nil] at stream
        omega
      | cons arrival later =>
        cases arrival with
        | failed =>
          rw [arrived, available, List.length_nil] at stream
          omega
        | data bytes some_bytes =>
          obtain ⟨next, _, more, _, ⟨_, goes_on⟩ | ⟨_, returns⟩⟩ := round_data received low arrived
          · exact .inl ⟨next, goes_on, Nat.lt_of_le_of_lt rounds more⟩
          · exact .inr ⟨_, _, _, returns⟩
    · exact .inr ⟨s, message, later, by rw [receive, returned]⟩

theorem receive_returns (enough : M_SIZE ≤ (available conn).length) :
    ∃ k s message later, receive conn k = .returned s message later := by
  obtain ⟨k, all⟩ : ∃ k, k = M_SIZE := ⟨_, rfl⟩
  rcases receive_ends enough k with ⟨st, running, rounds⟩ | returned
  · have inv := invariant_receive conn k
    rw [running] at inv
    exact absurd inv.1 (Nat.not_lt.mpr (all ▸ rounds))
  · exact ⟨k, returned⟩

theorem received_frame {s : Nat} {message : Str} {later : Connection}
    (returned : receive conn k = .returned s message later) :
    ∃ frame, frame.length = M_SIZE ∧ available conn = frame ++ available later ∧
      message.length = M_SIZE ∧ text message = text frame := by
  have inv := invariant_receive conn k
  rw [returned] at inv
  obtain ⟨rfl, frame, received⟩ := inv
  refine ⟨frame, received.count, received.stream, received.length, ?_⟩
  have whole : message.take M_SIZE = message := List.take_of_length_le (Nat.le_of_eq received.length)
  have alike := alike_text received.alike
  rwa [whole] at alike

theorem receive_right (conn : Connection) : Right (receive conn) conn ↔ M_SIZE ≤ (available conn).length := by
  constructor
  · rintro ⟨⟨k, s, message, later, returned⟩, _, _⟩
    obtain ⟨frame, count, stream, _, _⟩ := received_frame returned
    rw [stream, List.length_append]
    omega
  · intro enough
    refine ⟨receive_returns enough, fun k stored => ?_, fun k message later returned => received_frame returned⟩
    have inv := invariant_receive conn k
    rw [stored] at inv
    exact absurd enough (Nat.not_le.mpr inv)

end receiving

section configuration
variable {conn : Connection} {type nThread : BitVec 32} {fname conf s : Str}

theorem decimal_length (i : BitVec 32) : (decimal i.toInt).length ≤ 11 := by
  have high := BitVec.toInt_lt (x := i)
  have low := BitVec.le_toInt i
  have digits : (Nat.toDigits 10 i.toInt.natAbs).length ≤ 10 := to_digits_length (by decide) (by omega)
  rw [decimal]
  split
  · rw [List.length_cons]
    omega
  · omega

theorem decimal_plain {c : Char} (other : c.isDigit = false) (no_sign : c ≠ '-') (i : Int) : c ∉ decimal i := by
  have digits : c ∉ Nat.toDigits 10 i.natAbs := by
    intro member
    rw [to_digits_digit member] at other
    cases other
  unfold decimal
  split <;> simp [digits, no_sign]

theorem decimal_some (i : Int) : decimal i ≠ [] := by
  obtain ⟨c, cs, digits, _⟩ := to_digits_head i.natAbs
  unfold decimal
  split <;> simp [digits]

theorem parameters_plain (plain : nul ∉ fname) : nul ∉ parameters type fname nThread := by
  have numbers (i : Int) : nul ∉ decimal i := decimal_plain (by decide) (by decide) i
  have colon : nul ≠ ':' := by decide
  simp [parameters, numbers, plain, colon]

theorem parameters_length (type nThread : BitVec 32) (short : fname.length < 480) :
    (parameters type fname nThread).length < M_SIZE := by
  have first := decimal_length type
  have last := decimal_length nThread
  simp only [parameters, List.length_append, List.length_cons, List.length_nil, M_SIZE]
  omega

theorem parameters_tokens (type nThread : BitVec 32) (fname : Str) :
    tokens (· == ':') (parameters type fname nThread) =
      decimal type.toInt :: (tokens (· == ':') fname ++ [decimal nThread.toInt]) := by
  have number (i : Int) : ∀ c ∈ decimal i, (c == ':') = false :=
    without_separator (decimal_plain (by decide) (by decide) i)
  have last : tokens (· == ':') (decimal nThread.toInt ++ [':', ':']) = [decimal nThread.toInt] := by
    rw [tokens_append (by simp), tokens_alone (decimal_some _) (number _)]
    rfl
  rw [parameters, tokens_append (by simp), tokens_append (by simp), tokens_alone (decimal_some _) (number _), last]
  rfl

theorem token_length {sep : Char → Bool} {token : Str} {others : List Str}
    (found : tokens sep s = token :: others) : token.length ≤ s.length := by
  obtain ⟨blanks, rest, first⟩ := tokens_first found
  rw [first_parts first, List.length_append, List.length_append]
  omega

theorem parse_three (here : At conf 0 s) (small : s.length < M_SIZE) {a b c : Str} {more : List Str}
    (found : tokens (· == ':') s = a :: b :: c :: more) :
    ∃ later, parse conf (List.replicate M_SIZE nul) = some (atoi a, later, atoi c) ∧ cstr later 0 = some b := by
  obtain ⟨p, conf1, saved1, rest1, first⟩ := strtok_some here found
  obtain ⟨q, conf2, saved2, rest2, second⟩ := strtok_some first.at_rest first.left
  obtain ⟨r, conf3, saved3, rest3, third⟩ := strtok_some second.at_rest second.left
  have fits := token_length first.left
  have shorter := first.shorter
  obtain ⟨later, copied, name⟩ := strncpy_cleared (n := M_SIZE) second.at_token.1 (by omega)
  refine ⟨later, ?_, name⟩
  simp only [parse, first.returned, at_cstr first.at_token, second.returned, at_cstr second.at_token, copied,
    third.returned, at_cstr third.at_token, Option.bind_eq_bind, Option.bind_some]

theorem parse_two (here : At conf 0 s) {a b : Str} (found : tokens (· == ':') s = [a, b]) (name : Str) :
    parse conf name = none := by
  obtain ⟨p, conf1, saved1, rest1, first⟩ := strtok_some here found
  obtain ⟨q, conf2, saved2, rest2, second⟩ := strtok_some first.at_rest first.left
  obtain ⟨saved3, third⟩ := strtok_none second.at_rest second.left
  simp only [parse, first.returned, at_cstr first.at_token, second.returned, at_cstr second.at_token,
    third, Option.bind_eq_bind, Option.bind_some, Option.bind_none]
  cases strncpy name 0 b b.length <;> rfl

theorem setup_frame {message : Str} (length : message.length = M_SIZE) (type nThread : BitVec 32)
    (short : fname.length < 480) :
    ∃ behind, setupClients message type fname nThread = some (parameters type fname nThread ++ nul :: behind) ∧
      (parameters type fname nThread ++ nul :: behind).length = M_SIZE := by
  have small := parameters_length type nThread short
  have room : 0 + (parameters type fname nThread ++ [nul]).length ≤ message.length := by
    rw [length, List.length_append, List.length_singleton]
    omega
  refine ⟨message.drop (0 + (parameters type fname nThread ++ [nul]).length), ?_, ?_⟩
  · rw [setupClients, store, if_pos room, List.take_zero, List.nil_append, List.append_assoc]
    rfl
  · simp only [List.length_append, List.length_cons, List.length_nil, List.length_drop, length]
    omega

theorem configuration_at (plain : nul ∉ fname) (short : fname.length < 480) {behind : Str}
    (length : (parameters type fname nThread ++ nul :: behind).length = M_SIZE)
    (arrived : parameters type fname nThread ++ nul :: behind <+: available conn) {k n : Nat} {later : Connection}
    (returned : receive conn k = .returned n conf later) : At conf 0 (parameters type fname nThread) := by
  obtain ⟨frame, count, stream, whole, same⟩ := received_frame returned
  obtain ⟨rest, parts⟩ := arrived
  obtain ⟨rfl, _⟩ := List.append_inj (stream.symm.trans parts.symm) (count.trans length.symm)
  rw [text_plain (parameters_plain plain), text_nul, List.append_nil] at same
  have small := parameters_length type nThread short
  rw [← same]
  exact text_at (by rw [same, whole]; exact small)

theorem recovers_iff (plain : nul ∉ fname) (short : fname.length < 480) {behind : Str}
    (length : (parameters type fname nThread ++ nul :: behind).length = M_SIZE)
    (arrived : parameters type fname nThread ++ nul :: behind <+: available conn) :
    Recovers conn type fname nThread ↔ fname ≠ [] ∧ ':' ∉ fname := by
  have small := parameters_length type nThread short
  have found := parameters_tokens type nThread fname
  constructor
  · rintro ⟨k, name, recovered, same⟩
    rw [getConfiguration, readFromServer] at recovered
    cases returned : receive conn k with
    | running st => simp [returned] at recovered
    | outside => simp [returned] at recovered
    | returned n conf later =>
      have here := configuration_at plain short length arrived returned
      rw [returned] at recovered
      dsimp only at recovered
      cases words : tokens (· == ':') fname with
      | nil =>
        rw [words, List.nil_append] at found
        rw [parse_two here found] at recovered
        cases recovered
      | cons b more =>
        obtain ⟨c, others, rest⟩ := List.exists_cons_of_ne_nil
          (List.append_ne_nil_of_right_ne_nil more (List.cons_ne_nil (decimal nThread.toInt) []))
        rw [words, List.cons_append, rest] at found
        obtain ⟨copy, parsed, token⟩ := parse_three here small found
        rw [parsed, Option.some.injEq, Prod.mk.injEq, Prod.mk.injEq] at recovered
        rw [← recovered.2.1, token] at same
        obtain rfl := Option.some.inj same
        have member : b ∈ tokens (· == ':') b := by simp [words]
        refine ⟨token_some member, fun colon => ?_⟩
        have other := token_plain member ':' colon
        simp at other
  · rintro ⟨some_name, no_colon⟩
    have enough : M_SIZE ≤ (available conn).length := by
      rw [← length]
      exact arrived.length_le
    obtain ⟨k, n, conf, later, returned⟩ := receive_returns enough
    have here := configuration_at plain short length arrived returned
    rw [tokens_alone some_name (without_separator no_colon)] at found
    obtain ⟨copy, parsed, token⟩ := parse_three here small found
    have number (i : Int) : atoi (decimal i) = i := by
      have whole : atoi (decimal i ++ []) = i := atoi_decimal i (by simp [DigitFree])
      rwa [List.append_nil] at whole
    rw [number, number] at parsed
    refine ⟨k, copy, ?_, token⟩
    rw [getConfiguration, readFromServer, returned]
    exact parsed

/-- A frame is received as it should be just when all of it arrives, and the configuration is recovered just when the
name is not empty and has no colon in it. -/
theorem netsync_sound (fdServeur : Connection) (fdClient : Nat → Connection) (c : Nat) {message : Str}
    (length : message.length = M_SIZE) (type nThread : BitVec 32) (plain : nul ∉ fname)
    (short : fname.length < 480) :
    (Right (readFromServer fdServeur) fdServeur ↔ M_SIZE ≤ (available fdServeur).length) ∧
      (Right (serverReceiveClient fdClient c) (fdClient c) ↔ M_SIZE ≤ (available (fdClient c)).length) ∧
      ∃ frame, setupClients message type fname nThread = some frame ∧ frame.length = M_SIZE ∧
        (frame <+: available fdServeur → (Recovers fdServeur type fname nThread ↔ fname ≠ [] ∧ ':' ∉ fname)) := by
  obtain ⟨behind, sent, whole⟩ := setup_frame length type nThread short
  exact ⟨receive_right fdServeur, receive_right (fdClient c), _, sent, whole,
    fun arrived => recovers_iff plain short whole arrived⟩

theorem netsync_sound_name : ∃ frame some_bytes,
    Right (readFromServer [.data frame some_bytes]) [.data frame some_bytes] ∧
      Recovers [.data frame some_bytes] 0 "/mnt/file".toList 50 := by
  obtain ⟨behind, sent, whole⟩ := setup_frame
    (List.length_replicate : (List.replicate M_SIZE nul).length = M_SIZE) 0 50 (by decide : "/mnt/file".toList.length < 480)
  have some_bytes : parameters 0 "/mnt/file".toList 50 ++ nul :: behind ≠ [] := by simp
  have stream : available [.data (parameters 0 "/mnt/file".toList 50 ++ nul :: behind) some_bytes] =
      parameters 0 "/mnt/file".toList 50 ++ nul :: behind := List.append_nil _
  obtain ⟨received, _, frame, same, _, recovers⟩ := netsync_sound
    [.data (parameters 0 "/mnt/file".toList 50 ++ nul :: behind) some_bytes] (fun _ => []) 0
    (List.length_replicate : (List.replicate M_SIZE nul).length = M_SIZE) 0 50
    (by decide : nul ∉ "/mnt/file".toList) (by decide)
  obtain rfl := Option.some.inj (sent.symm.trans same)
  refine ⟨_, some_bytes, received.mpr ?_, (recovers ?_).mpr ⟨by decide, by decide⟩⟩
  · rw [stream, whole]
  · rw [stream]

/-- A connection that is closed is read from for ever, and a colon in the name ends it. -/
theorem netsync_unsound : ¬ Right (readFromServer []) [] ∧ ∃ frame some_bytes,
    setupClients (List.replicate M_SIZE nul) 0 "a:b".toList 50 = some frame ∧
      ¬ Recovers [.data frame some_bytes] 0 "a:b".toList 50 := by
  constructor
  · rw [readFromServer, receive_right]
    decide
  · obtain ⟨behind, sent, whole⟩ := setup_frame
      (List.length_replicate : (List.replicate M_SIZE nul).length = M_SIZE) 0 50 (by decide : "a:b".toList.length < 480)
    refine ⟨_, by simp, sent, ?_⟩
    rw [recovers_iff (by decide) (by decide) whole (List.prefix_append _ _)]
    decide

end configuration

end Netsync
