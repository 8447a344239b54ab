import Mathlib.Data.List.Basic
import Mathlib.Tactic.Ring
import Vte.Base.Machine
import Vte.Uart.Transfer

/-!
Runs of a transfer. A block routine returns how far it came or 0xCC for a finished block, so that a
call that was busy after 204 bytes is taken for a finished one; without such a call every byte is
sent and received once.
-/
namespace VteUart
open Bytes Machine

def stream (path file : List Byte) : List Byte := (transHeader path file).bytes ++ file

def Clean : Act → State → Prop
  | .write .busy, s => ∀ data c todo, s.writer = .sending data c todo → (c.bytes : Int) ≠ rwSuccess
  | .read .busy, s => ∀ c, s.reader.call = some c → (c.bytes : Int) ≠ rwSuccess
  | _, _ => True

structure Delivered (cfg : Config) (file data : List Byte) (allRec : Nat) (out : List Byte)
    (errors : Option Int) : Prop where
  counted : allRec = file.length
  ram : cfg.receiveToRam = true → data.take allRec = file ∧ errors = some 0
  saved : cfg.receiveToRam = true → cfg.saveToFile = true → out = file
  filed : cfg.receiveToRam = false → out = file

/-- The bytes go over the line in order and once each, the reader stays in its buffer, and a thread
    that has finished has moved them all. -/
structure Good (cfg : Config) (path file : List Byte) (s : State) : Prop where
  sent : s.sent <+: stream path file
  lossless : s.sent = s.got ++ s.line
  safe : s.reader ≠ .failed ∧ s.reader ≠ .overrun
  writer_done : s.writer = .done → s.sent = stream path file
  reader_done : ∀ data allRec out errors, s.reader = .done data allRec out errors →
    s.got = stream path file ∧ Delivered cfg file data allRec out errors

def Reader.Finished : Reader → Prop
  | .done .. => True
  | _ => False

def isMove : Act → Bool
  | .write (.moved _) | .read (.moved _) => true
  | _ => false

section sizes
variable {block size : Nat}

theorem block_sizes_eq : blockSizes block size = List.replicate (size / block) block ++
    if size % block ≠ 0 then [size % block] else [] := by
  unfold blockSizes
  by_cases last : size % block = 0
  · simp [last]
  · have all : (List.range (size / block + 1)).map (fun i =>
        if i + 1 = size / block + 1 ∧ size % block ≠ 0 then size % block else block) =
        List.replicate (size / block) block ++ [size % block] := by
      rw [List.range_succ, List.map_append]
      have before : (List.range (size / block)).map (fun i =>
          if i + 1 = size / block + 1 ∧ size % block ≠ 0 then size % block else block) =
          List.replicate (size / block) block := by
        rw [List.eq_replicate_iff]
        constructor
        · simp
        · intro n mem
          obtain ⟨i, inside, rfl⟩ := List.mem_map.mp mem
          rw [List.mem_range] at inside
          rw [if_neg]
          omega
      rw [before]
      simp [last]
    simpa [last] using all

theorem block_sizes_sum : (blockSizes block size).sum = size := by
  rw [block_sizes_eq, List.sum_append, List.sum_replicate_nat]
  have division := Nat.div_add_mod size block
  rw [Nat.mul_comm] at division
  split
  · simpa using division
  · rename_i whole
    simp only [List.sum_nil]
    omega

theorem block_sizes_bound (some_block : 0 < block) :
    ∀ n ∈ blockSizes block size, 0 < n ∧ n ≤ block := by
  intro n mem
  rw [block_sizes_eq] at mem
  rcases List.mem_append.mp mem with mem | mem
  · obtain rfl := List.eq_of_mem_replicate mem
    exact ⟨some_block, Nat.le_refl _⟩
  · split at mem
    · rename_i last
      obtain rfl := List.mem_singleton.mp mem
      have small := Nat.mod_lt size some_block
      omega
    · cases mem

theorem pieces_flatten (ns : List Nat) : ∀ bs : List Byte, (pieces ns bs).flatten = bs.take ns.sum := by
  induction ns with
  | nil => simp [pieces]
  | cons n ns ih =>
    intro bs
    rw [pieces, List.flatten_cons, ih, List.sum_cons, List.take_add]

theorem pieces_some (ns : List Nat) : ∀ bs : List Byte, (∀ n ∈ ns, 0 < n) → ns.sum ≤ bs.length →
    ∀ b ∈ pieces ns bs, b ≠ [] := by
  induction ns with
  | nil => nofun
  | cons n ns ih =>
    intro bs pos enough b mem
    rw [List.sum_cons] at enough
    have here := pos n (by simp)
    rcases List.mem_cons.mp mem with rfl | mem
    · apply List.ne_nil_of_length_pos
      rw [List.length_take]
      omega
    · apply ih (bs.drop n) (fun m inside => pos m (by simp [inside])) _ b mem
      rw [List.length_drop]
      omega

end sizes

section header
variable {path file : List Byte}

theorem field_length {n : Nat} {s : List Byte} (fits : s.length ≤ n) : (field n s).length = n := by
  rw [field, List.length_append, List.length_replicate]
  omega

theorem cstr_field {n : Nat} {s : List Byte} (plain : (0 : Byte) ∉ s) : cstr (field n s) = s := by
  have all : ∀ b ∈ s, decide (b ≠ (0 : Byte)) = true := by
    intro b mem
    rw [decide_eq_true_eq]
    rintro rfl
    exact plain mem
  rw [cstr, field, List.takeWhile_append_of_pos all]
  have none : (List.replicate (n - s.length) (0 : Byte)).takeWhile (· ≠ 0) = [] := by
    cases n - s.length with
    | zero => rfl
    | succ k => simp [List.replicate_succ]
  rw [none, List.append_nil]

theorem off_t_at {n : Nat} (small : n < 256 ^ 8) : offTAt (offT n) = n := by
  simp only [offTAt, offT, List.range_succ, List.range_zero, List.nil_append, List.cons_append,
    List.map_cons, List.map_nil, List.foldr_cons, List.foldr_nil, BitVec.toNat_ofNat]
  omega

theorem header_length (fits : path.length ≤ 256) :
    (transHeader path file).bytes.length = headerSize := by
  have first : (field 16 startMessage).length = 16 := by decide
  have last : (field 16 stopMessage).length = 16 := by decide
  simp only [Header.bytes, transHeader, List.length_append, first, last, field_length fits]
  rfl

theorem header_at (fits : path.length ≤ 256) (plain : (0 : Byte) ∉ path)
    (small : file.length < 256 ^ 8) :
    headerAt (transHeader path file).bytes = transHeader path file := by
  have first : (field 16 startMessage).length = 16 := by decide
  have last : (field 16 stopMessage).length = 16 := by decide
  have name := field_length fits
  have off : (offT file.length).length = 8 := by simp [offT]
  have parts : (transHeader path file).bytes = field 16 startMessage ++ (field 256 path ++
      (offT file.length ++ field 16 stopMessage)) := rfl
  have start : (transHeader path file).bytes.take 16 = field 16 startMessage := by
    rw [parts, List.take_left' first]
  have fname : ((transHeader path file).bytes.drop 16).take 256 = field 256 path := by
    rw [parts, List.drop_left' first, List.take_left' name]
  have size : ((transHeader path file).bytes.drop 272).take 8 = offT file.length := by
    have at_272 : (field 16 startMessage ++ field 256 path).length = 272 := by
      rw [List.length_append, first, name]
    rw [parts, ← List.append_assoc, List.drop_left' at_272, List.take_left' off]
  have stop : ((transHeader path file).bytes.drop 280).take 16 = field 16 stopMessage := by
    have at_280 : (field 16 startMessage ++ (field 256 path ++ offT file.length)).length = 280 := by
      simp only [List.length_append, first, name, off]
    have split : (transHeader path file).bytes =
        (field 16 startMessage ++ (field 256 path ++ offT file.length)) ++ field 16 stopMessage := by
      rw [parts]
      simp only [List.append_assoc]
    rw [split, List.drop_left' at_280, List.take_of_length_le (by omega)]
  have start_plain : cstr (field 16 startMessage) = startMessage := by decide
  have stop_plain : cstr (field 16 stopMessage) = stopMessage := by decide
  rw [headerAt, start, fname, size, stop, start_plain, cstr_field plain, off_t_at small, stop_plain]
  rfl

end header

section call
variable {c : Call} {n : Nat}

theorem next_moved (inside : n ≤ c.remaining - c.bytes) (going : c.bytes < c.remaining) :
    c.next (.moved n) =
      if c.bytes + n = c.remaining then none else some { c with bytes := c.bytes + n } := by
  by_cases full : c.bytes + n = c.remaining
  · have nothing : c.remaining - (c.bytes + n) = 0 := by omega
    rw [if_pos full, Call.next, Call.returned]
    simp [nothing]
  · have more : c.remaining - (c.bytes + n) ≠ 0 := by omega
    rw [if_neg full, Call.next, Call.returned]
    simp [more]

/-- A busy port: the caller goes on behind the bytes that were moved, unless their number is the code
    of a finished block. -/
theorem next_busy (clean : (c.bytes : Int) ≠ rwSuccess) :
    c.next .busy = some ⟨c.memPtr + c.bytes, c.remaining - c.bytes, 0⟩ := by
  rw [Call.next, Call.returned]
  simp [clean]

end call

section writer
variable {total sent data : List Byte} {c : Call} {todo : List (List Byte)} {n : Nat}

def WriterAt (total sent : List Byte) : Writer → Prop
  | .done => sent = total
  | .sending data c todo => c.memPtr + c.remaining = data.length ∧ c.bytes < c.remaining ∧
      (∀ b ∈ todo, b ≠ []) ∧ sent ++ (data.drop (c.memPtr + c.bytes) ++ todo.flatten) = total

theorem write_blocks_at {blocks : List (List Byte)} (some_byte : ∀ b ∈ blocks, b ≠ [])
    (whole : sent ++ blocks.flatten = total) : WriterAt total sent (writeBlocks blocks) := by
  cases blocks with
  | nil =>
    rw [List.flatten_nil, List.append_nil] at whole
    exact whole
  | cons data todo =>
    have pos := List.length_pos_iff.mpr (some_byte data (by simp))
    exact ⟨Nat.zero_add _, pos, fun b mem => some_byte b (by simp [mem]), whole⟩

theorem offered_eq (block : c.memPtr + c.remaining = data.length) :
    offered data c = data.drop (c.memPtr + c.bytes) := by
  rw [offered, List.take_of_length_le]
  rw [List.length_drop]
  omega

theorem writer_moved (writer : WriterAt total sent (.sending data c todo))
    (inside : n ≤ c.remaining - c.bytes) :
    WriterAt total (sent ++ (offered data c).take n) ((Writer.sending data c todo).step (.moved n)) := by
  obtain ⟨block, going, some_byte, whole⟩ := writer
  have cut : (offered data c).take n ++ data.drop (c.memPtr + (c.bytes + n)) = data.drop (c.memPtr + c.bytes) := by
    have parts := List.take_append_drop n (data.drop (c.memPtr + c.bytes))
    rw [List.drop_drop, Nat.add_assoc] at parts
    rw [offered_eq block]
    exact parts
  have split : sent ++ (offered data c).take n ++ (data.drop (c.memPtr + (c.bytes + n)) ++ todo.flatten) = total := by
    rw [← whole, ← cut]
    simp only [List.append_assoc]
  rw [Writer.step, next_moved inside going]
  by_cases full : c.bytes + n = c.remaining
  · rw [if_pos full]
    have nothing : data.drop (c.memPtr + (c.bytes + n)) = [] := by
      rw [List.drop_eq_nil_iff]
      omega
    rw [nothing, List.nil_append] at split
    exact write_blocks_at some_byte split
  · rw [if_neg full]
    have going' : c.bytes + n < c.remaining := by omega
    exact ⟨block, going', some_byte, split⟩

theorem writer_busy (writer : WriterAt total sent (.sending data c todo))
    (clean : (c.bytes : Int) ≠ rwSuccess) :
    WriterAt total sent ((Writer.sending data c todo).step .busy) := by
  obtain ⟨block, going, some_byte, whole⟩ := writer
  rw [Writer.step, next_busy clean]
  have block' : c.memPtr + c.bytes + (c.remaining - c.bytes) = data.length := by omega
  have going' : 0 < c.remaining - c.bytes := by omega
  exact ⟨block', going', some_byte, whole⟩

theorem writer_sent_initial {w : Writer} (writer : WriterAt total sent w) : sent <+: total := by
  cases w with
  | done =>
    obtain rfl : sent = total := writer
    exact List.prefix_rfl
  | sending data c todo =>
    obtain ⟨_, _, _, whole⟩ := writer
    exact ⟨_, whole⟩

end writer

section compare
variable {file data : List Byte}

theorem mem_cmp_same {mem1 mem2 : List Byte} {size : Nat} (same : mem1.take size = mem2.take size) :
    memCmp mem1 mem2 size = 0 := by
  rw [memCmp, List.length_eq_zero_iff, List.filter_eq_nil_iff]
  intro i mem
  rw [List.mem_range] at mem
  have at_i : (mem1.take size)[i]? = (mem2.take size)[i]? := by rw [same]
  rw [List.getElem?_take_of_lt mem, List.getElem?_take_of_lt mem] at at_i
  simp [byteAt, List.getD_eq_getElem?_getD, at_i]

theorem compare_blocks_same (ns : List Nat) : ∀ mem1 mem2 : List Byte,
    mem1.take ns.sum = mem2.take ns.sum → compareBlocks ns mem1 mem2 = 0 := by
  induction ns with
  | nil => exact fun _ _ _ => rfl
  | cons n ns ih =>
    intro mem1 mem2 same
    rw [List.sum_cons] at same
    have first : mem1.take n = mem2.take n := by
      have cut := congrArg (List.take n) same
      rwa [List.take_take, List.take_take, Nat.min_eq_left (Nat.le_add_right _ _)] at cut
    have rest : (mem1.drop n).take ns.sum = (mem2.drop n).take ns.sum := by
      have cut := congrArg (List.drop n) same
      rwa [List.drop_take, List.drop_take, Nat.add_sub_cancel_left] at cut
    have here : memCmp mem1 (mem2.take n) n = 0 := by
      apply mem_cmp_same
      rw [first, List.take_take, Nat.min_self]
    rw [compareBlocks, here, ih _ _ rest]

theorem compare_data_same {cfg : Config} {path : List Byte} (found : cfg.lookup path = some file)
    (same : data.take file.length = file) : compareData cfg path data file.length = 0 := by
  have sum : (blockSizes compareBuffer file.length).sum = file.length := block_sizes_sum
  have none : compareBlocks (blockSizes compareBuffer file.length) data file = 0 := by
    apply compare_blocks_same
    rw [sum, same, List.take_length]
  rw [compareData, found]
  simp only [ne_eq, not_true, if_false, none]
  rfl

end compare

theorem memcpy_fills {data bytes : List Byte} {k : Nat} (room : k + bytes.length ≤ data.length) :
    ∃ data', memcpy data k bytes bytes.length = some data' ∧ data'.length = data.length ∧
      data'.take (k + bytes.length) = data.take k ++ bytes := by
  have at_k : (data.take k).length = k := by
    rw [List.length_take]
    omega
  have copied := memcpy_append (data.take k) (data.drop k) bytes bytes.length (Nat.le_refl _)
    (by rw [List.length_drop]; omega)
  rw [List.take_append_drop, at_k, List.take_length] at copied
  refine ⟨_, copied, ?_, ?_⟩
  · simp only [List.length_append, List.length_drop, at_k]
    omega
  · apply List.take_left'
    rw [List.length_append, at_k]

section reader
variable {cfg : Config} {path file got : List Byte}

/-- Between two blocks: what was received after the header is in the buffer or in the file. -/
structure Between (cfg : Config) (path file body : List Byte) (b : Body) : Prop where
  header : b.header = transHeader path file
  counted : body.length = b.allRec
  ram : cfg.receiveToRam = true → b.file = [] ∧ b.data.take b.allRec = body
  filed : cfg.receiveToRam = false → b.file = body
  sizes : b.allRec + b.todo.sum = file.length
  bound : ∀ n ∈ b.todo, 0 < n ∧ n ≤ recBlock
  room : b.data.length =
    if cfg.receiveToRam then file.length + file.length % 4096 else dataBufferSize

structure Inside (cfg : Config) (path file body : List Byte) (b : Body) : Prop where
  header : b.header = transHeader path file
  going : b.c.bytes < b.c.remaining
  kept : b.file ++ b.data.take (b.c.memPtr + b.c.bytes) = body
  fileLength : b.file.length = if cfg.receiveToRam then 0 else b.allRec
  block : b.file.length + (b.c.memPtr + b.c.remaining) = b.allRec + b.size
  sizes : b.allRec + b.size + b.todo.sum = file.length
  small : b.size ≤ recBlock
  bound : ∀ n ∈ b.todo, 0 < n ∧ n ≤ recBlock
  room : b.data.length =
    if cfg.receiveToRam then file.length + file.length % 4096 else dataBufferSize

def ReaderAt (cfg : Config) (path file got : List Byte) : Reader → Prop
  | .header recHeader c => recHeader.length = headerSize ∧ c.memPtr + c.remaining = headerSize ∧
      c.bytes < c.remaining ∧ recHeader.take (c.memPtr + c.bytes) = got
  | .body b => ∃ body, got = (transHeader path file).bytes ++ body ∧ Inside cfg path file body b
  | .done data allRec out errors => got = stream path file ∧ Delivered cfg file data allRec out errors
  | .failed | .overrun => False

theorem body_prefix {body : List Byte}
    (ahead : (transHeader path file).bytes ++ body <+: stream path file)
    (whole : body.length = file.length) : body = file := by
  obtain ⟨rest, same⟩ := ahead
  rw [stream, List.append_assoc] at same
  have tail := List.append_cancel_left same
  have nothing : rest = [] := by
    have lengths := congrArg List.length tail
    rw [List.length_append] at lengths
    exact List.length_eq_zero_iff.mp (by omega)
  rwa [nothing, List.append_nil] at tail

theorem inside_room {body : List Byte} {b : Body} (inside : Inside cfg path file body b) :
    b.c.memPtr + b.c.remaining ≤ b.data.length := by
  have block := inside.block
  have sizes := inside.sizes
  have length := inside.fileLength
  have small := inside.small
  rw [recBlock] at small
  rw [inside.room]
  cases ram : cfg.receiveToRam with
  | true =>
    simp only [ram, if_true] at length ⊢
    omega
  | false =>
    simp only [ram, Bool.false_eq_true, if_false] at length ⊢
    rw [dataBufferSize]
    omega

theorem next_block_at {body : List Byte} {b : Body} (between : Between cfg path file body b)
    (found : cfg.lookup path = some file)
    (ahead : (transHeader path file).bytes ++ body <+: stream path file) :
    ReaderAt cfg path file ((transHeader path file).bytes ++ body) (nextBlock cfg b) := by
  obtain ⟨header, counted, ram, filed, sizes, bound, room⟩ := between
  unfold nextBlock
  cases left : b.todo with
  | nil =>
    rw [left, List.sum_nil, Nat.add_zero] at sizes
    obtain rfl : body = file := body_prefix ahead (counted.trans sizes)
    unfold received
    cases option : cfg.receiveToRam with
    | true =>
      obtain ⟨_, whole⟩ := ram option
      have same : compareData cfg b.header.transferFname b.data b.allRec = 0 := by
        rw [header, sizes]
        apply compare_data_same found
        rw [← sizes]
        exact whole
      refine ⟨rfl, sizes, fun _ => ⟨whole, by rw [same]⟩, ?_, fun quiet => ?_⟩
      · intro _ save
        rw [if_pos save]
        exact whole
      · cases option.symm.trans quiet
    | false =>
      refine ⟨rfl, sizes, fun quiet => ?_, fun quiet => ?_, fun _ => filed option⟩
      · cases option.symm.trans quiet
      · cases option.symm.trans quiet
  | cons size todo =>
    rw [left, List.sum_cons] at sizes
    obtain ⟨pos, small⟩ := bound size (by simp [left])
    refine ⟨body, rfl, header, pos, ?_, ?_, ?_, ?_, small, ?_, room⟩
    · cases option : cfg.receiveToRam with
      | true =>
        obtain ⟨empty, whole⟩ := ram option
        simp only [empty, if_true, Nat.add_zero, List.nil_append]
        exact whole
      | false =>
        simp only [Bool.false_eq_true, if_false, Nat.add_zero, List.take_zero, List.append_nil]
        exact filed option
    · cases option : cfg.receiveToRam with
      | true => simp [(ram option).1]
      | false => simp [filed option, counted]
    · cases option : cfg.receiveToRam with
      | true => simp [(ram option).1]
      | false => simp [filed option, counted]
    · change b.allRec + size + todo.sum = file.length
      omega
    · exact fun n mem => bound n (by simp [left, mem])

theorem block_done_at {body : List Byte} {b : Body} (header : b.header = transHeader path file)
    (kept : b.file ++ b.data.take (b.c.memPtr + b.c.remaining) = body)
    (fileLength : b.file.length = if cfg.receiveToRam then 0 else b.allRec)
    (block : b.file.length + (b.c.memPtr + b.c.remaining) = b.allRec + b.size)
    (inBuffer : b.c.memPtr + b.c.remaining ≤ b.data.length)
    (sizes : b.allRec + b.size + b.todo.sum = file.length)
    (bound : ∀ n ∈ b.todo, 0 < n ∧ n ≤ recBlock)
    (room : b.data.length =
      if cfg.receiveToRam then file.length + file.length % 4096 else dataBufferSize)
    (found : cfg.lookup path = some file)
    (ahead : (transHeader path file).bytes ++ body <+: stream path file) :
    ReaderAt cfg path file ((transHeader path file).bytes ++ body) (blockDone cfg b) := by
  apply next_block_at _ found ahead
  refine ⟨header, ?_, fun option => ?_, fun option => ?_, sizes, bound, room⟩
  · rw [← kept, List.length_append, List.length_take, Nat.min_eq_left inBuffer]
    exact block
  · simp only [option, if_true] at fileLength ⊢
    have empty := List.length_eq_zero_iff.mp fileLength
    rw [empty, List.nil_append] at kept
    rw [empty, List.length_nil, Nat.zero_add] at block
    rw [block] at kept
    exact ⟨empty, kept⟩
  · simp only [option, Bool.false_eq_true, if_false] at fileLength ⊢
    have whole : b.c.memPtr + b.c.remaining = b.size := by omega
    rw [whole] at kept
    exact kept

theorem header_done_at {recHeader : List Byte} (fits : path.length ≤ 256)
    (plain : (0 : Byte) ∉ path) (small : file.length ≤ sizeLimit)
    (found : cfg.lookup path = some file)
    (whole : recHeader = (transHeader path file).bytes) :
    ReaderAt cfg path file (transHeader path file).bytes (headerDone cfg recHeader) := by
  have bounded : file.length < 256 ^ 8 := by
    rw [sizeLimit] at small
    omega
  have checked : checkHeader (transHeader path file) = true := by simp [checkHeader, transHeader]
  have allowed : ¬ (cfg.receiveToRam = true ∧ sizeLimit < (transHeader path file).fileSize) := by
    rintro ⟨_, large⟩
    change sizeLimit < file.length at large
    omega
  rw [headerDone, whole, header_at fits plain bounded]
  simp only [checked, if_true, if_neg allowed]
  have ahead : (transHeader path file).bytes ++ [] <+: stream path file := by
    rw [List.append_nil]
    exact List.prefix_append _ _
  let first : Body :=
    { header := transHeader path file
      data := cfg.malloc (if cfg.receiveToRam then file.length + file.length % 4096
        else dataBufferSize)
      allRec := 0
      c := ⟨0, 0, 0⟩
      size := 0
      todo := blockSizes recBlock file.length
      file := [] }
  have sizes : first.allRec + first.todo.sum = file.length := by
    change 0 + (blockSizes recBlock file.length).sum = file.length
    rw [block_sizes_sum, Nat.zero_add]
  have between : Between cfg path file [] first :=
    ⟨rfl, rfl, fun _ => ⟨rfl, rfl⟩, fun _ => rfl, sizes, block_sizes_bound (by decide), cfg.malloc_size _⟩
  have started := next_block_at between found ahead
  rw [List.append_nil] at started
  exact started

variable {bytes : List Byte} {r : Reader} {c : Call}

theorem reader_moved (reader : ReaderAt cfg path file got r) (call : r.call = some c)
    (inside : bytes.length ≤ c.remaining - c.bytes) (fits : path.length ≤ 256)
    (plain : (0 : Byte) ∉ path) (small : file.length ≤ sizeLimit)
    (found : cfg.lookup path = some file) (ahead : got ++ bytes <+: stream path file) :
    ReaderAt cfg path file (got ++ bytes) (r.step cfg (.moved bytes.length) bytes) := by
  cases r with
  | header recHeader c' =>
    obtain rfl := Option.some.inj call
    obtain ⟨size, block, going, filled⟩ := reader
    have room : c'.memPtr + c'.bytes + bytes.length ≤ recHeader.length := by omega
    obtain ⟨recHeader', copied, size', filled'⟩ := memcpy_fills room
    rw [filled] at filled'
    simp only [Reader.step, copied, next_moved inside going]
    by_cases full : c'.bytes + bytes.length = c'.remaining
    · rw [if_pos full]
      have all : c'.memPtr + c'.bytes + bytes.length = recHeader'.length := by omega
      rw [all, List.take_length] at filled'
      have same : recHeader' = (transHeader path file).bytes := by
        have lengths : recHeader'.length = (transHeader path file).bytes.length := by
          rw [header_length fits, size', size]
        rw [← filled'] at ahead
        exact (List.prefix_of_prefix_length_le ahead (List.prefix_append _ _)
          (Nat.le_of_eq lengths)).eq_of_length lengths
      rw [← filled', same]
      exact header_done_at fits plain small found rfl
    · rw [if_neg full]
      have going' : c'.bytes + bytes.length < c'.remaining := by omega
      rw [Nat.add_assoc] at filled'
      exact ⟨size'.trans size, block, going', filled'⟩
  | body b =>
    obtain rfl := Option.some.inj call
    obtain ⟨body, whole, inside'⟩ := reader
    have inBuffer := inside_room inside'
    obtain ⟨header, going, kept, fileLength, block, sizes, small', bound, room⟩ := inside'
    have fitting : b.c.memPtr + b.c.bytes + bytes.length ≤ b.data.length := by omega
    obtain ⟨data', copied, size', filled'⟩ := memcpy_fills fitting
    have kept' : b.file ++ data'.take (b.c.memPtr + b.c.bytes + bytes.length) = body ++ bytes := by
      rw [filled', ← List.append_assoc, kept]
    have whole' : got ++ bytes = (transHeader path file).bytes ++ (body ++ bytes) := by
      rw [whole, List.append_assoc]
    rw [whole'] at ahead ⊢
    simp only [Reader.step, copied, next_moved inside going]
    by_cases full : b.c.bytes + bytes.length = b.c.remaining
    · rw [if_pos full]
      have all : b.c.memPtr + b.c.bytes + bytes.length = b.c.memPtr + b.c.remaining := by omega
      rw [all] at kept'
      exact block_done_at header kept' fileLength block (by rw [size']; exact inBuffer) sizes bound
        (size'.trans room) found ahead
    · rw [if_neg full]
      have going' : b.c.bytes + bytes.length < b.c.remaining := by omega
      rw [Nat.add_assoc] at kept'
      exact ⟨_, rfl, header, going', kept', fileLength, block, sizes, small', bound, size'.trans room⟩
  | done data allRec out errors => cases call
  | failed => cases call
  | overrun => cases call

theorem reader_busy (reader : ReaderAt cfg path file got r) (call : r.call = some c)
    (clean : (c.bytes : Int) ≠ rwSuccess) :
    ReaderAt cfg path file got (r.step cfg .busy []) := by
  cases r with
  | header recHeader c' =>
    obtain rfl := Option.some.inj call
    obtain ⟨size, block, going, filled⟩ := reader
    have room : c'.memPtr + c'.bytes + ([] : List Byte).length ≤ recHeader.length := by
      rw [List.length_nil]
      omega
    obtain ⟨recHeader', copied, size', filled'⟩ := memcpy_fills room
    rw [List.length_nil, Nat.add_zero, List.append_nil, filled] at filled'
    simp only [Reader.step, copied, next_busy clean]
    have block' : c'.memPtr + c'.bytes + (c'.remaining - c'.bytes) = headerSize := by omega
    have going' : 0 < c'.remaining - c'.bytes := by omega
    exact ⟨size'.trans size, block', going', filled'⟩
  | body b =>
    obtain rfl := Option.some.inj call
    obtain ⟨body, whole, inside'⟩ := reader
    have inBuffer := inside_room inside'
    obtain ⟨header, going, kept, fileLength, block, sizes, small', bound, room⟩ := inside'
    have fitting : b.c.memPtr + b.c.bytes + ([] : List Byte).length ≤ b.data.length := by
      rw [List.length_nil]
      omega
    obtain ⟨data', copied, size', filled'⟩ := memcpy_fills fitting
    rw [List.length_nil, Nat.add_zero, List.append_nil] at filled'
    have kept' : b.file ++ data'.take (b.c.memPtr + b.c.bytes) = body := by rw [filled', kept]
    simp only [Reader.step, copied, next_busy clean]
    have block' : b.file.length + (b.c.memPtr + b.c.bytes + (b.c.remaining - b.c.bytes)) = b.allRec + b.size := by omega
    have going' : 0 < b.c.remaining - b.c.bytes := by omega
    exact ⟨_, whole, header, going', kept', fileLength, block', sizes, small', bound, size'.trans room⟩
  | done data allRec out errors => cases call
  | failed => cases call
  | overrun => cases call

end reader

structure Inv (cfg : Config) (path file : List Byte) (s : State) : Prop where
  writer : WriterAt (stream path file) s.sent s.writer
  reader : ReaderAt cfg path file s.got s.reader
  lossless : s.sent = s.got ++ s.line

/-- What the run must not have: a path with a NUL or too long for the header, or a file too large. -/
structure Transferable (cfg : Config) (path file : List Byte) : Prop where
  fits : path.length < 256
  plain : (0 : Byte) ∉ path
  small : file.length ≤ sizeLimit
  found : cfg.lookup path = some file

section runs
variable {cfg : Config} {path file : List Byte}

theorem start_inv (fits : path.length < 256) : Inv cfg path file (start path file) := by
  have length : (transHeader path file).bytes.length = headerSize := header_length (by omega)
  have sum : (blockSizes transBlock file.length).sum = file.length := block_sizes_sum
  have writer : WriterAt (stream path file) [] (writeBlocks ((transHeader path file).bytes ::
      pieces (blockSizes transBlock file.length) file)) := by
    apply write_blocks_at
    · intro b mem
      rcases List.mem_cons.mp mem with rfl | mem
      · apply List.ne_nil_of_length_pos
        rw [length]
        decide
      · exact pieces_some _ file (fun n inside => (block_sizes_bound (by decide) n inside).1)
          (Nat.le_of_eq sum) b mem
    · rw [List.nil_append, List.flatten_cons, pieces_flatten, sum, List.take_length, stream]
  have reader : ReaderAt cfg path file []
      (.header (List.replicate headerSize 0) ⟨0, headerSize, 0⟩) := by
    refine ⟨List.length_replicate, Nat.zero_add _, ?_, rfl⟩
    change 0 < headerSize
    decide
  exact ⟨writer, reader, rfl⟩

theorem step_inv (ok : Transferable cfg path file) (act : Act) (s t : State)
    (inv : Inv cfg path file s) (clean : Clean act s) (taken : step cfg act s = some t) :
    Inv cfg path file t := by
  obtain ⟨writer, reader, lossless⟩ := inv
  cases act with
  | write a =>
    cases here : s.writer with
    | done => simp [step, here] at taken
    | sending data c todo =>
      rw [here] at writer
      cases a with
      | busy =>
        simp only [step, here] at taken
        obtain rfl := Option.some.inj taken
        exact ⟨writer_busy writer (clean data c todo here), reader, lossless⟩
      | moved n =>
        simp only [step, here] at taken
        split at taken
        · rename_i inside
          obtain rfl := Option.some.inj taken
          refine ⟨writer_moved writer inside.2, reader, ?_⟩
          simp only [lossless, List.append_assoc]
        · cases taken
  | read a =>
    cases here : s.reader.call with
    | none => simp [step, here] at taken
    | some c =>
      cases a with
      | busy =>
        simp only [step, here] at taken
        obtain rfl := Option.some.inj taken
        exact ⟨writer, reader_busy reader here (clean c here), lossless⟩
      | moved n =>
        simp only [step, here] at taken
        split at taken
        · rename_i inside
          obtain rfl := Option.some.inj taken
          have taken_length : (s.line.take n).length = n := by
            rw [List.length_take]
            omega
          have split : s.sent = s.got ++ s.line.take n ++ s.line.drop n := by
            rw [List.append_assoc, List.take_append_drop]
            exact lossless
          have ahead : s.got ++ s.line.take n <+: stream path file :=
            List.IsPrefix.trans ⟨_, split.symm⟩ (writer_sent_initial writer)
          have moved := reader_moved reader here (by rw [taken_length]; exact inside.2.1)
            (Nat.le_of_lt ok.fits) ok.plain ok.small ok.found ahead
          rw [taken_length] at moved
          exact ⟨writer, moved, split⟩
        · cases taken

theorem inv_good {s : State} (inv : Inv cfg path file s) : Good cfg path file s := by
  obtain ⟨writer, reader, lossless⟩ := inv
  refine ⟨writer_sent_initial writer, lossless, ⟨?_, ?_⟩, ?_, ?_⟩
  · intro failed
    rw [failed] at reader
    exact reader
  · intro overrun
    rw [overrun] at reader
    exact reader
  · intro done
    rw [done] at writer
    exact writer
  · intro data allRec out errors done
    rw [done] at reader
    exact reader

theorem stream_length (fits : path.length < 256) :
    (stream path file).length = headerSize + file.length := by
  rw [stream, List.length_append, header_length (by omega)]

theorem reader_waits {got : List Byte} {r : Reader} {c : Call} (fits : path.length < 256)
    (reader : ReaderAt cfg path file got r) (call : r.call = some c) :
    c.bytes < c.remaining ∧ got.length < (stream path file).length := by
  rw [stream_length fits]
  cases r with
  | header recHeader c' =>
    obtain rfl := Option.some.inj call
    obtain ⟨size, block, going, rfl⟩ := reader
    refine ⟨going, ?_⟩
    rw [List.length_take]
    omega
  | body b =>
    obtain rfl := Option.some.inj call
    obtain ⟨body, rfl, inside⟩ := reader
    have inBuffer := inside_room inside
    obtain ⟨_, going, rfl, _, block, sizes, _, _, _⟩ := inside
    refine ⟨going, ?_⟩
    rw [List.length_append, header_length (by omega), List.length_append, List.length_take]
    omega
  | done data allRec out errors => cases call
  | failed => cases call
  | overrun => cases call

theorem can_move {s : State} (fits : path.length < 256) (inv : Inv cfg path file s) :
    (s.writer = .done ∧ s.reader.Finished) ∨ ∃ act t, isMove act ∧ step cfg act s = some t := by
  obtain ⟨writer, reader, lossless⟩ := inv
  cases sender : s.writer with
  | sending data c todo =>
    rw [sender] at writer
    obtain ⟨_, going, _⟩ := writer
    have inside : 0 < 1 ∧ 1 ≤ c.remaining - c.bytes := by omega
    have enabled : ∃ t, step cfg (.write (.moved 1)) s = some t := by
      simp only [step, sender, if_pos inside]
      exact ⟨_, rfl⟩
    obtain ⟨t, taken⟩ := enabled
    exact Or.inr ⟨.write (.moved 1), t, rfl, taken⟩
  | done =>
    rw [sender] at writer
    have all : s.sent = stream path file := writer
    cases call : s.reader.call with
    | none =>
      refine Or.inl ⟨rfl, ?_⟩
      cases ended : s.reader with
      | done => trivial
      | header => simp [ended, Reader.call] at call
      | body => simp [ended, Reader.call] at call
      | failed =>
        rw [ended] at reader
        exact reader
      | overrun =>
        rw [ended] at reader
        exact reader
    | some c =>
      obtain ⟨going, short⟩ := reader_waits fits reader call
      have some_byte : 1 ≤ s.line.length := by
        rw [← all, lossless, List.length_append] at short
        omega
      have inside : 0 < 1 ∧ 1 ≤ c.remaining - c.bytes ∧ 1 ≤ s.line.length := by omega
      have enabled : ∃ t, step cfg (.read (.moved 1)) s = some t := by
        simp only [step, call, if_pos inside]
        exact ⟨_, rfl⟩
      obtain ⟨t, taken⟩ := enabled
      exact Or.inr ⟨.read (.moved 1), t, rfl, taken⟩

theorem move_counts {act : Act} {s t : State} (inv : Inv cfg path file s)
    (taken : step cfg act s = some t) :
    (if isMove act then 1 else 0) + s.sent.length + s.got.length ≤ t.sent.length + t.got.length := by
  cases act with
  | write a =>
    cases here : s.writer with
    | done => simp [step, here] at taken
    | sending data c todo =>
      cases a with
      | busy =>
        simp only [step, here] at taken
        obtain rfl := Option.some.inj taken
        simp [isMove]
      | moved n =>
        simp only [step, here] at taken
        split at taken
        · rename_i inside
          obtain rfl := Option.some.inj taken
          have writer := inv.writer
          rw [here] at writer
          have length : ((offered data c).take n).length = n := by
            rw [List.length_take, offered_eq writer.1, List.length_drop]
            have block := writer.1
            omega
          simp only [isMove, if_true, List.length_append, length]
          omega
        · cases taken
  | read a =>
    cases here : s.reader.call with
    | none => simp [step, here] at taken
    | some c =>
      cases a with
      | busy =>
        simp only [step, here] at taken
        obtain rfl := Option.some.inj taken
        simp [isMove]
      | moved n =>
        simp only [step, here] at taken
        split at taken
        · rename_i inside
          obtain rfl := Option.some.inj taken
          simp only [isMove, if_true, List.length_append, List.length_take]
          omega
        · cases taken

theorem moves_bounded (ok : Transferable cfg path file) (acts : List Act) : ∀ {s t : State},
    Inv cfg path file s → Along (step cfg) Clean acts s → run (step cfg) acts s = some t →
      (acts.filter isMove).length + s.sent.length + s.got.length ≤ t.sent.length + t.got.length := by
  induction acts with
  | nil =>
    intro s t _ _ ran
    rw [run] at ran
    obtain rfl := Option.some.inj ran
    simp
  | cons act acts ih =>
    intro s t inv along ran
    obtain ⟨u, taken, rest⟩ := run_cons ran
    obtain ⟨here, later⟩ := along
    have bound := ih (step_inv ok act s u inv here taken) (later u taken) rest
    have count := move_counts inv taken
    rw [List.filter_cons]
    split
    · rename_i moves
      rw [if_pos moves] at count
      rw [List.length_cons]
      omega
    · rename_i waits
      rw [if_neg waits] at count
      omega

/-- In every run without a port that is busy after 204 bytes of a call, the bytes go over once and in
    order, and the run goes on moving them, one at a time at least, until both threads are done. -/
theorem transfer_good (ok : Transferable cfg path file) {acts : List Act} {s : State}
    (clean : Along (step cfg) Clean acts (start path file))
    (ran : run (step cfg) acts (start path file) = some s) :
    Good cfg path file s ∧ (acts.filter isMove).length ≤ 2 * (stream path file).length ∧
      ((s.writer = .done ∧ s.reader.Finished) ∨ ∃ act t, isMove act ∧ step cfg act s = some t) := by
  have begun : Inv cfg path file (start path file) := start_inv ok.fits
  have inv := run_along (step_inv ok) begun clean ran
  have good := inv_good inv
  have bound := moves_bounded ok acts begun clean ran
  have sent := good.sent.length_le
  have got : s.got.length ≤ s.sent.length := by
    rw [good.lossless, List.length_append]
    omega
  exact ⟨good, by omega, can_move ok.fits inv⟩

end runs

theorem zeros_length (n : Nat) : (List.replicate n (0 : Byte)).length = n := List.length_replicate

/-- A receiver into RAM that finds the file `[7]` under the path `f`. -/
def ramConfig : Config :=
  ⟨true, false, fun n => List.replicate n 0, zeros_length,
    fun path => if path = ascii "f" then some [7] else none⟩

def wholeBlocks : List Act :=
  [.write (.moved 296), .read (.moved 296), .write (.moved 1), .read (.moved 1)]

theorem one_byte_delivered : ∃ s, run (step ramConfig) wholeBlocks (start (ascii "f") [7]) = some s ∧
    Good ramConfig (ascii "f") [7] s ∧ s.writer = .done := by
  have ok : Transferable ramConfig (ascii "f") [7] :=
    ⟨by decide, by decide, by decide, by decide⟩
  have clean : Along (step ramConfig) Clean wholeBlocks (start (ascii "f") [7]) :=
    ⟨trivial, fun _ _ => ⟨trivial, fun _ _ => ⟨trivial, fun _ _ => ⟨trivial, fun _ _ => trivial⟩⟩⟩⟩
  have ended : (run (step ramConfig) wholeBlocks (start (ascii "f") [7])).map State.writer =
      some .done := by decide +kernel
  obtain ⟨s, ran, done⟩ := Option.map_eq_some_iff.mp ended
  exact ⟨s, ran, (transfer_good ok clean ran).1, done⟩

/-- The port is busy after 204 bytes of the header: the writer goes on to the file. -/
theorem header_cut_off : ∃ s, run (step ramConfig)
      [.write (.moved 204), .write .busy, .write (.moved 1)] (start (ascii "f") [7]) = some s ∧
    s.writer = .done ∧ s.sent.length = 205 ∧ ¬ Good ramConfig (ascii "f") [7] s := by
  have ended : (run (step ramConfig) [.write (.moved 204), .write .busy, .write (.moved 1)]
      (start (ascii "f") [7])).map (fun s => (s.writer, s.sent.length)) = some (.done, 205) := by
    decide +kernel
  obtain ⟨s, ran, same⟩ := Option.map_eq_some_iff.mp ended
  obtain ⟨done, length⟩ := Prod.mk.inj same
  refine ⟨s, ran, done, length, ?_⟩
  intro good
  have whole := good.writer_done done
  rw [whole, stream_length (by decide)] at length
  exact absurd length (by decide)

end VteUart
