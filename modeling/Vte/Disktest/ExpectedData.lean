import Vte.Disktest.Buffer

/-!
What a block holds depends on its address and on the pass only, not on the transfer it is part of.
So a block that was written in a pass compares equal in every later transfer of the pass.
-/
namespace VteDisktest
open Bytes Patterned Tiles

section blocks

@[simp] theorem word_bytes_length (word : BitVec 64) : (wordBytes word).length = 8 := by
  simp [wordBytes]

theorem word_block_length (word : BitVec 64) : (wordBlock word).length = blkSize := by
  simp [wordBlock, blkSize]

theorem lba_block_length (n : Nat) (lba : Int) : (lbaBlock n lba).length = blkSize :=
  word_block_length _

theorem random_block_length (rand : Nat → BitVec 64) : (randomBlock rand).length = blkSize := by
  simp [randomBlock, blkSize, Function.comp_def]

theorem count_byte_repeats (i : Nat) : countByte (i + blkSize) = countByte i := by
  have low : ∀ n : Nat, n &&& 0xff = n % 256 := fun n => Nat.and_two_pow_sub_one_eq_mod n 8
  have mod : (i + 512) % 256 = i % 256 := by omega
  rw [countByte, countByte, blkSize, low, low, mod]

end blocks

section fill
variable {pattern : Int} {patternLen : Nat} {rand : Nat → BitVec 64}

theorem memcpy_front (buf src : List Byte) (room : src.length ≤ buf.length) :
    memcpy buf 0 src src.length = some (src ++ buf.drop src.length) := by
  have copied := memcpy_append [] buf src src.length (Nat.le_refl _) room
  rwa [List.nil_append, List.take_length] at copied

theorem copy_first_lay {blk : List Byte} (whole : blk.length = blkSize) (n : Nat) : ∀ (k : Nat)
    (rest : List Byte), n * blkSize ≤ rest.length →
    copyFirst n ((k + 1) * blkSize) (lay (fun _ => blk) (k + 1) 0 ++ rest) =
      some (lay (fun _ => blk) (k + 1 + n) 0 ++ rest.drop (n * blkSize)) := by
  induction n with
  | zero =>
    intro k rest room
    simp [copyFirst]
  | succ n ih =>
    intro k rest room
    rw [Nat.succ_mul] at room
    have done := lay_length (fun _ : Int => whole) (k + 1) 0
    have first : (lay (fun _ => blk) (k + 1) 0 ++ rest).take blkSize = blk := by
      rw [lay, List.append_assoc, ← whole, List.take_left]
    have readable : blkSize ≤ (lay (fun _ => blk) (k + 1) 0 ++ rest).length := by
      rw [List.length_append, done, Nat.succ_mul]
      omega
    have copied := memcpy_append (lay (fun _ => blk) (k + 1) 0) rest _ blkSize readable (by omega)
    have longer : lay (fun _ => blk) (k + 1) 0 ++ blk = lay (fun _ => blk) (k + 1 + 1) 0 :=
      (lay_last (k + 1) 0).symm
    rw [first, longer, done] at copied
    have next : (k + 1) * blkSize + blkSize = (k + 1 + 1) * blkSize := (Nat.succ_mul _ _).symm
    have count : k + 1 + 1 + n = k + 1 + (n + 1) := by omega
    have later := ih (k + 1) (rest.drop blkSize) (by rw [List.length_drop]; omega)
    rw [copyFirst, copied, Option.bind_some, next, later, List.drop_drop, count, Nat.succ_mul, Nat.add_comm blkSize]

def Uniform (blocks : Nat) (buf : List Byte) : Prop :=
  ∃ blk : List Byte, blk.length = blkSize ∧ buf = lay (fun _ => blk) blocks 0

theorem uniform_length {blocks : Nat} {buf : List Byte} (uniform : Uniform blocks buf) :
    buf.length = blocks * blkSize := by
  obtain ⟨blk, whole, rfl⟩ := uniform
  exact lay_length (fun _ => whole) blocks 0

theorem uniform_fill {blocks : Nat} {buf blk : List Byte} (size : buf.length = blocks * blkSize)
    (whole : blk.length = blkSize) :
    ∃ out, memcpy buf 0 (lay (fun _ => blk) blocks 0) (lay (fun _ => blk) blocks 0).length = some out ∧
      Uniform blocks out := by
  have length := lay_length (fun _ : Int => whole) blocks 0
  refine ⟨_, memcpy_front _ _ (by omega), blk, whole, ?_⟩
  rw [length, ← size, List.drop_length, List.append_nil]

theorem fill_counting {blocks : Nat} {buf : List Byte} (size : buf.length = blocks * blkSize) :
    ∃ out, fillBuffer buf (blocks * blkSize) pattern patternLen rand .cptype = some out ∧ Uniform blocks out := by
  have whole := generate_length countByte blkSize 0
  have layout := generate_lay count_byte_repeats blocks 0
  have filled := uniform_fill size whole
  rw [← layout, generate_length] at filled
  exact filled

theorem fill_fixed {blocks : Nat} {buf : List Byte} (size : buf.length = blocks * blkSize) :
    ∃ out, fillBuffer buf (blocks * blkSize) pattern patternLen rand .fptype = some out ∧ Uniform blocks out := by
  have words : blocks * blkSize / 8 = blocks * 64 := by
    rw [blkSize]
    omega
  have whole := word_block_length (fixedWord (BitVec.ofInt 64 pattern) patternLen)
  have filled := uniform_fill size whole
  rw [fillBuffer, words, flatten_lay _ 64 blocks 0]
  exact filled

theorem fill_random {blocks : Nat} {buf : List Byte} (some_block : 0 < blocks)
    (size : buf.length = blocks * blkSize) :
    ∃ out, fillBuffer buf (blocks * blkSize) pattern patternLen rand .rptype = some out ∧ Uniform blocks out := by
  obtain ⟨n, rfl⟩ := Nat.exists_eq_add_of_lt some_block
  have whole := random_block_length rand
  have count : ((0 + n + 1) * blkSize - 1) / blkSize = n := by
    rw [blkSize]
    omega
  have enough : blkSize + n * blkSize = buf.length := by
    rw [size, blkSize]
    omega
  have first := memcpy_front buf (randomBlock rand) (by omega)
  have one : randomBlock rand = lay (fun _ => randomBlock rand) (0 + 1) 0 := by simp [lay]
  have copied := copy_first_lay whole n 0 (buf.drop blkSize) (by rw [List.length_drop]; omega)
  rw [whole] at first
  rw [← one, Nat.zero_add, Nat.one_mul] at copied
  refine ⟨lay (fun _ => randomBlock rand) (0 + n + 1) 0, ?_, randomBlock rand, whole, rfl⟩
  have all : 1 + n = 0 + n + 1 := by omega
  rw [fillBuffer, count, first, Option.bind_some, copied, List.drop_drop, enough, List.drop_length,
    List.append_nil, all]

end fill

section passes
variable {args : ChildArgs}

theorem data_buffer_blocks (args : ChildArgs) :
    dataBufferSize args = args.htrsiz * 2 * blkSize := by
  rw [dataBufferSize, Nat.mul_right_comm]

theorem init_data_uniform (single : args.flags.ptyps.isSome) (large : 1 ≤ args.htrsiz)
    (rand : Nat → BitVec 64) :
    ∃ buf, initData args rand = some buf ∧ Uniform (args.htrsiz * 2) buf := by
  have size : (List.replicate (dataBufferSize args) (0 : Byte)).length = args.htrsiz * 2 * blkSize := by
    rw [List.length_replicate, data_buffer_blocks]
  obtain ⟨p, chosen⟩ := Option.isSome_iff_exists.mp single
  rw [data_buffer_blocks] at size
  unfold initData
  rw [chosen, data_buffer_blocks]
  cases p with
  | fptype => exact fill_fixed size
  | rptype => exact fill_random (by omega) size
  | cptype => exact fill_counting size
  | lptype =>
    have whole : (List.replicate blkSize (0 : Byte)).length = blkSize := List.length_replicate
    refine ⟨_, rfl, List.replicate blkSize 0, whole, ?_⟩
    rw [lay_const, List.flatten_replicate_replicate]

theorem refill_uniform (rand : Nat → BitVec 64) {buf : List Byte} (large : 1 ≤ args.htrsiz)
    (uniform : Uniform (args.htrsiz * 2) buf) :
    ∃ out, refill args rand buf = some out ∧ Uniform (args.htrsiz * 2) out := by
  unfold refill
  split
  · rw [data_buffer_blocks]
    exact fill_random (by omega) (uniform_length uniform)
  · exact ⟨buf, rfl, uniform⟩

theorem run_passes_uniform (large : 1 ≤ args.htrsiz) (passes : List Pass) :
    ∀ env : PassEnv, Uniform (args.htrsiz * 2) env.dataBuffer →
      ∃ later, Machine.run (startPass args) passes env = some later ∧ Uniform (args.htrsiz * 2) later.dataBuffer := by
  induction passes with
  | nil =>
    intro env uniform
    exact ⟨env, rfl, uniform⟩
  | cons pass passes ih =>
    intro env uniform
    obtain ⟨buf, filled, same⟩ := refill_uniform pass.rand large uniform
    rw [Machine.run, startPass, filled, Option.map_some, Option.bind_some]
    exact ih _ same

theorem pass_env_uniform (single : args.flags.ptyps.isSome) (large : 1 ≤ args.htrsiz) (init : Pass)
    (passes : List Pass) :
    ∃ env, passEnv args init passes = some env ∧ Uniform (args.htrsiz * 2) env.dataBuffer := by
  obtain ⟨buf, filled, uniform⟩ := init_data_uniform single large init.rand
  rw [passEnv, filled, Option.bind_some]
  exact run_passes_uniform large passes _ uniform

end passes

/-! The marks of a block are stores inside it. -/
section marks
variable (args : ChildArgs) (env : PassEnv) (hostname : Vector Byte hostnameSize)

def stored (on : Bool) (blk : List Byte) (off : Nat) (bytes : List Byte) : List Byte :=
  if on then writeAt 0 blk off bytes else blk

def marked (blk : List Byte) (lba : Int) : List Byte :=
  let blk := stored args.flags.mrkLba blk 0 (offWord lba)
  let blk := stored args.flags.mrkPass blk 8 (offWord env.passCount)
  let blk := stored args.flags.mrkTime blk 16 (offWord (timeMark args env))
  let blk := stored args.flags.mrkSeed blk 24 (offWord args.seed.toNat)
  let blk := stored args.flags.mrkHost blk 32 hostname.toList
  stored args.flags.mrkTarget blk 48 args.device.name

theorem stored_whole {blk : List Byte} (whole : blk.length = 512) (on : Bool) (off : Nat)
    (bytes : List Byte) (room : off + bytes.length ≤ 512) :
    (stored on blk off bytes).length = 512 := by
  unfold stored
  split
  · rw [write_at_length]
    omega
  · exact whole

theorem store_inside {pre blk post bytes : List Byte} {pos : Nat} (whole : blk.length = 512)
    (on : Bool) (off : Nat) (place : pos = pre.length + off) (room : off + bytes.length ≤ 512) :
    store on (pre ++ blk ++ post) pos bytes = some (pre ++ stored on blk off bytes ++ post) := by
  unfold store stored
  split
  · rw [place, memcpy_inside (Nat.le_refl _) (by omega), List.take_length]
  · rfl

theorem off_word_length (x : Int) : (offWord x).length = 8 := word_bytes_length _

theorem off_word_room {off : Nat} (room : off ≤ 504) (x : Int) :
    off + (offWord x).length ≤ 512 := by
  rw [off_word_length]
  omega

theorem mark_block_inside {pre blk : List Byte} (whole : blk.length = blkSize)
    (aligned : blkSize ∣ pre.length) (post : List Byte) (lba : Int) :
    markBlock args env hostname (pre ++ blk ++ post) pre.length lba =
        some (pre ++ marked args env hostname blk lba ++ post) ∧
      (marked args env hostname blk lba).length = blkSize := by
  have short := args.device.short
  have host : hostname.toList.length = 16 := hostname.size_toArray
  obtain ⟨k, start⟩ := aligned
  unfold blkSize at whole start
  unfold devNameLen at short
  have l1 := stored_whole whole args.flags.mrkLba 0 _ (off_word_room (by decide) lba)
  have l2 := stored_whole l1 args.flags.mrkPass 8 _ (off_word_room (by decide) env.passCount)
  have l3 := stored_whole l2 args.flags.mrkTime 16 _ (off_word_room (by decide) (timeMark args env))
  have l4 := stored_whole l3 args.flags.mrkSeed 24 _ (off_word_room (by decide) args.seed.toNat)
  have l5 := stored_whole l4 args.flags.mrkHost 32 hostname.toList (by omega)
  have l6 := stored_whole l5 args.flags.mrkTarget 48 args.device.name (by omega)
  constructor
  · unfold markBlock marked
    simp only [Option.bind_eq_bind]
    rw [store_inside whole _ 0 (by omega) (off_word_room (by decide) _), Option.bind_some,
      store_inside l1 _ 8 (by omega) (off_word_room (by decide) _), Option.bind_some,
      store_inside l2 _ 16 (by omega) (off_word_room (by decide) _), Option.bind_some,
      store_inside l3 _ 24 (by omega) (off_word_room (by decide) _), Option.bind_some,
      store_inside l4 _ 32 (by omega) (by omega), Option.bind_some,
      store_inside l5 _ 48 (by unfold hostnameSize; omega) (by omega)]
  · exact l6

theorem mark_from_lay {f : Int → List Byte} (whole : ∀ b, (f b).length = blkSize)
    (rest : List Byte) (n : Nat) : ∀ (pre : List Byte) (lba : Int), blkSize ∣ pre.length →
    markFrom args env hostname n pre.length lba (pre ++ lay f n lba ++ rest) =
      some (pre ++ lay (fun b => marked args env hostname (f b) b) n lba ++ rest) := by
  induction n with
  | zero =>
    intro pre lba aligned
    rfl
  | succ n ih =>
    intro pre lba aligned
    obtain ⟨here, size⟩ := mark_block_inside args env hostname (whole lba) aligned
      (lay f n (lba + 1) ++ rest) lba
    have longer : (pre ++ marked args env hostname (f lba) lba).length = pre.length + blkSize := by
      rw [List.length_append, size]
    have still : blkSize ∣ (pre ++ marked args env hostname (f lba) lba).length := by
      rw [longer]
      exact Nat.dvd_add aligned (Nat.dvd_refl _)
    have later := ih (pre ++ marked args env hostname (f lba) lba) (lba + 1) still
    rw [longer] at later
    simp only [List.append_assoc] at here later
    simp only [markFrom, lay, List.append_assoc]
    rw [here, Option.bind_some, later]

theorem mark_buffer_lay {f : Int → List Byte} (whole : ∀ b, (f b).length = blkSize)
    (rest : List Byte) (n : Nat) (lba : Int) :
    markBuffer args env hostname (lay f n lba ++ rest) (n * blkSize) lba =
      some (lay (fun b => marked args env hostname (f b) b) n lba ++ rest) := by
  have count : (n * blkSize + (blkSize - 1)) / blkSize = n := by
    rw [blkSize]
    omega
  have marks := mark_from_lay args env hostname whole rest n [] lba
    (Nat.dvd_zero _)
  rw [markBuffer, count]
  exact marks

end marks

section transfer
variable (args : ChildArgs) (env : PassEnv) (hostname : Vector Byte hostnameSize)

def patternBlock (lba : Int) : List Byte :=
  if args.flags.lptype then lbaBlock 8 lba else env.dataBuffer.take blkSize

def expectedBlock (lba : Int) : List Byte :=
  if args.flags.mblk then marked args env hostname (patternBlock args env lba) lba
  else patternBlock args env lba

variable {args env}

theorem pattern_block_length (large : 1 ≤ args.htrsiz)
    (uniform : Uniform (args.htrsiz * 2) env.dataBuffer) (lba : Int) :
    (patternBlock args env lba).length = blkSize := by
  have size := uniform_length uniform
  unfold patternBlock
  split
  · exact lba_block_length 8 lba
  · rw [List.length_take, size, blkSize]
    omega

theorem expected_block_length (large : 1 ≤ args.htrsiz)
    (uniform : Uniform (args.htrsiz * 2) env.dataBuffer) (lba : Int) :
    (expectedBlock args env hostname lba).length = blkSize := by
  have whole := pattern_block_length large uniform lba
  unfold expectedBlock
  split
  · have aligned : blkSize ∣ ([] : List Byte).length := Nat.dvd_zero _
    exact (mark_block_inside args env hostname whole aligned [] lba).2
  · exact whole

theorem pattern_buffer_lay (large : 1 ≤ args.htrsiz)
    (uniform : Uniform (args.htrsiz * 2) env.dataBuffer) {buf2 : List Byte} {target : Action}
    (fits : target.trsiz ≤ args.htrsiz) (room : args.htrsiz * blkSize ≤ buf2.length) :
    patternBuffer args env buf2 target = some (lay (patternBlock args env) target.trsiz target.lba ++
        buf2.drop (target.trsiz * blkSize)) := by
  have whole := pattern_block_length large uniform
  have length := lay_length whole target.trsiz target.lba
  have short := Nat.mul_le_mul_right blkSize fits
  unfold patternBuffer
  split
  · rename_i byLba
    have same : patternBlock args env = lbaBlock 8 := by
      funext lba
      rw [patternBlock, if_pos byLba]
    rw [same] at length ⊢
    rw [fillBuffer, memcpy_front _ _ (by omega), length]
  · rename_i byBuffer
    have size := uniform_length uniform
    obtain ⟨blk, blkWhole, shared⟩ := uniform
    have first : env.dataBuffer.take blkSize = blk := by
      have more : args.htrsiz * 2 = args.htrsiz * 2 - 1 + 1 := by omega
      rw [shared, more, lay, ← blkWhole, List.take_left]
    have same : patternBlock args env = fun _ => blk := by
      funext lba
      rw [patternBlock, if_neg byBuffer, first]
    have taken : env.dataBuffer.take (target.trsiz * blkSize) = lay (fun _ => blk) target.trsiz target.lba := by
      rw [shared, lay_take (fun _ => blkWhole) (by omega), lay_const, lay_const]
    have readable : target.trsiz * blkSize ≤ env.dataBuffer.length := by
      rw [size]
      exact Nat.mul_le_mul_right blkSize (by omega)
    have copied := memcpy_append [] buf2 env.dataBuffer _ readable (by omega)
    rw [taken] at copied
    rw [same]
    exact copied

theorem transfer_buffer_lay (large : 1 ≤ args.htrsiz)
    (uniform : Uniform (args.htrsiz * 2) env.dataBuffer) {buf2 : List Byte} {target : Action}
    (fits : target.trsiz ≤ args.htrsiz) (room : args.htrsiz * blkSize ≤ buf2.length) :
    transferBuffer args env hostname buf2 target =
      some (lay (expectedBlock args env hostname) target.trsiz target.lba ++ buf2.drop (target.trsiz * blkSize)) := by
  have whole := pattern_block_length large uniform
  rw [transferBuffer, pattern_buffer_lay large uniform fits room, Option.bind_some]
  split
  · rename_i marks
    have same : expectedBlock args env hostname =
        fun b => marked args env hostname (patternBlock args env b) b := by
      funext lba
      rw [expectedBlock, if_pos marks]
    rw [mark_buffer_lay args env hostname whole, same]
  · rename_i plain
    have same : expectedBlock args env hostname = patternBlock args env := by
      funext lba
      rw [expectedBlock, if_neg plain]
    rw [same]

end transfer

section disk
variable {args : ChildArgs} {env : PassEnv} (hostname : Vector Byte hostnameSize)

structure Transfer.Fits (args : ChildArgs) (call : Transfer) : Prop where
  short : call.target.trsiz ≤ args.htrsiz
  room : args.htrsiz * blkSize ≤ call.buf2.length

theorem transfer_tile (large : 1 ≤ args.htrsiz) (uniform : Uniform (args.htrsiz * 2) env.dataBuffer)
    {call : Transfer} (fits : call.Fits args) :
    ∃ out, transferBuffer args env hostname call.buf2 call.target = some out ∧ ∀ i < call.target.trsiz,
        tile blkSize out i = expectedBlock args env hostname (call.target.lba + i) := by
  refine ⟨_, transfer_buffer_lay hostname large uniform fits.short fits.room, ?_⟩
  intro i inside
  exact tile_lay (expected_block_length hostname large uniform) inside _ _

theorem written_blocks (large : 1 ≤ args.htrsiz) (uniform : Uniform (args.htrsiz * 2) env.dataBuffer)
    {calls : List Transfer} : ∀ {disk disk' : Disk} (_ : ∀ call ∈ calls, call.Fits args)
    (_ : Machine.run (writeStep args env hostname) calls disk = some disk') (lba : Int),
    (disk lba = expectedBlock args env hostname lba ∨ ∃ call ∈ calls, call.target.covers lba) →
    disk' lba = expectedBlock args env hostname lba := by
  induction calls with
  | nil =>
    intro disk disk' fits ran lba held
    obtain rfl := Option.some.inj ran
    rcases held with held | ⟨call, member, _⟩
    · exact held
    · cases member
  | cons call calls ih =>
    intro disk disk' fits ran lba held
    obtain ⟨next, taken, rest⟩ := Machine.run_cons ran
    obtain ⟨out, filled, tiles⟩ := transfer_tile hostname large uniform
      (fits call (List.mem_cons_self ..))
    rw [writeStep, filled, Option.map_some] at taken
    obtain rfl := Option.some.inj taken
    apply ih (fun later member => fits later (List.mem_cons_of_mem _ member)) rest lba
    by_cases here : call.target.covers lba
    · left
      obtain ⟨low, high⟩ := here
      have place : call.target.lba + ((lba - call.target.lba).toNat : Int) = lba := by omega
      have written := tiles (lba - call.target.lba).toNat (by omega)
      rw [place] at written
      rw [Disk.write, if_pos ⟨low, high⟩, written]
    · rw [Disk.write, if_neg here]
      rcases held with held | ⟨later, member, covered⟩
      · exact Or.inl held
      · rcases List.mem_cons.mp member with rfl | member
        · exact absurd covered here
        · exact Or.inr ⟨later, member, covered⟩

theorem no_miscompare (large : 1 ≤ args.htrsiz) (uniform : Uniform (args.htrsiz * 2) env.dataBuffer)
    {calls : List Transfer} {disk disk' : Disk} {call : Transfer}
    (fits : ∀ call ∈ calls, call.Fits args) (short : call.Fits args)
    (ran : Machine.run (writeStep args env hostname) calls disk = some disk')
    (covered : ∀ lba, call.target.covers lba → ∃ before ∈ calls, before.target.covers lba) :
    ∃ expected, transferBuffer args env hostname call.buf2 call.target = some expected ∧
      miscompares args call.target expected (disk'.read call.target) = false := by
  have whole := expected_block_length hostname large uniform
  have length := lay_length whole call.target.trsiz call.target.lba
  have got : disk'.read call.target = lay (expectedBlock args env hostname) call.target.trsiz call.target.lba := by
    apply lay_congr
    intro i inside
    apply written_blocks hostname large uniform fits ran
    right
    apply covered
    constructor <;> omega
  have cut : compareLength args call.target ≤ call.target.trsiz * blkSize := by
    unfold compareLength
    split <;> omega
  refine ⟨_, transfer_buffer_lay hostname large uniform short.short short.room, ?_⟩
  rw [miscompares, got, List.take_append_of_le_length (by omega)]
  simp

/-- In every pass, two transfers that contain a block have the same data for it, and a read of blocks
that were written in the pass is not reported. -/
theorem expected_data_by_block (args : ChildArgs) (hostname : Vector Byte hostnameSize)
    (single : args.flags.ptyps.isSome) (large : 1 ≤ args.htrsiz) (init : Pass) (passes : List Pass) :
    ∃ env, passEnv args init passes = some env ∧ (∀ call call' : Transfer, call.Fits args → call'.Fits args →
        ∃ out out', transferBuffer args env hostname call.buf2 call.target = some out ∧
          transferBuffer args env hostname call'.buf2 call'.target = some out' ∧
          ∀ i < call.target.trsiz, ∀ j < call'.target.trsiz, call.target.lba + i = call'.target.lba + j →
              tile blkSize out i = tile blkSize out' j ∧ (tile blkSize out i).length = blkSize) ∧
      (∀ (calls : List Transfer) (disk disk' : Disk) (call : Transfer),
        (∀ before ∈ calls, before.Fits args) → call.Fits args →
        Machine.run (writeStep args env hostname) calls disk = some disk' →
        (∀ lba, call.target.covers lba → ∃ before ∈ calls, before.target.covers lba) →
        ∃ expected, transferBuffer args env hostname call.buf2 call.target = some expected ∧
          miscompares args call.target expected (disk'.read call.target) = false) := by
  obtain ⟨env, begun, uniform⟩ := pass_env_uniform single large init passes
  refine ⟨env, begun, ?_, ?_⟩
  · intro call call' fits fits'
    obtain ⟨out, filled, tiles⟩ := transfer_tile hostname large uniform fits
    obtain ⟨out', filled', tiles'⟩ := transfer_tile hostname large uniform fits'
    refine ⟨out, out', filled, filled', ?_⟩
    intro i inside j inside' same
    rw [tiles i inside, tiles' j inside', same]
    exact ⟨rfl, expected_block_length hostname large uniform _⟩
  · intro calls disk disk' call fits short ran covered
    exact no_miscompare hostname large uniform fits short ran covered

def twoBlockArgs : ChildArgs where
  device := { name := [0x2f, 0x64], short := by decide }
  vsiz := 8
  ltrsiz := 1
  htrsiz := 2
  offset := 0
  pattern := 0
  seeks := 8
  startBlk := 0
  stopBlk := 3
  startLba := 0
  stopLba := 7
  flags := { cptype := true, mblk := true, mrkLba := true, mrkTarget := true, w := true, r := true }
  rperc := 50
  wperc := 50
  tKids := 2
  cmpLng := 0
  seed := 1
  altMark := 0

def twoBlocksAt (lba : Int) : Transfer where
  target := { oper := .writer, trsiz := 2, lba }
  buf2 := List.replicate 1024 0

theorem two_blocks_fit (lba : Int) : (twoBlocksAt lba).Fits twoBlockArgs where
  short := Nat.le_refl 2
  room := by
    rw [twoBlocksAt, List.length_replicate]
    exact Nat.le_refl 1024

def namelessHost : Vector Byte hostnameSize :=
  Vector.replicate hostnameSize 0

def zeroPass : Pass where
  time := 0
  rand := fun _ => 0

/-- Two writes side by side; the read takes the second block of one and the first of the other. -/
theorem read_across_writes :
    ∃ env, passEnv twoBlockArgs zeroPass [zeroPass] = some env ∧ ∀ disk disk' : Disk,
      Machine.run (writeStep twoBlockArgs env namelessHost) [twoBlocksAt 0, twoBlocksAt 2] disk = some disk' →
        ∃ expected, transferBuffer twoBlockArgs env namelessHost (twoBlocksAt 1).buf2
            (twoBlocksAt 1).target = some expected ∧
          miscompares twoBlockArgs (twoBlocksAt 1).target expected
            (disk'.read (twoBlocksAt 1).target) = false := by
  obtain ⟨env, begun, _, quiet⟩ := expected_data_by_block twoBlockArgs namelessHost (by decide)
    (by decide) zeroPass [zeroPass]
  refine ⟨env, begun, ?_⟩
  intro disk disk' ran
  apply quiet [twoBlocksAt 0, twoBlocksAt 2] disk disk' (twoBlocksAt 1) _ (two_blocks_fit 1) ran
  · intro lba covered
    obtain ⟨low, high⟩ := covered
    simp only [twoBlocksAt] at low high
    by_cases first : lba < 2
    · refine ⟨twoBlocksAt 0, by simp, ?_, ?_⟩ <;> simp only [twoBlocksAt] <;> omega
    · refine ⟨twoBlocksAt 2, by simp, ?_, ?_⟩ <;> simp only [twoBlocksAt] <;> omega
  · intro before member
    simp only [List.mem_cons, List.not_mem_nil, or_false] at member
    rcases member with rfl | rfl
    · exact two_blocks_fit 0
    · exact two_blocks_fit 2

end disk
end VteDisktest
