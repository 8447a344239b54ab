import Mathlib.Algebra.Order.Ring.Nat
import Mathlib.Data.List.Infix
import Mathlib.Tactic.Common
import Vte.Base.Bytes
import Vte.Base.CInt

/-!
tools/sdimage/sdimage.c: a configuration block and two copies of a firmware, written into the boot stream
partition of an SD card. The calls of the system succeed here.
-/
namespace Sdimage
open Bytes CInt

structure Part where
  filesystem : Byte
  start : Unit32
  count : Unit32
deriving DecidableEq

structure MBR where
  part : Vector Part 4
  sign : BitVec 16
deriving DecidableEq

structure DeviceInfo where
  u32ChipNum : Unit32
  u32DriverType : Unit32
  u32Tag : Unit32
  u32FirstSectorNumber : Unit32
  u32SectorCount : Unit32
deriving DecidableEq

structure ConfigBlock where
  u32Sigature : Unit32
  u32PrimaryBootTag : Unit32
  u32SecondaryBootTags : Unit32
  u32NumCopies : Unit32
  aDriverInfo : Vector DeviceInfo 10
deriving DecidableEq

def DeviceInfo.bytes (info : DeviceInfo) : List Byte :=
  [info.u32ChipNum, info.u32DriverType, info.u32Tag, info.u32FirstSectorNumber, info.u32SectorCount].flatMap unitBytes

def ConfigBlock.bytes (bcb : ConfigBlock) : List Byte :=
  [bcb.u32Sigature, bcb.u32PrimaryBootTag, bcb.u32SecondaryBootTags, bcb.u32NumCopies].flatMap unitBytes ++
    bcb.aDriverInfo.toList.flatMap DeviceInfo.bytes

/-- One `write` to the device, at the place that `lseek` has set. -/
structure Write where
  offset : Nat
  bytes : List Byte
deriving DecidableEq

def Write.covers (w : Write) (p : Nat) : Prop := w.offset ≤ p ∧ p < w.offset + w.bytes.length

inductive Stop where
  /-- `Check MBR signature fail` -/
  | signature (sign : BitVec 16)
  /-- `Can't found boot stream partition` -/
  | noBootStream
  /-- `firmare partition is too small` -/
  | tooSmall
  /-- a signed number of 64 bits does not hold the size that is asked for -/
  | overflow
deriving DecidableEq

structure Image where
  bcb : ConfigBlock
  config : Write
  first : Write
  second : Write
deriving DecidableEq

/-- The first partition whose file system is `'S'`. -/
def bootStream (mbr : MBR) : Option Part := mbr.part.toList.find? (·.filesystem = 83)

/-- `mbr.part[i].count*512 < 2*filestat.st_size+1`: the product is unsigned, the sum is signed. -/
def tooSmall (count : Unit32) (st_size : Nat) : Option Bool := do
  let doubled ← signed 64 (2 * st_size)
  let needed ← signed 64 (doubled + 1)
  some ((count * 512).toNat < needed)

def sectors (st_size : Nat) : Nat := (st_size + 511) / 512

def configBlock (part : Part) (st_size : Nat) : ConfigBlock :=
  let zero : DeviceInfo := ⟨0, 0, 0, 0, 0⟩
  let info0 := { zero with u32Tag := 1, u32FirstSectorNumber := part.start + 1 }
  let info1 :=
    { zero with
      u32Tag := 2
      u32FirstSectorNumber := info0.u32FirstSectorNumber + BitVec.ofNat 32 (sectors st_size) }
  ⟨0x00112233, 1, 2, 2, ((Vector.replicate 10 zero).set 0 info0).set 1 info1⟩

def image (part : Part) (firmware : List Byte) : Image :=
  let bcb := configBlock part firmware.length
  ⟨bcb, ⟨(part.start * 512).toNat, bcb.bytes⟩, ⟨((part.start + 1) * 512).toNat, firmware⟩,
    ⟨(bcb.aDriverInfo[1].u32FirstSectorNumber * 512).toNat, firmware⟩⟩

def checked (small : Option Bool) (part : Part) (im : Image) : Except Stop (Part × Image) :=
  match small with
  | none => .error .overflow
  | some true => .error .tooSmall
  | some false => .ok (part, im)

def main (mbr : MBR) (firmware : List Byte) : Except Stop (Part × Image) :=
  if mbr.sign ≠ 0xAA55 then .error (.signature mbr.sign)
  else
    match bootStream mbr with
    | none => .error .noBootStream
    | some part => checked (tooSmall part.count firmware.length) part (image part firmware)

/-- The configuration block is in the first sector of the partition, and the copies are where it says. -/
structure Announced (part : Part) (im : Image) : Prop where
  config : im.config.offset = 512 * part.start.toNat
  first : im.first.offset = 512 * im.bcb.aDriverInfo[0].u32FirstSectorNumber.toNat
  second : im.second.offset = 512 * im.bcb.aDriverInfo[1].u32FirstSectorNumber.toNat

def Image.writes (im : Image) : List Write := [im.config, im.first, im.second]

def Apart (im : Image) : Prop := im.writes.Pairwise fun w v => ∀ p, ¬ (w.covers p ∧ v.covers p)

def Inside (part : Part) (im : Image) : Prop :=
  ∀ w ∈ im.writes, ∀ p, w.covers p → 512 * part.start.toNat ≤ p ∧ p < 512 * (part.start.toNat + part.count.toNat)

structure Sound (part : Part) (im : Image) : Prop where
  announced : Announced part im
  apart : Apart im
  inside : Inside part im

structure Fits (part : Part) (st_size : Nat) : Prop where
  offsets : 512 * (part.start.toNat + 1 + sectors st_size) < 2 ^ 32
  room : 512 * (1 + sectors st_size) + st_size ≤ 512 * part.count.toNat

theorem info_length (info : DeviceInfo) : info.bytes.length = 20 := rfl

theorem config_length (bcb : ConfigBlock) : bcb.bytes.length = 216 := by
  have infos : (bcb.aDriverInfo.toList.flatMap DeviceInfo.bytes).length = 200 := by
    simp [List.length_flatMap, info_length, List.map_const']
  simp only [ConfigBlock.bytes, List.length_append, infos]
  rfl

theorem bytes_of (sector : Unit32) : (sector * 512).toNat = 512 * sector.toNat % 4294967296 := by
  simp [BitVec.toNat_mul, Nat.mul_comm]

theorem too_small_passes {count : Unit32} {st_size : Nat} (passes : tooSmall count st_size = some false) :
    2 * st_size + 1 ≤ 512 * count.toNat % 4294967296 := by
  simp only [tooSmall, Option.bind_eq_bind, Option.bind_eq_some_iff] at passes
  obtain ⟨doubled, twice, needed, more, answer⟩ := passes
  obtain ⟨rfl, _, _⟩ := signed_some twice
  obtain ⟨rfl, _, _⟩ := signed_some more
  simp only [Option.some.injEq, decide_eq_false_iff_not, bytes_of] at answer
  omega

theorem too_small_some {count : Unit32} {st_size : Nat} (small : 2 * st_size + 1 < 2 ^ 63) :
    tooSmall count st_size = some (decide (512 * count.toNat % 4294967296 < 2 * st_size + 1)) := by
  have twice : signed 64 (2 * st_size) = some (2 * (st_size : Int)) :=
    signed_fits (by omega) (by omega)
  have more : signed 64 (2 * (st_size : Int) + 1) = some (2 * (st_size : Int) + 1) :=
    signed_fits (by omega) (by omega)
  rw [tooSmall, twice, Option.bind_eq_bind, Option.bind_some, more, Option.bind_some, bytes_of]
  simp only [Option.some.injEq, decide_eq_decide]
  omega

theorem checked_ok {small : Option Bool} {boot part : Part} {written im : Image}
    (passed : checked small boot written = .ok (part, im)) :
    small = some false ∧ boot = part ∧ written = im := by
  match small, passed with
  | some false, passed =>
    obtain ⟨same, image⟩ := Prod.mk.inj (Except.ok.inj passed)
    exact ⟨rfl, same, image⟩

theorem main_ok {mbr : MBR} {firmware : List Byte} {part : Part} {im : Image}
    (passed : main mbr firmware = .ok (part, im)) :
    bootStream mbr = some part ∧ tooSmall part.count firmware.length = some false ∧ im = image part firmware := by
  rw [main] at passed
  by_cases sign : mbr.sign = 0xAA55
  · rw [if_neg (not_not.mpr sign)] at passed
    cases found : bootStream mbr with
    | none => simp only [found, reduceCtorEq] at passed
    | some boot =>
      simp only [found] at passed
      obtain ⟨check, rfl, written⟩ := checked_ok passed
      exact ⟨rfl, check, written.symm⟩
  · rw [if_pos sign] at passed
    cases passed

section layout
variable (part : Part) (firmware : List Byte)

theorem first_sector : (image part firmware).bcb.aDriverInfo[0].u32FirstSectorNumber.toNat =
    (part.start.toNat + 1) % 4294967296 := by
  simp [image, configBlock]

theorem second_sector : (image part firmware).bcb.aDriverInfo[1].u32FirstSectorNumber.toNat =
    (part.start.toNat + 1 + sectors firmware.length) % 4294967296 := by
  simp [image, configBlock]

theorem config_offset :
    (image part firmware).config.offset = 512 * part.start.toNat % 4294967296 :=
  bytes_of part.start

theorem first_offset : (image part firmware).first.offset =
    512 * ((part.start.toNat + 1) % 4294967296) % 4294967296 := by
  rw [← first_sector part firmware, ← bytes_of]
  simp [image, configBlock]

theorem second_offset : (image part firmware).second.offset =
    512 * ((part.start.toNat + 1 + sectors firmware.length) % 4294967296) % 4294967296 := by
  rw [← second_sector part firmware, ← bytes_of]
  rfl

theorem announced_iff (small : sectors firmware.length ≤ 4194304) :
    Announced part (image part firmware) ↔ 512 * (part.start.toNat + 1 + sectors firmware.length) < 2 ^ 32 := by
  have start := part.start.isLt
  constructor
  · rintro ⟨config, first, second⟩
    rw [config_offset] at config
    rw [first_offset, first_sector] at first
    rw [second_offset, second_sector] at second
    omega
  · intro offsets
    refine ⟨?_, ?_, ?_⟩
    · rw [config_offset]
      omega
    · rw [first_offset, first_sector]
      omega
    · rw [second_offset, second_sector]
      omega

theorem apart_announced (announced : Announced part (image part firmware))
    (offsets : 512 * (part.start.toNat + 1 + sectors firmware.length) < 2 ^ 32) :
    Apart (image part firmware) := by
  obtain ⟨config, first, second⟩ := announced
  rw [first_sector] at first
  rw [second_sector] at second
  have size : (image part firmware).config.bytes.length = 216 := config_length _
  have copies : (image part firmware).first.bytes = firmware ∧
      (image part firmware).second.bytes = firmware := ⟨rfl, rfl⟩
  simp only [Apart, Image.writes, List.pairwise_cons, List.mem_cons, List.not_mem_nil, or_false,
    forall_eq_or_imp, forall_eq, Write.covers, size, copies.1, copies.2, config, first, second]
  refine ⟨⟨fun p both => ?_, fun p both => ?_⟩, fun p both => ?_, by simp⟩
  · omega
  · omega
  · simp only [sectors] at both offsets
    omega

theorem inside_announced (announced : Announced part (image part firmware))
    (offsets : 512 * (part.start.toNat + 1 + sectors firmware.length) < 2 ^ 32)
    (some_room : 0 < part.count.toNat) :
    Inside part (image part firmware) ↔
      512 * (1 + sectors firmware.length) + firmware.length ≤ 512 * part.count.toNat := by
  obtain ⟨config, first, second⟩ := announced
  rw [first_sector] at first
  rw [second_sector] at second
  have size : (image part firmware).config.bytes.length = 216 := config_length _
  have copies : (image part firmware).first.bytes = firmware ∧
      (image part firmware).second.bytes = firmware := ⟨rfl, rfl⟩
  simp only [Inside, Image.writes, List.mem_cons, List.not_mem_nil, or_false, forall_eq_or_imp,
    forall_eq, Write.covers, size, copies.1, copies.2, config, first, second]
  constructor
  · rintro ⟨_, _, last⟩
    by_cases empty : firmware.length = 0
    · simp only [sectors, empty]
      omega
    · -- the last byte of the second copy
      have end_byte := last (512 * ((part.start.toNat + 1 + sectors firmware.length) % 4294967296) +
        (firmware.length - 1)) ⟨by omega, by omega⟩
      omega
  · intro room
    refine ⟨fun p covers => ?_, fun p covers => ?_, fun p covers => ?_⟩
    · omega
    · simp only [sectors] at room offsets
      omega
    · omega

theorem sound_iff (small : sectors firmware.length ≤ 4194304) (some_room : 0 < part.count.toNat) :
    Sound part (image part firmware) ↔ Fits part firmware.length := by
  constructor
  · rintro ⟨announced, _, inside⟩
    have offsets := (announced_iff part firmware small).mp announced
    exact ⟨offsets, (inside_announced part firmware announced offsets some_room).mp inside⟩
  · rintro ⟨offsets, room⟩
    have announced := (announced_iff part firmware small).mpr offsets
    exact ⟨announced, apart_announced part firmware announced offsets,
      (inside_announced part firmware announced offsets some_room).mpr room⟩

end layout

/-- A firmware that passes the check is laid out as the configuration block says, without overlap and inside
the partition, exactly when no offset wraps around and the rounded sizes fit. -/
theorem layout_sound_iff (mbr : MBR) (firmware : List Byte) (part : Part) (im : Image)
    (passed : main mbr firmware = .ok (part, im)) : Sound part im ↔ Fits part firmware.length := by
  obtain ⟨_, check, rfl⟩ := main_ok passed
  have room := too_small_passes check
  have small : sectors firmware.length ≤ 4194304 := by
    simp only [sectors]
    omega
  exact sound_iff part firmware small (by omega)

/-- A boot stream partition of `count` sectors in the first entry of the table. -/
def oneBootStream (start count : Unit32) : MBR :=
  ⟨#v[⟨83, start, count⟩, ⟨0, 0, 0⟩, ⟨0, 0, 0⟩, ⟨0, 0, 0⟩], 0xAA55⟩

theorem main_one {start count : Unit32} {firmware : List Byte}
    (small : 2 * firmware.length + 1 < 2 ^ 63)
    (room : 2 * firmware.length + 1 ≤ 512 * count.toNat % 4294967296) :
    main (oneBootStream start count) firmware = .ok (⟨83, start, count⟩, image ⟨83, start, count⟩ firmware) := by
  have check : tooSmall count firmware.length = some false := by
    rw [too_small_some small, Option.some.injEq, decide_eq_false_iff_not]
    omega
  have found : bootStream (oneBootStream start count) = some ⟨83, start, count⟩ := by
    simp [bootStream, oneBootStream]
  have signed_right : (oneBootStream start count).sign = 0xAA55 := rfl
  rw [main, if_neg (not_not.mpr signed_right), found]
  simp only [check]
  rfl

theorem layout_sound_iff_one_byte :
    Sound ⟨83, 1, 4⟩ (image ⟨83, 1, 4⟩ [0]) ↔ Fits ⟨83, 1, 4⟩ 1 :=
  layout_sound_iff (oneBootStream 1 4) [0] ⟨83, 1, 4⟩ (image ⟨83, 1, 4⟩ [0])
    (main_one (by decide) (by decide))

/-- A firmware of 767 bytes passes the check of a partition of three sectors, and the second copy starts
behind the partition. -/
theorem three_sectors_overrun :
    ¬ ∀ (mbr : MBR) (firmware : List Byte) (part : Part) (im : Image),
      main mbr firmware = .ok (part, im) → Sound part im := by
  intro all
  obtain ⟨firmware, size⟩ : ∃ firmware : List Byte, firmware.length = 767 :=
    ⟨List.replicate 767 0, List.length_replicate⟩
  have three : (3 : Unit32).toNat = 3 := rfl
  have sound := all (oneBootStream 1 3) firmware ⟨83, 1, 3⟩ _
    (main_one (by omega) (by omega))
  have fits := (sound_iff ⟨83, 1, 3⟩ firmware (by simp only [sectors]; omega) (by decide)).mp sound
  have room := fits.room
  simp only [sectors, size, three] at room
  omega

end Sdimage
