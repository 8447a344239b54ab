import Vte.Lib.WriteLog

/-!
The record codec of the write log: what `wlog_rec_pack` lays out, and that
`wlog_rec_unpack` reads the same fields back from any buffer that starts with it.
-/
namespace VteWriteLog
open Bytes

theorem disk_of_bytes (d : WlogRecDisk) (rest : List Byte) :
    WlogRecDisk.ofBytes (d.toBytes ++ rest) = d := by
  have first := unit_at_bytes
  have next := fun (u : Unit32) (bs : List Byte) (i : Nat) => unit_at_append (unitBytes u) bs i
  simp only [unit_bytes_length] at next
  simp only [WlogRecDisk.ofBytes, WlogRecDisk.toBytes, List.append_assoc]
  rw [show 24 = 4 + (4 + (4 + (4 + (4 + (4 + 0))))) from rfl,
    show 20 = 4 + (4 + (4 + (4 + (4 + 0)))) from rfl, show 16 = 4 + (4 + (4 + (4 + 0))) from rfl,
    show 12 = 4 + (4 + (4 + 0)) from rfl, show 8 = 4 + (4 + 0) from rfl,
    show unitAt _ 4 = unitAt _ (4 + 0) from rfl]
  simp only [next, first]

@[simp] theorem disk_bytes_length (d : WlogRecDisk) : d.toBytes.length = sizeofWlogRecDisk := rfl

section fixedFields
variable (r : WlogRec) (d : WlogRecDisk)

@[simp] theorem packed_pid : (packFixed r d).wPid = r.wPid.setWidth 17 := by
  simp only [WlogRecDisk.wPid, packFixed]
  rw [field_get_set_apart pidField patternlenField (Or.inl (by decide)),
    field_get_set_apart pidField pathlenField (Or.inl (by decide)), field_get_set]

@[simp] theorem packed_pathlen :
    (packFixed r d).wPathlen = (positiveOrZero r.wPathlen).setWidth 7 := by
  simp only [WlogRecDisk.wPathlen, packFixed]
  rw [field_get_set_apart pathlenField patternlenField (Or.inl (by decide)), field_get_set]

@[simp] theorem packed_patternlen :
    (packFixed r d).wPatternlen = (positiveOrZero r.wPatternlen).setWidth 6 :=
  field_get_set patternlenField _ _

@[simp] theorem packed_hostlen :
    (packFixed r d).wHostlen = (positiveOrZero r.wHostlen).setWidth 4 :=
  field_get_set hostlenField _ _

@[simp] theorem packed_done : (packFixed r d).wDone = r.wDone.setWidth 1 := by
  simp only [WlogRecDisk.wDone, packFixed]
  rw [field_get_set_apart doneField hostlenField (Or.inr (by decide)),
    field_get_set_apart doneField asyncField (Or.inl (by decide)), field_get_set]

@[simp] theorem packed_async : (packFixed r d).wAsync = r.wAsync.setWidth 1 := by
  simp only [WlogRecDisk.wAsync, packFixed]
  rw [field_get_set_apart asyncField hostlenField (Or.inr (by decide)), field_get_set]

end fixedFields

def varBytes (wrec : WlogRec) (d : WlogRecDisk) : List Byte :=
  wrec.wPath.toList.take d.wPathlen.toNat ++ wrec.wHost.toList.take d.wHostlen.toNat ++
    wrec.wPattern.toList.take d.wPatternlen.toNat

def varLength (d : WlogRecDisk) : Nat :=
  d.wPathlen.toNat + d.wHostlen.toNat + d.wPatternlen.toNat

theorem path_in_array (d : WlogRecDisk) : d.wPathlen.toNat ≤ wlogMaxPath := by
  have := d.wPathlen.isLt
  simp only [wlogMaxPath]
  omega

theorem pattern_in_array (d : WlogRecDisk) : d.wPatternlen.toNat ≤ wlogMaxPattern := by
  have := d.wPatternlen.isLt
  simp only [wlogMaxPattern]
  omega

theorem var_bytes_length (wrec : WlogRec) (d : WlogRecDisk)
    (host : d.wHostlen.toNat ≤ wlogMaxHost + 1) :
    (varBytes wrec d).length = varLength d := by
  have path := path_in_array d
  have pattern := pattern_in_array d
  simp only [varBytes, varLength, List.length_append, List.length_take, Vector.length_toList]
  omega

theorem var_length_bound (d : WlogRecDisk) (host : d.wHostlen.toNat ≤ wlogMaxHost + 1) :
    sizeofWlogRecDisk + varLength d ≤ wlogRecMaxSize := by
  have path := path_in_array d
  have pattern := pattern_in_array d
  simp only [varLength, sizeofWlogRecDisk, wlogRecMaxSize, sizeofWlogRec, wlogMaxPath, wlogMaxPattern, wlogMaxHost] at *
  omega

theorem pack_layout (wrec : WlogRec) (buf : List Byte) (room : wlogRecMaxSize ≤ buf.length)
    (host : (packFixed wrec (WlogRecDisk.ofBytes buf)).wHostlen.toNat ≤ wlogMaxHost + 1) :
    let d := packFixed wrec (WlogRecDisk.ofBytes buf)
    wlogRecPack wrec buf true = some (d.toBytes ++ varBytes wrec d ++
      buf.drop (sizeofWlogRecDisk + varLength d), sizeofWlogRecDisk + varLength d) := by
  intro d
  have path := path_in_array d
  have pattern := pattern_in_array d
  have total := var_length_bound d host
  simp only [varLength] at total
  have fixed : memcpy buf 0 d.toBytes sizeofWlogRecDisk = some (d.toBytes ++ buf.drop sizeofWlogRecDisk) := by
    have copied := memcpy_append [] buf d.toBytes sizeofWlogRecDisk (by simp) (by omega)
    simpa [List.take_of_length_le (Nat.le_of_eq (disk_bytes_length d))] using copied
  have first := memcpy_append d.toBytes (buf.drop sizeofWlogRecDisk) wrec.wPath.toList
    d.wPathlen.toNat (by simp; omega) (by simp; omega)
  have second := memcpy_append (d.toBytes ++ wrec.wPath.toList.take d.wPathlen.toNat)
    (buf.drop (sizeofWlogRecDisk + d.wPathlen.toNat)) wrec.wHost.toList d.wHostlen.toNat
    (by simpa only [Vector.length_toList] using host) (by simp; omega)
  have third := memcpy_append (d.toBytes ++ wrec.wPath.toList.take d.wPathlen.toNat ++
      wrec.wHost.toList.take d.wHostlen.toNat)
    (buf.drop (sizeofWlogRecDisk + d.wPathlen.toNat + d.wHostlen.toNat)) wrec.wPattern.toList
    d.wPatternlen.toNat (by simp; omega) (by simp; omega)
  have pathTaken : (wrec.wPath.toList.take d.wPathlen.toNat).length = d.wPathlen.toNat := by
    simp; omega
  have hostTaken : (wrec.wHost.toList.take d.wHostlen.toNat).length = d.wHostlen.toNat := by
    simpa only [List.length_take, Vector.length_toList] using Nat.min_eq_left host
  simp only [List.length_append, disk_bytes_length, pathTaken, hostTaken, List.drop_drop]
    at first second third
  simp only [wlogRecPack, ↓reduceIte, Option.bind_eq_bind, Option.pure_def]
  change (memcpy buf 0 d.toBytes sizeofWlogRecDisk).bind _ = _
  rw [fixed]
  change (memcpy _ _ _ d.wPathlen.toNat).bind _ = _
  rw [first]
  change (memcpy _ (sizeofWlogRecDisk + d.wPathlen.toNat) _ d.wHostlen.toNat).bind _ = _
  rw [second]
  change (memcpy _ (sizeofWlogRecDisk + d.wPathlen.toNat + d.wHostlen.toNat) _
    d.wPatternlen.toNat).bind _ = _
  rw [third]
  simp [varBytes, varLength, Nat.add_assoc, d]

theorem pack_overlay_layout (wrec : WlogRec) (buf : List Byte)
    (room : sizeofWlogRecDisk ≤ buf.length) :
    wlogRecPack wrec buf false =
      some ((packFixed wrec (WlogRecDisk.ofBytes buf)).toBytes ++ buf.drop sizeofWlogRecDisk, sizeofWlogRecDisk) := by
  have copied := memcpy_append [] buf (packFixed wrec (WlogRecDisk.ofBytes buf)).toBytes
    sizeofWlogRecDisk (by simp) room
  simp only [List.nil_append, List.length_nil] at copied
  simp [wlogRecPack, copied, List.take_of_length_le (Nat.le_of_eq (disk_bytes_length _))]

/-- The fixed part `d` holds the fields of `r`, each reduced to its declared width. -/
structure Holds (d : WlogRecDisk) (r : WlogRec) : Prop where
  pid : d.wPid = r.wPid.setWidth 17
  offset : d.offset = r.wOffset
  nbytes : d.nbytes = r.wNbytes
  oflags : d.oflags = r.wOflags
  done : d.wDone = r.wDone.setWidth 1
  async : d.wAsync = r.wAsync.setWidth 1
  pathlen : d.wPathlen = (positiveOrZero r.wPathlen).setWidth 7
  hostlen : d.wHostlen = (positiveOrZero r.wHostlen).setWidth 4
  patternlen : d.wPatternlen = (positiveOrZero r.wPatternlen).setWidth 6

theorem packed_holds (r : WlogRec) (d : WlogRecDisk) : Holds (packFixed r d) r :=
  ⟨packed_pid r d, rfl, rfl, rfl, packed_done r d, packed_async r d, packed_pathlen r d,
    packed_hostlen r d, packed_patternlen r d⟩

/-- The variable lengths fit the header's length fields and the host fits its array. -/
structure LengthsFit (r : WlogRec) : Prop where
  path : r.wPathlen.toNat < 2 ^ 7
  host : r.wHostlen.toNat ≤ wlogMaxHost + 1
  pattern : r.wPatternlen.toNat < 2 ^ 6

theorem positive_or_zero_small {len : CInt} (small : len.toNat < 2 ^ 31) :
    positiveOrZero len = len := by
  unfold positiveOrZero
  split
  · rfl
  · rename_i no
    have zero : len.toNat = 0 := by
      rw [BitVec.toInt_eq_toNat_of_lt (by omega)] at no
      omega
    exact (BitVec.eq_of_toNat_eq zero).symm

theorem length_field {len : CInt} {w : Nat} (narrow : w ≤ 31) (fits : len.toNat < 2 ^ w) :
    ((positiveOrZero len).setWidth w).toNat = len.toNat := by
  have small : len.toNat < 2 ^ 31 := Nat.lt_of_lt_of_le fits (Nat.pow_le_pow_right (by decide) narrow)
  rw [positive_or_zero_small small, BitVec.toNat_setWidth, Nat.mod_eq_of_lt fits]

theorem widened_length {len : CInt} {w : Nat} (narrow : w ≤ 31) (fits : len.toNat < 2 ^ w) :
    ((positiveOrZero len).setWidth w).setWidth 32 = len := by
  apply BitVec.eq_of_toNat_eq
  rw [BitVec.toNat_setWidth, length_field narrow fits, Nat.mod_eq_of_lt len.isLt]

theorem LengthsFit.host_narrow {r : WlogRec} (fit : LengthsFit r) : r.wHostlen.toNat < 2 ^ 4 := by
  have host := fit.host
  simp only [wlogMaxHost] at host
  omega

section lengths
variable {d : WlogRecDisk} {r : WlogRec} (holds : Holds d r) (fit : LengthsFit r)
include holds fit

theorem held_pathlen : d.wPathlen.toNat = r.wPathlen.toNat := by
  rw [holds.pathlen, length_field (by decide) fit.path]

theorem held_hostlen : d.wHostlen.toNat = r.wHostlen.toNat := by
  rw [holds.hostlen, length_field (by decide) fit.host_narrow]

theorem held_patternlen : d.wPatternlen.toNat = r.wPatternlen.toNat := by
  rw [holds.patternlen, length_field (by decide) fit.pattern]

end lengths

/-- What a record reads back as: the narrow fields reduced, everything else as written. -/
structure ReadsBack (r out : WlogRec) : Prop where
  pid : out.wPid = (r.wPid.setWidth 17).setWidth 32
  offset : out.wOffset = r.wOffset
  nbytes : out.wNbytes = r.wNbytes
  oflags : out.wOflags = r.wOflags
  done : out.wDone = (r.wDone.setWidth 1).setWidth 32
  async : out.wAsync = (r.wAsync.setWidth 1).setWidth 32
  pathlen : out.wPathlen = r.wPathlen
  path : out.wPath.toList.take r.wPathlen.toNat = r.wPath.toList.take r.wPathlen.toNat
  hostlen : out.wHostlen = r.wHostlen
  host : out.wHost.toList.take r.wHostlen.toNat = r.wHost.toList.take r.wHostlen.toNat
  patternlen : out.wPatternlen = r.wPatternlen
  pattern : out.wPattern.toList.take r.wPatternlen.toNat = r.wPattern.toList.take r.wPatternlen.toNat

theorem unpack_layout {d : WlogRecDisk} {r : WlogRec} (holds : Holds d r) (fit : LengthsFit r) :
    ∃ out, (∀ rest, wlogRecUnpack (d.toBytes ++ varBytes r d ++ rest) = some out) ∧ ReadsBack r out := by
  have host := fit.host
  have heldPath := held_pathlen holds fit
  have heldHost := held_hostlen holds fit
  have heldPattern := held_patternlen holds fit
  have pathIn := path_in_array d
  have patternIn := pattern_in_array d
  let path := r.wPath.toList.take d.wPathlen.toNat
  let hostName := r.wHost.toList.take d.wHostlen.toNat
  let pattern := r.wPattern.toList.take d.wPatternlen.toNat
  have pathTaken : path.length = d.wPathlen.toNat := by simp [path]; omega
  have hostTaken : hostName.length = d.wHostlen.toNat := by simp [hostName]; omega
  have patternTaken : pattern.length = d.wPatternlen.toNat := by simp [pattern]; omega
  obtain ⟨outPath, copiedPath⟩ : ∃ out, zeroedCopy (wlogMaxPath + 1) path d.wPathlen.toNat = some out :=
    zeroed_copy_isSome (by omega) (Nat.le_of_eq pathTaken.symm)
  obtain ⟨outHost, copiedHost⟩ : ∃ out, zeroedCopy (wlogMaxHost + 1) hostName d.wHostlen.toNat = some out :=
    zeroed_copy_isSome (by omega) (Nat.le_of_eq hostTaken.symm)
  obtain ⟨outPattern, copiedPattern⟩ : ∃ out, zeroedCopy (wlogMaxPattern + 1) pattern d.wPatternlen.toNat = some out :=
    zeroed_copy_isSome (by omega) (Nat.le_of_eq patternTaken.symm)
  have sawPath := zeroed_copy_take copiedPath
  have sawHost := zeroed_copy_take copiedHost
  have sawPattern := zeroed_copy_take copiedPattern
  refine ⟨unpackFixed d outHost outPath outPattern, ?_, ?_⟩
  · intro rest
    have bytes : d.toBytes ++ varBytes r d ++ rest = d.toBytes ++ (path ++ (hostName ++ (pattern ++ rest))) := by
      simp [varBytes, path, hostName, pattern]
    have atPath : (d.toBytes ++ varBytes r d ++ rest).drop sizeofWlogRecDisk =
        path ++ (hostName ++ (pattern ++ rest)) := by
      rw [bytes, ← disk_bytes_length d, List.drop_left]
    have atHost : (d.toBytes ++ varBytes r d ++ rest).drop
        (sizeofWlogRecDisk + d.wPathlen.toNat) = hostName ++ (pattern ++ rest) := by
      rw [← List.drop_drop, atPath, ← pathTaken, List.drop_left]
    have atPattern : (d.toBytes ++ varBytes r d ++ rest).drop
        (sizeofWlogRecDisk + d.wPathlen.toNat + d.wHostlen.toNat) = pattern ++ rest := by
      rw [← List.drop_drop, atHost, ← hostTaken, List.drop_left]
    have read : WlogRecDisk.ofBytes (d.toBytes ++ varBytes r d ++ rest) = d := by
      rw [bytes, disk_of_bytes]
    simp only [wlogRecUnpack, read, atPath, atHost, atPattern, zeroed_copy_append _ pathTaken,
      zeroed_copy_append _ hostTaken, zeroed_copy_append _ patternTaken, copiedPath, copiedHost,
      copiedPattern, Option.bind_eq_bind, Option.bind_some, Option.pure_def]
  constructor
  case pid => simp only [unpackFixed, holds.pid]
  case offset => exact holds.offset
  case nbytes => exact holds.nbytes
  case oflags => exact holds.oflags
  case done => simp only [unpackFixed, holds.done]
  case async => simp only [unpackFixed, holds.async]
  case pathlen => simp only [unpackFixed, holds.pathlen, widened_length (by decide : 7 ≤ 31) fit.path]
  case path => simpa [unpackFixed, path, List.take_take, heldPath] using sawPath
  case hostlen =>
    simp only [unpackFixed, holds.hostlen, widened_length (by decide : 4 ≤ 31) fit.host_narrow]
  case host => simpa [unpackFixed, hostName, List.take_take, heldHost] using sawHost
  case patternlen =>
    simp only [unpackFixed, holds.patternlen, widened_length (by decide : 6 ≤ 31) fit.pattern]
  case pattern => simpa [unpackFixed, pattern, List.take_take, heldPattern] using sawPattern

structure Declared (r : WlogRec) : Prop where
  path : r.wPathlen.toNat ≤ wlogMaxPath
  host : r.wHostlen.toNat ≤ wlogMaxHost
  pattern : r.wPatternlen.toNat ≤ wlogMaxPattern
  pid : r.wPid.toNat < 2 ^ 17
  done : r.wDone.toNat < 2
  async : r.wAsync.toNat < 2

structure SameRecord (r out : WlogRec) : Prop where
  pid : out.wPid = r.wPid
  offset : out.wOffset = r.wOffset
  nbytes : out.wNbytes = r.wNbytes
  oflags : out.wOflags = r.wOflags
  done : out.wDone = r.wDone
  async : out.wAsync = r.wAsync
  pathlen : out.wPathlen = r.wPathlen
  path : out.wPath.toList.take r.wPathlen.toNat = r.wPath.toList.take r.wPathlen.toNat
  hostlen : out.wHostlen = r.wHostlen
  host : out.wHost.toList.take r.wHostlen.toNat = r.wHost.toList.take r.wHostlen.toNat
  patternlen : out.wPatternlen = r.wPatternlen
  pattern : out.wPattern.toList.take r.wPatternlen.toNat = r.wPattern.toList.take r.wPatternlen.toNat

theorem truncate_widen {x : CInt} {w : Nat} (fits : x.toNat < 2 ^ w) :
    (x.setWidth w).setWidth 32 = x := by
  apply BitVec.eq_of_toNat_eq
  rw [BitVec.toNat_setWidth, BitVec.toNat_setWidth, Nat.mod_eq_of_lt fits, Nat.mod_eq_of_lt x.isLt]

theorem ReadsBack.same {r out : WlogRec} (back : ReadsBack r out) (declared : Declared r) :
    SameRecord r out where
  pid := back.pid.trans (truncate_widen declared.pid)
  offset := back.offset
  nbytes := back.nbytes
  oflags := back.oflags
  done := back.done.trans (truncate_widen declared.done)
  async := back.async.trans (truncate_widen declared.async)
  pathlen := back.pathlen
  path := back.path
  hostlen := back.hostlen
  host := back.host
  patternlen := back.patternlen
  pattern := back.pattern

def RoundTrips (r : WlogRec) (buf : WriteBuf) : Prop :=
  ∃ out len got, wlogRecPack r buf.toList true = some (out, len) ∧ wlogRecUnpack out = some got ∧ SameRecord r got

def OverlayKeepsRest (r : WlogRec) (buf : WriteBuf) : Prop :=
  ∃ out, wlogRecPack r buf.toList false = some (out, sizeofWlogRecDisk) ∧ out.length = buf.toList.length ∧
    out.drop sizeofWlogRecDisk = buf.toList.drop sizeofWlogRecDisk

theorem overlay_keeps_rest (r : WlogRec) (buf : WriteBuf) : OverlayKeepsRest r buf := by
  have room : sizeofWlogRecDisk ≤ buf.toList.length := by
    rw [Vector.length_toList]
    decide
  refine ⟨_, pack_overlay_layout r buf.toList room, ?_, ?_⟩
  · simp only [List.length_append, disk_bytes_length, List.length_drop]
    omega
  · rw [← disk_bytes_length (packFixed r (WlogRecDisk.ofBytes buf.toList)), List.drop_left]

theorem fitting_round_trips {r : WlogRec} (declared : Declared r) (fit : LengthsFit r)
    (buf : WriteBuf) : RoundTrips r buf := by
  have holds := packed_holds r (WlogRecDisk.ofBytes buf.toList)
  have hostHeld := held_hostlen holds fit
  have host : (packFixed r (WlogRecDisk.ofBytes buf.toList)).wHostlen.toNat ≤ wlogMaxHost + 1 := by
    rw [hostHeld]
    exact fit.host
  have room : wlogRecMaxSize ≤ buf.toList.length := by
    rw [Vector.length_toList]
    exact Nat.le_add_right _ _
  obtain ⟨got, unpacked, back⟩ := unpack_layout holds fit
  exact ⟨_, _, got, pack_layout r buf.toList room host, unpacked _, back.same declared⟩

theorem unpacked_lengths {bs : List Byte} {got : WlogRec} (read : wlogRecUnpack bs = some got) :
    got.wPathlen.toNat < 2 ^ 7 ∧ got.wPatternlen.toNat < 2 ^ 6 := by
  simp only [wlogRecUnpack, Option.bind_eq_bind, Option.pure_def, Option.bind_eq_some_iff, Option.some.injEq] at read
  obtain ⟨path, _, host, _, pattern, _, rfl⟩ := read
  have short := (WlogRecDisk.ofBytes bs).wPathlen.isLt
  have shortPattern := (WlogRecDisk.ofBytes bs).wPatternlen.isLt
  simp only [unpackFixed, BitVec.toNat_setWidth]
  omega

theorem round_trip_lengths {r : WlogRec} {buf : WriteBuf} (round : RoundTrips r buf) :
    r.wPathlen.toNat < 2 ^ 7 ∧ r.wPatternlen.toNat < 2 ^ 6 := by
  obtain ⟨out, len, got, _, read, same⟩ := round
  rw [← same.pathlen, ← same.patternlen]
  exact unpacked_lengths read

/-- The codec is exact up to path 127 and pattern 63; the declared maxima are one more. -/
theorem codec_exact_iff (r : WlogRec) (declared : Declared r) (buf : WriteBuf) :
    (RoundTrips r buf ∧ OverlayKeepsRest r buf) ↔ r.wPathlen.toNat < 2 ^ 7 ∧ r.wPatternlen.toNat < 2 ^ 6 := by
  constructor
  · rintro ⟨round, _⟩
    exact round_trip_lengths round
  · rintro ⟨path, pattern⟩
    have host := declared.host
    exact ⟨fitting_round_trips declared ⟨path, by omega, pattern⟩ buf, overlay_keeps_rest r buf⟩

def blankRec : WlogRec where
  wPid := 0
  wOffset := 0
  wNbytes := 0
  wOflags := 0
  wDone := 0
  wAsync := 0
  wHost := Vector.replicate _ 0
  wHostlen := 0
  wPath := Vector.replicate _ 0
  wPathlen := 0
  wPattern := Vector.replicate _ 0
  wPatternlen := 0

def blankBuf : WriteBuf := Vector.replicate _ 0

theorem blank_rec_declared : Declared blankRec :=
  ⟨by decide, by decide, by decide, by decide, by decide, by decide⟩

theorem blank_rec_codec_exact :
    (RoundTrips blankRec blankBuf ∧ OverlayKeepsRest blankRec blankBuf) ↔
      blankRec.wPathlen.toNat < 2 ^ 7 ∧ blankRec.wPatternlen.toNat < 2 ^ 6 :=
  codec_exact_iff blankRec blank_rec_declared blankBuf

/-- A path of exactly `WLOG_MAX_PATH` bytes, every byte `a`. -/
def longPathRec : WlogRec :=
  { blankRec with wPath := Vector.replicate _ 97, wPathlen := 128 }

theorem longest_path_not_read_back :
    ¬ ∀ r : WlogRec, Declared r → ∀ buf : WriteBuf, RoundTrips r buf ∧ OverlayKeepsRest r buf := by
  intro claim
  have declared : Declared longPathRec :=
    ⟨by decide, by decide, by decide, by decide, by decide, by decide⟩
  have short := (round_trip_lengths (claim longPathRec declared blankBuf).1).1
  exact absurd short (by decide)

end VteWriteLog
