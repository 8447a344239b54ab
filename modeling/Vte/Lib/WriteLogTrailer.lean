import Vte.Lib.WriteLogTrace

/-!
The two bytes of its length behind an appended record, and what a backward scan decodes from them.
-/
namespace VteWriteLog
open Bytes

/-- The length of a record in the log, without its trailer: each string counts as far as its length
    field holds it. -/
def recordLength (wrec : WlogRec) : Nat :=
  sizeofWlogRecDisk + ((positiveOrZero wrec.wPathlen).setWidth 7).toNat +
    ((positiveOrZero wrec.wHostlen).setWidth 4).toNat +
    ((positiveOrZero wrec.wPatternlen).setWidth 6).toNat

/-- `wlog_record_write` can append the record to some log. -/
def Appendable (wrec : WlogRec) : Prop :=
  ∃ log wbuf offset, offset < 0 ∧ (wlogRecordWrite log wbuf wrec offset).isSome

section write
variable {wrec : WlogRec}

theorem record_length_eq (wrec : WlogRec) (d : WlogRecDisk) :
    sizeofWlogRecDisk + varLength (packFixed wrec d) = recordLength wrec := by
  rw [varLength, packed_pathlen, packed_hostlen, packed_patternlen, recordLength]
  omega

theorem host_of_append (able : Appendable wrec) (d : WlogRecDisk) :
    (packFixed wrec d).wHostlen.toNat ≤ wlogMaxHost + 1 := by
  obtain ⟨log, wbuf, offset, new, wrote⟩ := able
  obtain ⟨result, wrote⟩ := Option.isSome_iff_exists.mp wrote
  simp only [wlogRecordWrite, wlogRecPack, new, decide_true, ↓reduceIte, Option.bind_eq_bind,
    Option.bind_eq_some_iff, memcpy, Option.ite_none_right_eq_some, packed_hostlen,
    Vector.length_toList] at wrote
  obtain ⟨_, ⟨_, _, _, _, _, ⟨⟨inside, _⟩, _⟩, _⟩, _⟩ := wrote
  rw [packed_hostlen]
  exact inside

theorem record_length_small (able : Appendable wrec) : recordLength wrec ≤ wlogRecMaxSize := by
  let d : WlogRecDisk := ⟨0, 0, 0, 0, 0, 0, 0⟩
  rw [← record_length_eq wrec d]
  exact var_length_bound (packFixed wrec d) (host_of_append able d)

theorem appendable_of_fit (fit : LengthsFit wrec) : Appendable wrec := by
  obtain ⟨e, _, wrote⟩ := write_append fit (by decide : (-1 : Int) < 0) [] blankBuf
  exact ⟨[], blankBuf, -1, by decide, by rw [wrote]; rfl⟩

theorem append_layout (able : Appendable wrec) {offset : Int} (new : offset < 0) (log : List Byte)
    (wbuf : WriteBuf) : ∃ body, body.length = recordLength wrec ∧ wlogRecordWrite log wbuf wrec offset =
        some (log ++ (body ++ trailer (recordLength wrec)), toCInt log.length) := by
  have host := host_of_append able (WlogRecDisk.ofBytes wbuf.toList)
  have written := write_layout wrec new log wbuf host
  have size : ((packFixed wrec (WlogRecDisk.ofBytes wbuf.toList)).toBytes ++
      varBytes wrec (packFixed wrec (WlogRecDisk.ofBytes wbuf.toList))).length = recordLength wrec := by
    rw [List.length_append, disk_bytes_length, var_bytes_length _ _ host, record_length_eq]
  dsimp only at written
  rw [size] at written
  exact ⟨_, size, written⟩

end write

def DecodesTrailer (signedChar : Bool) (wrec : WlogRec) : Prop :=
  ∀ (log : List Byte) (wbuf : WriteBuf) (offset : Int) (log' : List Byte) (returned : Int),
    offset < 0 → wlogRecordWrite log wbuf wrec offset = some (log', returned) →
    ∀ (σ : Type) (nrecs : Int) (func : σ → WlogRec → σ × Int) (later : List Byte) (fuel : Nat)
      (albuf : Vector Byte wlogRecMaxSize) (s : σ) (reclen : Int),
      .decode log'.length reclen ∈ (traceScan signedChar nrecs func (log' ++ later) fuel albuf s).1 →
      reclen = recordLength wrec

theorem trailer_char {reclen : Nat} (small : reclen ≤ wlogRecMaxSize) (signedChar : Bool) :
    charVal signedChar (BitVec.ofNat 8 (reclen / 256)) * 256 + charVal signedChar (BitVec.ofNat 8 (reclen % 256)) =
      if signedChar = true ∧ 128 ≤ reclen % 256 then (reclen : Int) - 256 else reclen := by
  cases signedChar with
  | false => simpa using trailer_value small
  | true =>
    simp only [wlogRecMaxSize, sizeofWlogRec, wlogMaxPath, wlogMaxPattern, wlogMaxHost] at small
    simp only [charVal, if_true, BitVec.toInt_eq_toNat_cond, BitVec.toNat_ofNat, true_and]
    split <;> split <;> split <;> omega

theorem trailer_decode (pre body later : List Byte) {reclen : Nat} (signedChar : Bool)
    (small : reclen ≤ wlogRecMaxSize) :
    decodeAt signedChar (pre ++ (body ++ trailer reclen) ++ later)
        (pre ++ (body ++ trailer reclen)).length =
      if signedChar = true ∧ 128 ≤ reclen % 256 then (reclen : Int) - 256 else reclen := by
  have split : pre ++ (body ++ trailer reclen) ++ later = (pre ++ body) ++ (trailer reclen ++ later) := by simp
  have back : (pre ++ (body ++ trailer reclen)).length = (pre ++ body).length + 2 := by
    simp [trailer]
    omega
  rw [split, back, decodeAt, Nat.add_sub_cancel]
  have high := byte_at_append (pre ++ body) (trailer reclen ++ later) 0
  have low := byte_at_append (pre ++ body) (trailer reclen ++ later) 1
  change charVal _ (byteAt _ ((pre ++ body).length + 0)) * 256 + charVal _ (byteAt _ ((pre ++ body).length + 1)) = _
  rw [high, low]
  exact trailer_char small signedChar

theorem plain_of_decodes {signedChar : Bool} {wrec : WlogRec} (able : Appendable wrec)
    (decodes : DecodesTrailer signedChar wrec) :
    signedChar = false ∨ recordLength wrec % 256 < 128 := by
  have small := record_length_small able
  obtain ⟨body, size, written⟩ := append_layout able (by decide : (-1 : Int) < 0) [] blankBuf
  rw [List.nil_append] at written
  obtain ⟨file, fileEq⟩ : ∃ file, file = body ++ trailer (recordLength wrec) := ⟨_, rfl⟩
  have length : file.length = recordLength wrec + 2 := by
    rw [fileEq, List.length_append, size]
    rfl
  have few : recordLength wrec ≤ 450 := small
  rw [← fileEq] at written
  obtain ⟨reclen, found⟩ :
      ∃ reclen, .decode file.length reclen ∈ (traceScan signedChar 0 collect file 1 blankAlbuf []).1 :=
    scan_first_decode signedChar collect (by omega) (by omega) blankAlbuf []
  have value := scan_decodes found
  have decoded := trailer_decode [] body [] signedChar small
  rw [List.append_nil, List.nil_append, ← fileEq, ← value,
    decodes _ _ _ _ _ (by decide) written _ 0 collect [] 1 blankAlbuf [] reclen
      (by rwa [List.append_nil])] at decoded
  by_contra large
  rw [if_pos] at decoded
  · omega
  · cases signedChar with
    | false => exact absurd (Or.inl rfl) large
    | true => exact ⟨rfl, by omega⟩

/-- The length comes back exactly if `char` is unsigned or the low byte of the length is below 128. -/
theorem decodes_trailer_iff (signedChar : Bool) {wrec : WlogRec} (able : Appendable wrec) :
    DecodesTrailer signedChar wrec ↔ signedChar = false ∨ recordLength wrec % 256 < 128 := by
  constructor
  · exact plain_of_decodes able
  · intro plain log wbuf offset log' returned new wrote σ nrecs func later fuel albuf s reclen found
    obtain ⟨body, _, written⟩ := append_layout able new log wbuf
    rw [wrote] at written
    obtain ⟨rfl, _⟩ := Prod.mk.inj (Option.some.inj written)
    rw [scan_decodes found, trailer_decode log body later signedChar (record_length_small able), if_neg]
    rintro ⟨signed, large⟩
    rcases plain with unsigned | low
    · rw [signed] at unsigned
      cases unsigned
    · omega

theorem blank_rec_trailer_decoded : DecodesTrailer true blankRec :=
  (decodes_trailer_iff true (appendable_of_fit blank_rec_fits)).mpr (Or.inr (by decide))

def path100Rec : WlogRec := { blankRec with wPathlen := 100 }

theorem path100_rec_trailer_signed :
    ¬ ∀ (signedChar : Bool) (wrec : WlogRec), Appendable wrec → DecodesTrailer signedChar wrec := by
  intro claim
  have able : Appendable path100Rec := appendable_of_fit ⟨by decide, by decide, by decide⟩
  have plain := plain_of_decodes able (claim true path100Rec able)
  exact absurd plain (by decide)

end VteWriteLog
