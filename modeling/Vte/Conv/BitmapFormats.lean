import Vte.Conv.ToBitmapCovers

/-!
The formats whose conversion is more than one size check and one pair of loops, and the condition for every
format: when each run of `process_img` covers the bitmap.
-/
namespace Conv
open Copies Multiples StoreLog

section runsOn
variable {r : Request} {l : Nat}

theorem rgb32_settles (wide : 0 < r.xres) (high : 0 < r.yres) :
    (∀ start, start.length = r.isz → Settles .rgb32 r start l (rgb32Case r l ⟨start, r.offset⟩)) ↔
      r.xres * r.yres * 4 < 2147483648 ∧ sizeShort r (r.xres * r.yres * 4) = true := by
  have blank : (List.replicate r.isz (0 : UInt8)).length = r.isz := List.length_replicate
  by_cases fits : r.xres * r.yres * 4 < 2147483648
  · by_cases short : sizeShort r (r.xres * r.yres * 4) = true
    · refine ⟨fun _ => ⟨fits, short⟩, fun _ start _ => Or.inl ?_⟩
      rw [rgb32Case, checked_fits r 4 (by decide) fits, if_pos short]
      rfl
    · have passes : ¬ sizeShort r (r.xres * r.yres * 2) = true := by
        simp only [sizeShort, decide_eq_true_eq] at short ⊢
        omega
      constructor
      · intro all
        have one := all _ blank
        rw [rgb32Case, checked_fits r 4 (by decide) fits, if_neg short] at one
        cases first : sweep (upTo r.yres 1) (upTo r.xres 1)
            (rgb32Body ⟨List.replicate r.isz 0, r.offset⟩ r.xres l) with
        | none => simp [first, Settles] at one
        | some ws =>
          cases second : sweep (upTo r.yres 1) (upTo r.xres 2)
              (nv16Body ⟨List.replicate r.isz 0, r.offset⟩ r.xres l (r.xres * r.yres)) with
          | none =>
            simp [first, nv16Case, int32_fits (show r.xres * r.yres < 2147483648 by omega),
              checked_fits r 2 (by decide) (by omega), passes, second, Settles] at one
          | some later =>
            simp [first, nv16Case, int32_fits (show r.xres * r.yres < 2147483648 by omega),
              checked_fits r 2 (by decide) (by omega), passes, second, Settles] at one
            obtain ⟨part, cell, within⟩ := sweep_round first (zero_upTo high (by decide))
              (zero_upTo wide (by decide))
            simp only [rgb32Body, packedBody, Option.bind_eq_bind, Option.bind_eq_some_iff, Option.some.injEq] at cell
            obtain ⟨k, -, red, -, green, -, blue, -, rfl⟩ := cell
            obtain ⟨part', cell', within'⟩ := sweep_round second (zero_upTo high (by decide))
              (zero_upTo wide (by decide))
            simp only [nv16Body, Option.bind_eq_bind, Option.bind_eq_some_iff] at cell'
            obtain ⟨ky, -, paired⟩ := cell'
            obtain ⟨x, stored⟩ := (pair_cells paired).2
            have origin : 0 * l + 0 * 3 = 0 := by omega
            rw [origin] at stored within
            exact absurd one (covers_twice wide high (fun row => rfl) (within List.mem_cons_self)
              (within' stored))
      · intro both
        exact absurd both.2 short
  · constructor
    · intro all
      have one := all _ blank
      rw [rgb32Case, checked_past (by omega)] at one
      simp [Settles] at one
    · intro both
      exact absurd both.1 fits

theorem bias_checked (size : Nat) (c : Nat → Option (Stores UInt8)) :
    ((int32 (r.xres * r.yres)).bind fun bias => checked r size (c bias)) = checked r size (c (r.xres * r.yres)) := by
  by_cases fits : r.xres * r.yres < 2147483648
  · rw [int32_fits fits]
    rfl
  · rw [int32_past (by omega), checked, Nat.mul_comm r.yres, int32_past (by omega)]
    rfl

end runsOn

section planes
variable {fmt : Format} {r : Request} {l : Nat} {start : List UInt8}

theorem image_drop (low : 0 ≤ r.offset) (k : Nat) :
    imageByte start r.offset k = (start.drop r.offset.toNat)[k]?.getD 0 := by
  have place : (r.offset + k).toNat = r.offset.toNat + k := by omega
  rw [imageByte, List.getD_eq_getElem?_getD, place, List.getElem?_drop]

theorem planes_pixel {dataOut : List UInt8} {f : Filling UInt8} {row col : Nat}
    (planar : fmt = .yuv420 ∨ fmt = .yvu420) (evenWidth : r.xres % 2 = 0)
    (evenHeight : r.yres % 2 = 0) (low : 0 ≤ r.offset)
    (planes : Rearranged (start.drop r.offset.toNat) dataOut r.xres r.yres f) (inRow : row < r.yres)
    (inCol : col < r.xres) :
    pixel fmt r.xres r.yres false (fun k => f.out[k]?.getD 0) row col =
      pixel fmt r.xres r.yres true (imageByte start r.offset) row col := by
  obtain ⟨first, second⟩ := planes.chroma (row / 2) (col / 2) (by omega) (by omega)
  have fifth : r.xres * r.yres * 5 / 4 = r.xres * r.yres + r.xres * r.yres / 4 := by omega
  rw [fifth, Nat.add_assoc] at second
  rw [Nat.add_assoc] at first
  rcases planar with rfl | rfl <;>
    simp only [pixel, Bool.false_eq_true, if_false, if_true, image_drop low,
      planes.luma row col inRow inCol, first, second]

theorem planar_covers (mx25 : Bool) {pdata : Source} {byte : Nat → UInt8} (room : 3 * r.xres ≤ l)
    (planar : fmt = .yuv420 ∨ fmt = .yvu420) (evenWidth : r.xres % 2 = 0)
    (evenHeight : r.yres % 2 = 0) (flag : r.cflag = mx25) (fits : r.xres * r.yres < 2147483648)
    (reach : InReach pdata byte (r.xres * r.yres * 3 / 2))
    (value : ∀ row < r.yres, ∀ col < r.xres, pixel fmt r.xres r.yres false byte row col =
      pixel fmt r.xres r.yres mx25 (imageByte start r.offset) row col) :
    ∃ ws, sweep (upTo (r.yres - 1) 2) (upTo (r.xres - 1) 2)
        (planarBody fmt pdata r.xres l (r.xres * r.yres)) = some ws ∧
      Covers fmt r start l ws := by
  obtain ⟨ws, ran, same⟩ := planar_sweep (l := l) planar evenWidth evenHeight fits reach
  have upright : ∀ row, outRow fmt r.yres row = row := by
    intro row
    rcases planar with rfl | rfl <;> rfl
  rw [← flag] at value
  exact ⟨ws, ran, covers_bitmap room same upright value⟩

theorem planar_first {pdata : Source} (planar : fmt = .yuv420 ∨ fmt = .yvu420)
    (fails : pdata.byteAt 0 = none) (bias : Nat) : planarBody fmt pdata r.xres l bias 0 0 = none := by
  rcases planar with rfl | rfl <;>
    simp [planarBody, yuv420Body, yvu420Body, squareAt, int32, fails]

/-- With the size of the file checked, the loops over squares cover the bitmap for every content of the
    file just when the offset is inside it and, with `-C`, the planes fit. -/
theorem planar_loops (room : 3 * r.xres ≤ l) (wide : 2 ≤ r.xres) (high : 2 ≤ r.yres)
    (planar : fmt = .yuv420 ∨ fmt = .yvu420) (evenWidth : r.xres % 2 = 0)
    (evenHeight : r.yres % 2 = 0) (fits : r.xres * r.yres < 2147483648)
    (passes : ¬ ((r.isz : Int) - r.offset) % 18446744073709551616 * 2 < (r.xres * r.yres : Nat) * 3) :
    (∀ start, start.length = r.isz → ∃ pdata ws, formalPlanes r start ⟨start, r.offset⟩ = some pdata ∧
      sweep (upTo (r.yres - 1) 2) (upTo (r.xres - 1) 2)
        (planarBody fmt pdata r.xres l (r.xres * r.yres)) = some ws ∧ Covers fmt r start l ws) ↔
      0 ≤ r.offset ∧ r.offset ≤ r.isz ∧ PlanesFit fmt r := by
  have bytes : sampleBytes fmt = 1 := by rcases planar with rfl | rfl <;> rfl
  have blank : (List.replicate r.isz (0 : UInt8)).length = r.isz := List.length_replicate
  cases flag : r.cflag with
  | false =>
    have plain : ∀ start, formalPlanes r start ⟨start, r.offset⟩ = some ⟨start, r.offset⟩ := by
      intro start
      rw [formalPlanes, flag]
      rfl
    constructor
    · intro all
      obtain ⟨pdata, ws, source, ran, -⟩ := all _ blank
      rw [plain] at source
      obtain rfl := Option.some.inj source
      have low := loops_low blank (zero_upTo (by omega) (by decide)) (zero_upTo (by omega) (by decide))
        (fun none => planar_first planar none _) ran
      refine ⟨low.1, by omega, fun _ on => ?_⟩
      rw [flag] at on
      cases on
    · rintro ⟨low, high, -⟩ start length
      have sized := r.iszFits
      rw [Fits64] at sized
      rw [Int.emod_eq_of_lt (by omega) (by omega)] at passes
      have reach := reach_file length low (r.xres * r.yres * 3 / 2) (by omega)
      obtain ⟨ws, ran, covers⟩ := planar_covers false room planar evenWidth evenHeight flag fits reach
        fun row _ col _ => rfl
      exact ⟨_, ws, plain start, ran, covers⟩
  | true =>
    constructor
    · intro all
      obtain ⟨pdata, ws, source, -, -⟩ := all _ blank
      rw [formalPlanes, flag, if_pos rfl] at source
      simp only [Option.bind_eq_bind, Option.bind_eq_some_iff] at source
      obtain ⟨temp, allocated, laid⟩ := source
      by_cases low : 0 ≤ r.offset
      · rw [if_pos low] at laid
        obtain ⟨f, ran, -⟩ := Option.bind_eq_some_iff.mp laid
        obtain ⟨w, width⟩ := Nat.dvd_of_mod_eq_zero evenWidth
        obtain ⟨h, height⟩ := Nat.dvd_of_mod_eq_zero evenHeight
        have size := r.tempSize temp allocated
        rw [width, height] at ran
        obtain ⟨small, read, enough⟩ := conv_needs (by omega) (by omega) ran
        have inside : r.offset.toNat < r.isz := by
          by_contra past
          exact read (List.drop_eq_nil_of_le (by rw [List.length_replicate]; omega))
        refine ⟨low, by omega, fun _ _ => ⟨?_, by rw [allocated]; exact Option.some_ne_none _, ?_⟩⟩
        · rw [width, height, area]
          omega
        · rw [width, height, area]
          rw [Nat.mul_assoc] at enough
          omega
      · rw [if_neg low] at laid
        cases laid
    · rintro ⟨low, high, planesFit⟩ start length
      obtain ⟨five, allocated, enough⟩ := planesFit bytes flag
      obtain ⟨temp, given⟩ := Option.ne_none_iff_exists'.mp allocated
      have size := r.tempSize temp given
      have sized := r.iszFits
      rw [Fits64] at sized
      rw [Int.emod_eq_of_lt (by omega) (by omega)] at passes
      obtain ⟨f, ran, planes⟩ := conv_planes (start.drop r.offset.toNat) temp
        evenWidth evenHeight five (by rw [List.length_drop]; omega) (by omega)
      have source : formalPlanes r start ⟨start, r.offset⟩ = some ⟨f.out, 0⟩ := by
        rw [formalPlanes, flag, if_pos rfl, given]
        simp only [Option.bind_eq_bind, Option.bind_some, if_pos low, ran]
      have reach : InReach ⟨f.out, 0⟩ (fun k => f.out[k]?.getD 0) (r.xres * r.yres * 3 / 2) := by
        intro k inside
        have length := planes.length
        have place : (0 + (k : Int)).toNat = k := by omega
        have inBuffer : k < f.out.length := by omega
        have value : f.out[k]?.getD 0 = f.out[k] := by
          rw [List.getElem?_eq_getElem inBuffer]
          rfl
        rw [Source.byteAt, if_pos (by dsimp only; omega), place, List.getElem?_eq_getElem inBuffer, ← value]
      obtain ⟨ws, swept, covers⟩ := planar_covers true room planar evenWidth evenHeight flag
        fits reach fun row inRow col inCol =>
          planes_pixel planar evenWidth evenHeight low planes inRow inCol
      exact ⟨_, ws, source, swept, covers⟩

theorem planar_settles (room : 3 * r.xres ≤ l) (wide : 2 ≤ r.xres) (high : 2 ≤ r.yres)
    (planar : fmt = .yuv420 ∨ fmt = .yvu420) (evenWidth : r.xres % 2 = 0)
    (evenHeight : r.yres % 2 = 0) :
    (∀ start, start.length = r.isz → Settles fmt r start l
      (yuv420Case r start ⟨start, r.offset⟩ fun pdata bias => planarBody fmt pdata r.xres l bias)) ↔
      r.xres * r.yres < 2147483648 ∧
        (((r.isz : Int) - r.offset) % 18446744073709551616 * 2 < (r.xres * r.yres : Nat) * 3 ∨
          0 ≤ r.offset ∧ r.offset ≤ r.isz ∧ PlanesFit fmt r) := by
  by_cases fits : r.xres * r.yres < 2147483648
  · by_cases short : ((r.isz : Int) - r.offset) % 18446744073709551616 * 2 < (r.xres * r.yres : Nat) * 3
    · refine ⟨fun _ => ⟨fits, Or.inl short⟩, fun _ start _ => Or.inl ?_⟩
      rw [yuv420Case, int32_fits fits]
      simp only [Option.bind_eq_bind, Option.bind_some, if_pos short]
    · have settles : ∀ start, Settles fmt r start l (yuv420Case r start ⟨start, r.offset⟩
          fun pdata bias => planarBody fmt pdata r.xres l bias) ↔ ∃ pdata ws,
            formalPlanes r start ⟨start, r.offset⟩ = some pdata ∧
            sweep (upTo (r.yres - 1) 2) (upTo (r.xres - 1) 2)
              (planarBody fmt pdata r.xres l (r.xres * r.yres)) = some ws ∧
            Covers fmt r start l ws := by
        intro start
        rw [yuv420Case, int32_fits fits]
        simp only [Option.bind_eq_bind, Option.bind_some, if_neg short, Settles]
        cases formalPlanes r start ⟨start, r.offset⟩ with
        | none => simp
        | some pdata =>
          simp only [Option.bind_some, Option.some.injEq, exists_and_left, exists_eq_left']
          cases sweep (upTo (r.yres - 1) 2) (upTo (r.xres - 1) 2)
            (planarBody fmt pdata r.xres l (r.xres * r.yres)) <;> simp
      have loops := planar_loops room wide high planar evenWidth evenHeight fits short
      simp only [settles, loops, fits, short, true_and, false_or]
  · constructor
    · intro all
      have one := all (List.replicate r.isz 0) List.length_replicate
      rw [yuv420Case, int32_past (by omega)] at one
      simp [Settles] at one
    · intro both
      exact absurd both.1 fits

end planes

section formats
variable {fmt : Format} {r : Request} {l : Nat}

theorem sound_loops (complete : Complete fmt) (whole : sampleBytes fmt ≠ 1) :
    Sound fmt r ↔ 0 ≤ r.offset ∧ r.offset ≤ r.isz := by
  have fits : PlanesFit fmt r := fun one => absurd one whole
  simp only [Sound, complete, fits, true_and, and_true]

theorem refused_checked (whole : sampleBytes fmt ≠ 1) :
    Refused fmt r ↔ sizeShort r (r.xres * r.yres * sampleBytes fmt) = true := by
  rw [Refused, if_neg whole]

/-- The runs of a format settle just when no product overflows and the size check stops them or the
    conversion is sound. -/
theorem settles_convert (room : 3 * r.xres ≤ l) (wide : 2 ≤ r.xres) (high : 2 ≤ r.yres)
    (paired : Paired fmt r.xres r.yres) :
    (∀ start, start.length = r.isz → Settles fmt r start l (convert r start fmt l ⟨start, r.offset⟩)) ↔
      r.xres * r.yres * sampleBytes fmt < 2147483648 ∧ (Refused fmt r ∨ Sound fmt r) := by
  cases fmt with
  | rgb565 =>
    rw [refused_checked (by decide), sound_loops (by decide) (by decide)]
    exact settles_checked (by decide) fun fits passes =>
      rgb565_loops (by omega) (by omega) room fits passes
  | rgb24 =>
    rw [refused_checked (by decide), sound_loops (by decide) (by decide)]
    exact settles_checked (by decide) fun fits passes =>
      packed_loops (by omega) (by omega) room fits passes (by decide) (by decide) (by decide) (by decide)
        (fun row => rfl) fun byte row col => rfl
  | bgr24 =>
    rw [refused_checked (by decide), sound_loops (by decide) (by decide)]
    exact settles_checked (by decide) fun fits passes =>
      packed_loops (by omega) (by omega) room fits passes (by decide) (by decide) (by decide) (by decide)
        (fun row => rfl) fun byte row col => rfl
  | bgr32 =>
    rw [refused_checked (by decide), sound_loops (by decide) (by decide)]
    exact settles_checked (by decide) fun fits passes =>
      packed_loops (by omega) (by omega) room fits passes (by decide) (by decide) (by decide) (by decide)
        (fun row => rfl) fun byte row col => rfl
  | rgb32 =>
    have unsound : ¬ Sound .rgb32 r := fun sound => sound.1.1 rfl
    rw [refused_checked (by decide), or_iff_left unsound]
    exact rgb32_settles (by omega) (by omega)
  | yuy2 =>
    have unsound : ¬ Sound .yuy2 r := fun sound => sound.1.2.1 rfl
    rw [refused_checked (by decide)]
    refine settles_checked (by decide) fun _ _ => iff_of_false ?_ unsound
    intro all
    exact yuy2_misses wide (by omega) room (all (List.replicate r.isz 0) List.length_replicate)
  | uyvy =>
    have unsound : ¬ Sound .uyvy r := fun sound => sound.1.2.2.1 rfl
    rw [refused_checked (by decide)]
    refine settles_checked (by decide) fun _ _ => iff_of_false ?_ unsound
    intro all
    exact uyvy_misses wide (by omega) room (all (List.replicate r.isz 0) List.length_replicate)
  | yuv444 =>
    have unsound : ¬ Sound .yuv444 r := fun sound => sound.1.2.2.2 rfl
    rw [refused_checked (by decide)]
    exact settles_checked (by decide) fun _ passes =>
      iff_of_false (yuv444_misplaces wide (by omega) passes) unsound
  | nv16 =>
    rw [refused_checked (by decide), sound_loops (by decide) (by decide)]
    simp only [convert, nv16Case, Option.bind_eq_bind, bias_checked]
    exact settles_checked (by decide) fun fits passes =>
      nv16_loops paired (by omega) (by omega) room fits passes
  | yuv422p =>
    rw [refused_checked (by decide), sound_loops (by decide) (by decide)]
    simp only [convert, Option.bind_eq_bind, bias_checked]
    exact settles_checked (by decide) fun fits passes =>
      yuv422p_loops paired (by omega) (by omega) room fits passes
  | yuv420 =>
    have sound : Sound .yuv420 r ↔ 0 ≤ r.offset ∧ r.offset ≤ r.isz ∧ PlanesFit .yuv420 r :=
      and_iff_right (by decide)
    rw [sound, show sampleBytes .yuv420 = 1 from rfl, Nat.mul_one]
    exact planar_settles room wide high (Or.inl rfl) paired.1 paired.2
  | yvu420 =>
    have sound : Sound .yvu420 r ↔ 0 ≤ r.offset ∧ r.offset ≤ r.isz ∧ PlanesFit .yvu420 r :=
      and_iff_right (by decide)
    rw [sound, show sampleBytes .yvu420 = 1 from rfl, Nat.mul_one]
    exact planar_settles room wide high (Or.inr rfl) paired.1 paired.2

/-- Whatever the input file holds, the run ends before the loops or covers the bitmap with all its accesses
    in bounds: just when the condition on the format, the sizes and the offset holds. -/
theorem converts_iff (fmt : Format) (r : Request) (wide : 2 ≤ r.xres) (high : 2 ≤ r.yres)
    (paired : Paired fmt r.xres r.yres) :
    (∀ start, start.length = r.isz → Converts fmt r start) ↔ Suits fmt r := by
  by_cases empty : r.isz = 0
  · refine iff_of_true (fun start _ => Or.inl ?_) (Or.inl empty)
    rw [processImg, if_pos empty]
  · by_cases fits : r.xres * 24 + 31 < 2147483648
    · have row : rowBytes r.xres = some ((r.xres * 24 + 31) / 32 * 32 / 8) := by
        rw [rowBytes, int32_fits fits]
        rfl
      have room : 3 * r.xres ≤ (r.xres * 24 + 31) / 32 * 32 / 8 := by omega
      have converts : ∀ start, Converts fmt r start ↔ Settles fmt r start ((r.xres * 24 + 31) / 32 * 32 / 8)
            (convert r start fmt ((r.xres * 24 + 31) / 32 * 32 / 8) ⟨start, r.offset⟩) := by
        intro start
        have process : processImg r start fmt =
            convert r start fmt ((r.xres * 24 + 31) / 32 * 32 / 8) ⟨start, r.offset⟩ := by
          rw [processImg, if_neg empty, row]
          rfl
        rw [Converts, row, process]
        constructor
        · rintro (stops | ⟨l, same, settles⟩)
          · exact Or.inl stops
          · obtain rfl := Option.some.inj same
            exact settles
        · intro settles
          exact Or.inr ⟨_, rfl, settles⟩
      simp only [converts, settles_convert room wide high paired, Suits, empty, fits, false_or, true_and]
    · constructor
      · intro all
        have one := all (List.replicate r.isz 0) List.length_replicate
        have row : rowBytes r.xres = none := by
          rw [rowBytes, int32_past (by omega)]
          rfl
        rw [Converts, processImg, if_neg empty, row] at one
        rcases one with stops | ⟨l, same, -⟩
        · cases stops
        · cases same
      · rintro (none | ⟨small, -⟩)
        · exact absurd none empty
        · exact absurd small fits

theorem small_fits64 {isz : Nat} (small : isz < 100) : Fits64 isz := by
  rw [Fits64]
  omega

def squareRequest (isz : Nat) (small : isz < 100) : Request where
  xres := 2
  yres := 2
  offset := 0
  cflag := false
  isz := isz
  outSize := 0
  temp := none
  offsetFits := zero_fits64
  iszFits := small_fits64 small
  tempSize := no_temp

theorem converts_rgb24 :
    Converts .rgb24 (squareRequest 12 (by decide)) [1, 2, 3, 4, 5, 6, 7, 8, 9, 10, 11, 12] :=
  (converts_iff .rgb24 (squareRequest 12 (by decide)) (by decide) (by decide) trivial).mpr
    (Or.inr ⟨by decide, by decide, Or.inr ⟨by decide, by decide, by decide, nofun⟩⟩)
    [1, 2, 3, 4, 5, 6, 7, 8, 9, 10, 11, 12] rfl

/-- Two rows of one pair of pixels in the format YUY2: nothing is stored. -/
theorem pair_left_out : ¬ ∀ (fmt : Format) (r : Request), 2 ≤ r.xres → 2 ≤ r.yres →
    Paired fmt r.xres r.yres → ∀ start, start.length = r.isz → Converts fmt r start := by
  intro all
  have one := all .yuy2 (squareRequest 8 (by decide)) (by decide) (by decide)
    (show 2 % 2 = 0 from rfl) [1, 2, 3, 4, 5, 6, 7, 8] rfl
  have ran : processImg (squareRequest 8 (by decide)) [1, 2, 3, 4, 5, 6, 7, 8] .yuy2 = some (.stored []) := by decide
  rw [Converts, ran] at one
  rcases one with stops | ⟨l, -, stops | ⟨ws, stored, covers⟩⟩
  · cases stops
  · cases stops
  · obtain rfl : [] = ws := Outcome.stored.inj (Option.some.inj stored)
    cases covers.once 0 (by decide) 0 (by decide) 0 (by decide)

end formats
end Conv
