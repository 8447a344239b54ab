import Vte.Base.FileBlocks
import Vte.Mem.Mmapstress10

/-!
Runs of mmapstress10: whatever the children do, the bytes of the file are those of the pattern at their places in
the pages.
-/
namespace Mmapstress10
open Bytes CInt Function Machine FileBlocks

/-- A mapping that starts at a page, with some pages that an `unsigned` has room for. -/
def MapOk (o : Options) (offset mappages : Nat) : Prop :=
  offset % o.pagesize = 0 ∧ 0 < mappages ∧ (mappages - 1) * o.pagesize < 4294967296

def MapperOk (o : Options) (procno : Nat) : MapperPc → Prop
  | .mapped offset _ mappages => MapOk o offset mappages
  | .loop offset _ mappages _ => MapOk o offset mappages
  | .check offset _ mappages randpage i _ =>
    MapOk o offset mappages ∧ randpage < mappages ∧ i % o.nprocs = procno
  | .store offset _ mappages randpage i _ =>
    MapOk o offset mappages ∧ randpage < mappages ∧ i % o.nprocs = procno ∧ i < o.pagesize
  | .invalid => False
  | .divided => False
  | _ => True

/-- The writer is at the end of the file, in its `k`-th append. -/
def WriterOk (o : Options) (size : Nat) : WriterPc → Prop
  | .start => size % o.pagesize = o.filesize % o.pagesize
  | .write off t => off + t = size ∧ t ≤ o.growsize ∧ ∃ k, off % o.pagesize = (o.filesize + k * o.growsize) % o.pagesize
  | .killed => True

structure Inv (o : Options) (s : State) : Prop where
  file : FileOk o s.file
  large : o.sparseoffset ≤ s.file.size ∧ (o.do_offset = true → o.sparseoffset < s.file.size)
  writer : WriterOk o s.file.size s.writer
  mappers : ∀ procno, MapperOk o procno (s.mapper procno)
  parent : ∀ r, s.parent = .checked r → r = some true

section mapping
variable {o : Options} {mapsize size draw procno i : Nat}

theorem distance (large : o.sparseoffset ≤ size) (small : size ≤ o.sparseoffset + UINT_MAX) :
    u64 (size - o.sparseoffset) = size - o.sparseoffset := by
  have value : (size : Int) - o.sparseoffset = (size - o.sparseoffset : Nat) := by omega
  have bound : ((size - o.sparseoffset : Nat) : Int) < 18446744073709551616 := by
    simp only [UINT_MAX] at small
    omega
  rw [value]
  exact Int.ofNat_inj.mp (u64_small (Int.natCast_nonneg _) bound)

theorem pages_howmany (accepted : Accepted o) (small : mapsize ≤ UINT_MAX) :
    pages o mapsize = howmany mapsize o.pagesize := by
  have some_page := accepted.some_page
  have room := accepted.room
  have natural {n : Nat} (bound : n < 18446744073709551616) : u64 (n : Int) = n :=
    Int.ofNat_inj.mp (u64_small (Int.natCast_nonneg _) (by omega))
  simp only [UINT_MAX, INT_MAX] at small room
  have sum : u64 ((mapsize : Int) + ((o.pagesize - 1 : Nat) : Int)) = mapsize + (o.pagesize - 1) := by
    rw [← Int.natCast_add]
    exact natural (by omega)
  have below : (mapsize + (o.pagesize - 1)) / o.pagesize * o.pagesize ≤ mapsize + (o.pagesize - 1) :=
    Nat.div_mul_le_self _ _
  have few : howmany mapsize o.pagesize ≤ mapsize :=
    (howmany_le some_page).mpr (Nat.le_mul_of_pos_right _ some_page)
  rw [pages, sum, natural (by omega), Nat.mul_div_cancel _ some_page, u32]
  exact Nat.mod_eq_of_lt (Nat.lt_of_le_of_lt few (by omega))

theorem mmap_ok {offset : Int} {mappages : Nat} (some_pages : 0 < mappages)
    (few : (mappages - 1) * o.pagesize < 4294967296) : MapperOk o procno (mmap o offset mapsize mappages) := by
  rw [mmap]
  split
  · trivial
  · rename_i good
    simp only [not_or, not_not, Int.not_lt] at good
    obtain ⟨_, positive, at_page, _⟩ := good
    obtain ⟨n, rfl⟩ := Int.eq_ofNat_of_zero_le positive
    rw [← Int.natCast_emod] at at_page
    exact ⟨Int.ofNat_inj.mp at_page, some_pages, few⟩

theorem last_page (some_page : 0 < o.pagesize) (small : mapsize ≤ UINT_MAX) (some_bytes : 0 < mapsize) :
    0 < howmany mapsize o.pagesize ∧ (howmany mapsize o.pagesize - 1) * o.pagesize < 4294967296 := by
  have positive : 0 < howmany mapsize o.pagesize := (lt_howmany some_page).mpr (by simpa using some_bytes)
  have last := (lt_howmany (n := mapsize) some_page).mp (Nat.sub_one_lt_of_lt positive)
  exact ⟨positive, Nat.lt_of_lt_of_le last (Nat.le_trans small (by decide))⟩

theorem setup_ok (accepted : Accepted o) (large : o.sparseoffset ≤ size)
    (some_bytes : o.do_offset = true → o.sparseoffset < size) : MapperOk o procno (setup o size draw) := by
  have some_page := accepted.some_page
  rw [setup]
  split
  · trivial
  · rename_i fits
    have small : size ≤ o.sparseoffset + UINT_MAX := by omega
    have bound : size - o.sparseoffset ≤ UINT_MAX := by omega
    simp only [distance large small, pages_howmany accepted bound]
    split
    · rename_i moved
      have start := some_bytes moved
      obtain ⟨positive, few⟩ := last_page some_page bound (by omega : 0 < size - o.sparseoffset)
      have some_pages : howmany (size - o.sparseoffset) o.pagesize ≠ 0 := Nat.pos_iff_ne_zero.mp positive
      rw [if_neg some_pages]
      have inside : lrand48 draw % howmany (size - o.sparseoffset) o.pagesize <
          howmany (size - o.sparseoffset) o.pagesize := Nat.mod_lt _ positive
      generalize lrand48 draw % howmany (size - o.sparseoffset) o.pagesize = pageoffset at inside ⊢
      generalize int32 (pageoffset * o.pagesize) = byteoffset
      refine mmap_ok (by omega) (Nat.lt_of_le_of_lt (Nat.mul_le_mul_right _ ?_) few)
      omega
    · by_cases empty : size - o.sparseoffset = 0
      · rw [mmap, if_pos (.inl empty)]
        trivial
      · obtain ⟨positive, few⟩ := last_page some_page bound (Nat.pos_of_ne_zero empty)
        exact mmap_ok positive few

theorem place_mod {offset mappages randpage : Nat} (map : MapOk o offset mappages) (page : randpage < mappages)
    (inside : i < o.pagesize) : place o offset randpage i % o.pagesize = i := by
  obtain ⟨at_page, _, few⟩ := map
  have low : randpage * o.pagesize ≤ (mappages - 1) * o.pagesize := Nat.mul_le_mul_right _ (by omega)
  rw [place, u32, Nat.mod_eq_of_lt (Nat.lt_of_le_of_lt low few), Nat.add_assoc, Nat.add_mod, at_page, Nat.zero_add,
    Nat.mod_mod, Nat.mul_add_mod_self_right, Nat.mod_eq_of_lt inside]

theorem valid_page (some_page : 0 < o.pagesize) (mapsize mappages randpage : Nat) :
    validsize o mapsize mappages randpage ≤ o.pagesize := by
  rw [validsize]
  split
  · exact Nat.le_refl _
  · exact Nat.le_of_lt (Nat.mod_lt _ some_page)

theorem own_pattern (mine : i % o.nprocs = procno) : own o procno = patternByte o i := by
  rw [own, patternByte, mine]

end mapping

section steps
variable {o : Options} {s t : State} {procno draw : Nat}

theorem mappers_update (inv : Inv o s) {pc : MapperPc} (ok : MapperOk o procno pc) :
    Inv o { s with mapper := update s.mapper procno pc } := by
  refine ⟨inv.file, inv.large, inv.writer, fun q => ?_, inv.parent⟩
  by_cases same : q = procno
  · subst same
    simpa using ok
  · simpa [same] using inv.mappers q

theorem inv_mapper (accepted : Accepted o) (inv : Inv o s) (inside : procno < o.nprocs)
    (stepped : mapper o procno draw s = some t) : Inv o t := by
  have ok := inv.mappers procno
  cases here : s.mapper procno with
  | start =>
    simp only [mapper, here] at stepped
    exact Option.some.inj stepped ▸ mappers_update inv (setup_ok accepted inv.large.1 inv.large.2)
  | mapped offset mapsize mappages =>
    rw [here] at ok
    simp only [mapper, here] at stepped
    exact Option.some.inj stepped ▸ mappers_update inv ok
  | loop offset mapsize mappages left =>
    rw [here] at ok
    have some_pages : mappages ≠ 0 := Nat.pos_iff_ne_zero.mp ok.2.1
    cases left with
    | zero =>
      simp only [mapper, here, some_pages, and_false, if_false] at stepped
      exact Option.some.inj stepped ▸ mappers_update inv trivial
    | succ left =>
      simp only [mapper, here, some_pages, if_false] at stepped
      exact Option.some.inj stepped ▸ mappers_update inv ⟨ok, Nat.mod_lt _ ok.2.1, Nat.mod_eq_of_lt inside⟩
  | check offset mapsize mappages randpage i left =>
    rw [here] at ok
    obtain ⟨map, page, mine⟩ := ok
    simp only [mapper, here] at stepped
    split at stepped
    · rename_i valid
      have low := Nat.lt_of_lt_of_le valid (valid_page accepted.some_page mapsize mappages randpage)
      split at stepped
      · exact Option.some.inj stepped ▸ mappers_update inv trivial
      · split at stepped
        · rename_i wrong
          have byte := inv.file.byte (place o offset randpage i)
          rw [place_mod map page low, ← own_pattern mine] at byte
          exact absurd byte (by simpa only [not_or] using wrong.symm)
        · exact Option.some.inj stepped ▸ mappers_update inv ⟨map, page, mine, low⟩
    · exact Option.some.inj stepped ▸ mappers_update inv map
  | store offset mapsize mappages randpage i left =>
    rw [here] at ok
    obtain ⟨map, page, mine, low⟩ := ok
    simp only [mapper, here] at stepped
    have next : MapperOk o procno (.check offset mapsize mappages randpage (i + o.nprocs) left) :=
      ⟨map, page, by rw [Nat.add_mod_right]; exact mine⟩
    have moved := mappers_update inv next
    obtain rfl := Option.some.inj stepped
    have stored := store_ok (p := place o offset randpage i) (b := own o procno) inv.file
      (by rw [place_mod map page low]; exact own_pattern mine)
    exact ⟨stored, inv.large, inv.writer, moved.mappers, inv.parent⟩
  | exited | killed | invalid | divided | unmapped | overflow => simp [mapper, here] at stepped

theorem append_byte (accepted : Accepted o) (suits : Suits o) {off k t : Nat}
    (account : off % o.pagesize = (o.filesize + k * o.growsize) % o.pagesize) (more : t < o.growsize) :
    (buf o).getD (off % o.pagesize + t) 0 = patternByte o ((off + t) % o.pagesize) := by
  have some_page := accepted.some_page
  have start := Nat.mod_lt off some_page
  have place : (off + t) % o.pagesize = (off % o.pagesize + t) % o.pagesize := by rw [Nat.mod_add_mod]
  rw [List.getD_eq_getElem?_getD, place]
  generalize off % o.pagesize = a at account start
  by_cases first : a + t < o.pagesize
  · rw [buf_first accepted first, Nat.mod_eq_of_lt first]
    rfl
  · rw [buf_second accepted (by omega) (by omega), Option.getD_some, Nat.mod_eq_sub_mod (by omega)]
    rcases suits.appends with divides | short
    · have whole := Nat.mod_mod_of_dvd (a + t - o.pagesize) (Nat.dvd_of_mod_eq_zero divides)
      rw [patternByte, patternByte, whole]
    · have ends := short k
      rw [← account] at ends
      rw [Nat.mod_eq_of_lt (a := a + t - o.pagesize) (by omega)]

theorem inv_writer (accepted : Accepted o) (suits : Suits o) (inv : Inv o s)
    (stepped : writer o s = some t) : Inv o t := by
  have ok := inv.writer
  cases place : s.writer with
  | killed => simp [writer, place] at stepped
  | start =>
    rw [place] at ok
    simp only [writer, place] at stepped
    obtain rfl := Option.some.inj stepped
    exact ⟨inv.file, inv.large, ⟨rfl, Nat.zero_le _, 0, by rw [Nat.zero_mul]; exact ok⟩, inv.mappers, inv.parent⟩
  | write off u =>
    rw [place] at ok
    obtain ⟨at_end, low, k, account⟩ := ok
    simp only [writer, place] at stepped
    split at stepped
    · rename_i more
      obtain rfl := Option.some.inj stepped
      have size : (s.file.put (off + u) ((buf o).getD (off % o.pagesize + u) 0)).size = s.file.size + 1 := by
        simp only [File.put, at_end]
        omega
      refine ⟨put_ok inv.file (append_byte accepted suits account more), ?_, ?_, inv.mappers, inv.parent⟩
      · dsimp only
        rw [size]
        exact ⟨Nat.le_succ_of_le inv.large.1, fun moved => Nat.lt_succ_of_lt (inv.large.2 moved)⟩
      · dsimp only
        rw [size]
        exact ⟨by omega, more, k, account⟩
    · rename_i last
      obtain rfl := Option.some.inj stepped
      have all : u = o.growsize := by omega
      refine ⟨inv.file, inv.large, ⟨by rw [← at_end, all]; rfl, Nat.zero_le _, k + 1, ?_⟩, inv.mappers, inv.parent⟩
      rw [Nat.add_mod, account, ← Nat.add_mod, Nat.succ_mul, Nat.add_assoc]

theorem check_pages (accepted : Accepted o) {f : File} (ok : FileOk o f) (large : o.sparseoffset ≤ f.size)
    (small : f.size - o.sparseoffset ≤ UINT_MAX) (todo : Nat) : ∀ i pos,
    i + todo = howmany (f.size - o.sparseoffset) o.pagesize → pos = o.sparseoffset + i * o.pagesize →
      checkPages o f (f.size - o.sparseoffset) todo i pos = true := by
  have some_page := accepted.some_page
  induction todo with
  | zero => exact fun _ _ _ _ => rfl
  | succ todo ih =>
    intro i pos count start
    have inside : i * o.pagesize < f.size - o.sparseoffset := (lt_howmany some_page).mp (by omega)
    have left : f.size - pos = f.size - o.sparseoffset - i * o.pagesize := by omega
    have matching : ((List.range (min o.pagesize (f.size - pos))).any fun j =>
        (buf o).getD j 0 != f.byte (pos + j) && f.byte (pos + j) != 0) = false := by
      rw [List.any_eq_false]
      intro j member
      have low := Nat.lt_of_lt_of_le (List.mem_range.mp member) (Nat.min_le_left _ _)
      have place : (pos + j) % o.pagesize = j := by
        rw [start, Nat.add_assoc, Nat.add_mod, accepted.at_page, Nat.zero_add, Nat.mod_mod,
          Nat.mul_add_mod_self_right, Nat.mod_eq_of_lt low]
      have byte := ok.byte (pos + j)
      rw [place] at byte
      rw [List.getD_eq_getElem?_getD, buf_first accepted low, Option.getD_some]
      rcases byte with zero | same
      · simp [zero]
      · simp [same]
    rw [checkPages]
    by_cases whole : o.pagesize ≤ f.size - pos
    · rw [Nat.min_eq_left whole] at matching ⊢
      simp only [ne_eq, not_true_eq_false, false_and, if_false, matching, Bool.false_eq_true]
      refine ih (i + 1) (pos + o.pagesize) (by omega) ?_
      rw [start, Nat.succ_mul, Nat.add_assoc]
    · have short : min o.pagesize (f.size - pos) = f.size - pos := Nat.min_eq_right (by omega)
      have last : todo = 0 := by
        have ends : ¬ (i + 1 < howmany (f.size - o.sparseoffset) o.pagesize) := by
          rw [lt_howmany some_page, Nat.succ_mul]
          omega
        omega
      rw [short] at matching ⊢
      simp only [UINT_MAX] at small
      have total : u32 (u32 (i * o.pagesize) + (f.size - pos)) = f.size - o.sparseoffset := by
        rw [u32, u32, Nat.mod_eq_of_lt (by omega), Nat.mod_eq_of_lt (by omega)]
        omega
      simp only [total, ne_eq, not_true_eq_false, and_false, if_false, matching, Bool.false_eq_true, last, checkPages]

theorem file_okay (accepted : Accepted o) {f : File} (ok : FileOk o f) (large : o.sparseoffset ≤ f.size)
    (small : f.size ≤ o.sparseoffset + UINT_MAX) : fileokay o f = some true := by
  have bound : f.size - o.sparseoffset ≤ UINT_MAX := by omega
  rw [fileokay, if_neg (by omega)]
  simp only [distance large small, pages_howmany accepted bound]
  rw [check_pages accepted ok large bound _ 0 o.sparseoffset (Nat.zero_add _) (by rw [Nat.zero_mul]; rfl)]

theorem inv_step (accepted : Accepted o) (suits : Suits o) (act : Act) (s t : State) (inv : Inv o s)
    (within : Within o act s) (stepped : step o act s = some t) : Inv o t := by
  have parents {parent : ParentPc} (unchecked : ∀ r, parent ≠ .checked r) : Inv o { s with parent } :=
    ⟨inv.file, inv.large, inv.writer, inv.mappers, fun r checked => absurd checked (unchecked r)⟩
  cases act with
  | mapper procno draw =>
    simp only [step] at stepped
    split at stepped
    · rename_i inside
      exact inv_mapper accepted inv inside stepped
    · cases stepped
  | writer => exact inv_writer accepted suits inv stepped
  | refork procno =>
    cases place : s.parent with
    | waiting =>
      simp only [step, place] at stepped
      split at stepped
      · have moved : Inv o { s with mapper := update s.mapper procno .start } := mappers_update inv trivial
        rw [place] at moved
        exact Option.some.inj stepped ▸ moved
      · cases stepped
    | cleanup | failed | checked => simp [step, place] at stepped
  | notice procno =>
    cases place : s.parent with
    | waiting =>
      simp only [step, place] at stepped
      split at stepped
      · exact Option.some.inj stepped ▸ parents (by simp)
      · cases stepped
    | cleanup | failed | checked => simp [step, place] at stepped
  | finish =>
    cases place : s.parent with
    | waiting =>
      simp only [step, place] at stepped
      exact Option.some.inj stepped ▸ parents (by simp)
    | cleanup | failed | checked => simp [step, place] at stepped
  | kill_mapper procno =>
    cases place : s.parent with
    | cleanup no_prob =>
      simp only [step, place] at stepped
      split at stepped
      · have moved : Inv o { s with mapper := update s.mapper procno .killed } := mappers_update inv trivial
        rw [place] at moved
        exact Option.some.inj stepped ▸ moved
      · cases stepped
    | waiting | failed | checked => simp [step, place] at stepped
  | kill_writer =>
    cases place : s.parent with
    | cleanup no_prob =>
      simp only [step, place] at stepped
      obtain rfl := Option.some.inj stepped
      exact ⟨inv.file, inv.large, trivial, inv.mappers, by simp⟩
    | waiting | failed | checked => simp [step, place] at stepped
  | check =>
    cases place : s.parent with
    | cleanup no_prob =>
      simp only [step, place] at stepped
      split at stepped
      · obtain rfl := Option.some.inj stepped
        refine ⟨inv.file, inv.large, inv.writer, inv.mappers, fun r checked => ?_⟩
        cases no_prob with
        | false => simp at checked
        | true =>
          rw [if_pos rfl, file_okay accepted inv.file inv.large.1 (within rfl)] at checked
          exact (ParentPc.checked.inj checked).symm
      · cases stepped
    | waiting | failed | checked => simp [step, place] at stepped

theorem inv_initial (accepted : Accepted o) (suits : Suits o) : Inv o (initial o) := by
  have empty : FileOk o ⟨0, fun _ => 0, []⟩ := ⟨fun _ member => (by cases member), fun _ => .inl rfl⟩
  obtain ⟨filled, size⟩ :=
    fill_ok accepted o.filesize o.filesize o.sparseoffset _ (Nat.le_refl _) accepted.at_page empty
  have value : (initial o).file.size = if o.filesize = 0 then 0 else max 0 (o.sparseoffset + o.filesize) := size
  refine ⟨filled, ?_, ?_, fun _ => trivial, fun _ checked => by cases checked⟩
  · rw [value]
    rcases suits.sized with some_bytes | ⟨start, whole⟩
    · rw [if_neg (by omega)]
      exact ⟨by omega, fun _ => by omega⟩
    · rw [start, whole]
      exact ⟨Nat.zero_le _, fun moved => by cases moved⟩
  · simp only [WriterOk, initial] at value ⊢
    rw [value]
    split
    · rename_i none
      rw [none]
    · rw [Nat.max_eq_right (Nat.zero_le _), Nat.add_mod, accepted.at_page, Nat.zero_add, Nat.mod_mod]

theorem distance_mod (accepted : Accepted o) (p : Nat) :
    (((p : Int) - o.sparseoffset) % o.pagesize).toNat = p % o.pagesize := by
  have multiple : (o.sparseoffset : Int) % o.pagesize = 0 := by
    rw [← Int.natCast_emod, accepted.at_page]
    rfl
  rw [Int.sub_emod, multiple, Int.sub_zero, Int.emod_emod, ← Int.natCast_emod, Int.toNat_natCast]

/-- No run on such options reports invalid data or divides by zero; what is written is the pattern, and the file is
found to be right. -/
theorem mmapstress_sound (accepted : Accepted o) (suits : Suits o) {acts : List Act} {s : State}
    (along : Along (step o) (Within o) acts (initial o)) (ran : run (step o) acts (initial o) = some s) :
    Sound o s := by
  have inv := run_along (inv_step accepted suits) (inv_initial accepted suits) along ran
  refine ⟨fun procno wrong => ?_, fun procno wrong => ?_, fun w member => ?_, inv.parent⟩
  · have ok := inv.mappers procno
    rw [wrong] at ok
    exact ok
  · have ok := inv.mappers procno
    rw [wrong] at ok
    exact ok
  · rw [distance_mod accepted]
    exact inv.file.written w member

end steps

instance (o : Options) (act : Act) (s : State) : Decidable (Within o act s) :=
  inferInstanceAs (Decidable (act = .check → s.file.size ≤ o.sparseoffset + UINT_MAX))

theorem mmapstress_sound_two :
    ∃ s, run (step ⟨2, 1, 3, 0, 4, 7, true, false, false⟩)
        [.mapper 1 0, .writer, .mapper 1 0, .mapper 1 0, .writer, .mapper 1 0, .writer, .mapper 1 0, .finish,
          .kill_writer, .kill_mapper 0, .kill_mapper 1, .check] (initial ⟨2, 1, 3, 0, 4, 7, true, false, false⟩) =
        some s ∧ Sound ⟨2, 1, 3, 0, 4, 7, true, false, false⟩ s := by
  obtain ⟨s, ran⟩ := Option.isSome_iff_exists.mp
    (by decide +kernel : (run (step ⟨2, 1, 3, 0, 4, 7, true, false, false⟩)
        [.mapper 1 0, .writer, .mapper 1 0, .mapper 1 0, .writer, .mapper 1 0, .writer, .mapper 1 0, .finish,
          .kill_writer, .kill_mapper 0, .kill_mapper 1, .check]
        (initial ⟨2, 1, 3, 0, 4, 7, true, false, false⟩)).isSome)
  have accepted : Accepted ⟨2, 1, 3, 0, 4, 7, true, false, false⟩ :=
    ⟨by decide, by decide, by decide, rfl, by decide⟩
  exact ⟨s, ran, mmapstress_sound accepted ⟨.inl (by decide), .inl rfl⟩ (by decide +kernel) ran⟩

/-- With `-o` a mapper of an empty file divides by its number of pages. -/
theorem empty_divides :
    ∃ o, Accepted o ∧ ∃ acts s, run (step o) acts (initial o) = some s ∧ s.mapper 0 = .divided ∧ ¬ Sound o s := by
  refine ⟨⟨1, 1, 0, 0, 4096, 7, true, false, false⟩, ⟨by decide, by decide, by decide, rfl, by decide⟩,
    [.mapper 0 0], _, rfl, ?_, fun sound => sound.undivided 0 ?_⟩ <;> decide +kernel

end Mmapstress10
