import Vte.Fs.Iogen

/-!
The requests of iogen.c on a regular file are inside the file and of a length within the limits; in
random mode with overlap this, and the overlap, holds for all draws only with longer transfers that
fit an `int` twice.
-/
namespace VteIogen
open CInt VteRandomRange Machine

def Limits (o : Opts) : Prop := 1 ≤ o.mintrans ∧ o.mintrans ≤ o.maxtrans

structure Placed (o : Opts) (f : FileInfo) : Prop where
  iou : f.iou = 1
  fits : o.maxtrans ≤ f.length
  small : f.length < 2147483648
  low : 0 ≤ f.lastoffset
  high : f.lastoffset + f.lastlength ≤ f.length
  last : f.lastlength = 0 ∨ o.mintrans ≤ f.lastlength

def Inside (o : Opts) (f : FileInfo) (offset length : Int) : Prop :=
  0 ≤ offset ∧ offset + length ≤ f.length ∧ o.mintrans ≤ length ∧ length ≤ o.maxtrans

def Overlaps (f : FileInfo) (offset length : Int) : Prop :=
  offset < f.lastoffset + f.lastlength ∧ f.lastoffset < offset + length

def Proper (o : Opts) (f : FileInfo) (offset length : Int) : Prop :=
  Inside o f offset length ∧ (o.offsetMode = .random → o.overlap = true → 0 < f.lastlength → Overlaps f offset length)

def Safe (o : Opts) (length : Int) : Prop :=
  o.offsetMode = .random → o.overlap = true → length = 1 ∨ (2 ≤ o.mintrans ∧ length + o.maxtrans ≤ 2147483648)

section modes
variable {o : Opts} {d : Draws} {f : FileInfo} {offset length : Int}

theorem between_bounds {min max : Int} (ordered : min ≤ max) (draw : Nat) :
    min ≤ between min max 1 draw ∧ between min max 1 draw ≤ max := by
  obtain ⟨r, drawn, low, high⟩ := random_range_bounds ordered draw
  rw [between, drawn, Option.getD_some]
  exact ⟨low, high⟩

theorem between_hits {min max r : Int} (low : min ≤ r) (high : r ≤ max) :
    between min max 1 (r - min).toNat = r := by
  rw [between, random_range_hits low high, Option.getD_some]

theorem lastend_eq (limits : Limits o) (placed : Placed o f) :
    f.lastend = f.lastoffset + f.lastlength - 1 := by
  obtain ⟨low, ordered⟩ := limits
  have start := placed.low
  have high := placed.high
  have small := placed.small
  have last := placed.last
  rw [FileInfo.lastend, int32_small (x := f.lastoffset + f.lastlength) (by omega) (by omega)]
  exact int32_small (by omega) (by omega)

theorem round_one (x : Int) : roundUp x 1 = x ∧ roundDown x 1 = x := by
  simp [roundUp, roundDown]

theorem sequential_inside (limits : Limits o) (placed : Placed o f)
    (formed : sequential o d f = some (offset, length)) : Inside o f offset length := by
  have lastend := lastend_eq limits placed
  obtain ⟨low, ordered⟩ := limits
  have begin' := placed.low
  have high := placed.high
  have small := placed.small
  have fits := placed.fits
  have last := placed.last
  rw [sequential, placed.iou] at formed
  simp only [(round_one _).1, lastend] at formed
  generalize begins : (if o.overlap = true ∧ f.lastoffset + f.lastlength - 1 > f.lastoffset then
    between f.lastoffset (f.lastoffset + f.lastlength - 1) 1 d.offset
    else int32 (f.lastoffset + f.lastlength - 1 + 1)) = next at formed
  have within : 0 ≤ next ∧ next ≤ f.length := by
    rw [← begins]
    split
    · rename_i both
      have bounds := between_bounds (show f.lastoffset ≤ f.lastoffset + f.lastlength - 1 by omega)
        d.offset
      omega
    · rw [int32_small (by omega) (by omega)]
      omega
  have room : (if o.mintrans > 1 then o.mintrans else 1) = o.mintrans := by
    split <;> omega
  rw [room, int32_small (x := f.length - next) (by omega) (by omega)] at formed
  generalize begins' : (if o.mintrans > f.length - next then 0 else next) = place at formed
  have within' : 0 ≤ place ∧ place + o.mintrans ≤ f.length := by
    rw [← begins']
    split <;> omega
  rw [int32_small (x := f.length - place) (by omega) (by omega)] at formed
  obtain ⟨drawn, found, same⟩ := Option.map_eq_some_iff.mp formed
  obtain ⟨rfl, rfl⟩ := Prod.mk.inj same
  generalize ends : (if f.length - place > o.maxtrans then o.maxtrans else f.length - place) = most
    at found
  have bound : o.mintrans ≤ most ∧ most ≤ o.maxtrans ∧ place + most ≤ f.length := by
    rw [← ends]
    split <;> omega
  obtain ⟨r, drawn', least, largest⟩ := random_range_bounds bound.1 d.length
  obtain rfl := Option.some.inj (found.symm.trans drawn')
  exact ⟨by omega, by omega, least, by omega⟩

theorem reverse_from_inside (limits : Limits o) {laststart lastend maxlength : Int}
    (close : lastend ≤ f.length) (reach : laststart ≤ f.length)
    (small : f.length < 2147483648) (least : o.mintrans ≤ maxlength) (most : maxlength ≤ o.maxtrans)
    (room : maxlength ≤ laststart)
    (formed : reverseFrom o d 1 laststart lastend maxlength = some (offset, length)) :
    Inside o f offset length := by
  obtain ⟨low, ordered⟩ := limits
  rw [reverseFrom] at formed
  have one : (if o.mintrans > 1 then o.mintrans else 1) = o.mintrans := by
    split <;> omega
  simp only [one, (round_one _).2] at formed
  obtain ⟨drawn, found, same⟩ := Option.map_eq_some_iff.mp formed
  obtain ⟨r, drawn', least', largest⟩ := random_range_bounds least d.length
  obtain rfl := Option.some.inj (found.symm.trans drawn')
  obtain ⟨place, rfl⟩ := Prod.mk.inj same
  rw [int32_small (x := laststart - drawn) (by omega) (by omega)] at place
  refine ⟨?_, ?_, least', by omega⟩
  all_goals
    rw [← place]
    split
    · rename_i both
      rw [int32_small (x := lastend - laststart) (by omega) (by omega)]
      have bounds := between_bounds (show (1 : Int) ≤ lastend - laststart by omega) d.offset
      rw [int32_small (by omega) (by omega)]
      omega
    · omega

theorem reverse_inside (limits : Limits o) (placed : Placed o f)
    (formed : reverse o d f = some (offset, length)) : Inside o f offset length := by
  have lastend := lastend_eq limits placed
  have begin' := placed.low
  have high := placed.high
  have small := placed.small
  have fits := placed.fits
  have last := placed.last
  have within := limits
  obtain ⟨low, ordered⟩ := within
  rw [reverse, placed.iou] at formed
  have one : (if o.mintrans > 1 then o.mintrans else 1) = o.mintrans := by
    split <;> omega
  simp only [one] at formed
  generalize ends : (if f.lastoffset > o.maxtrans then o.maxtrans else f.lastoffset) = most
    at formed
  have bound : most ≤ o.maxtrans ∧ most ≤ f.lastoffset := by
    rw [← ends]
    split <;> omega
  split at formed
  · exact reverse_from_inside limits (Int.le_refl _) (Int.le_refl _) small ordered
      (Int.le_refl _) fits formed
  · exact reverse_from_inside limits (by omega) (by omega) small (by omega) bound.1 bound.2
      formed

def Forced (o : Opts) (f : FileInfo) : Prop := o.overlap = true ∧ f.lastoffset < f.lastend

instance (o : Opts) (f : FileInfo) : Decidable (Forced o f) :=
  inferInstanceAs (Decidable (_ ∧ _))

def lowest (o : Opts) (f : FileInfo) (length : Int) : Int :=
  if Forced o f then max 0 (f.lastoffset - length + 1) else 0

def highest (o : Opts) (f : FileInfo) (length : Int) : Int :=
  if Forced o f ∧ int32 (f.lastend + length) ≤ f.length then f.lastend else f.length - length

theorem random_eq (limits : Limits o) (placed : Placed o f) :
    ∃ length, length = between o.mintrans o.maxtrans 1 d.length ∧ o.mintrans ≤ length ∧ length ≤ o.maxtrans ∧
      random o d f = (randomRange (lowest o f length) (highest o f length) 1 d.offset).map (·, length) := by
  obtain ⟨low, ordered⟩ := limits
  have begin' := placed.low
  have high := placed.high
  have small := placed.small
  have fits := placed.fits
  have bounds := between_bounds ordered d.length
  refine ⟨_, rfl, bounds.1, bounds.2, ?_⟩
  rw [random, placed.iou]
  generalize between o.mintrans o.maxtrans 1 d.length = length at bounds ⊢
  have last := placed.last
  rw [int32_small (x := f.lastoffset - length) (by omega) (by omega),
    int32_small (x := f.lastoffset - length + 1) (by omega) (by omega),
    int32_small (x := f.length - length) (by omega) (by omega)]
  have least : lowest o f length =
      if (if o.overlap = true ∧ f.lastend > f.lastoffset then f.lastoffset - length + 1 else 0) < 0
      then 0
      else if o.overlap = true ∧ f.lastend > f.lastoffset then f.lastoffset - length + 1 else 0 := by
    by_cases forced : Forced o f
    · rw [lowest, if_pos forced, if_pos (show o.overlap = true ∧ f.lastend > f.lastoffset from forced)]
      split <;> omega
    · rw [lowest, if_neg forced, if_neg (show ¬ (o.overlap = true ∧ f.lastend > f.lastoffset) from forced)]
      rfl
  rw [least]
  rfl

theorem bounds_ordered (limits : Limits o) (placed : Placed o f) (least : o.mintrans ≤ length)
    (most : length ≤ o.maxtrans) : lowest o f length ≤ highest o f length := by
  have lastend := lastend_eq limits placed
  obtain ⟨low, ordered⟩ := limits
  have begin' := placed.low
  have high := placed.high
  have fits := placed.fits
  have last := placed.last
  by_cases forced : Forced o f
  · have longer := forced.2
    rw [lowest, if_pos forced, highest]
    split <;> omega
  · rw [lowest, if_neg forced, highest, if_neg fun both => forced both.1]
    omega

/-- In random mode the transfer is inside the file and overlaps the last one, if it was longer than
a byte, unless the end that it would have after the last transfer is no `int`. -/
theorem random_proper (limits : Limits o) (placed : Placed o f)
    (fits : Forced o f → f.lastend + o.maxtrans < 2147483648)
    (formed : random o d f = some (offset, length)) :
    Inside o f offset length ∧ (Forced o f → Overlaps f offset length) := by
  have lastend := lastend_eq limits placed
  have begin' := placed.low
  have high := placed.high
  have whole := placed.fits
  have last := placed.last
  have small := placed.small
  obtain ⟨drawn, _, least, most, forms⟩ := random_eq (d := d) limits placed
  have within := bounds_ordered limits placed least most
  obtain ⟨low, ordered⟩ := limits
  obtain ⟨r, found, lower, upper⟩ := random_range_bounds within d.offset
  rw [forms, found, Option.map_some] at formed
  obtain ⟨rfl, rfl⟩ := Prod.mk.inj (Option.some.inj formed)
  by_cases forced : Forced o f
  · have room := fits forced
    have longer := forced.2
    rw [lowest, if_pos forced] at lower
    rw [highest, int32_small (by omega) (by omega)] at upper
    rw [Inside, Overlaps]
    by_cases ends : f.lastend + drawn ≤ f.length
    · rw [if_pos ⟨forced, ends⟩] at upper
      omega
    · rw [if_neg fun both => ends both.2] at upper
      omega
  · rw [lowest, if_neg forced] at lower
    rw [highest, if_neg fun both => forced both.1] at upper
    exact ⟨⟨lower, by omega, least, most⟩, fun forced' => absurd forced' forced⟩

theorem safe_proper (limits : Limits o) (placed : Placed o f) (safe : Safe o f.length)
    (formed : choose o d f = some (offset, length)) : Proper o f offset length := by
  rw [choose] at formed
  split at formed
  · rename_i mode
    exact ⟨sequential_inside limits placed formed, fun other => by rw [mode] at other; cases other⟩
  · rename_i mode
    exact ⟨reverse_inside limits placed formed, fun other => by rw [mode] at other; cases other⟩
  · rename_i mode
    have lastend := lastend_eq limits placed
    have begin' := placed.low
    have high := placed.high
    have last := placed.last
    have whole := placed.fits
    have fits : Forced o f → f.lastend + o.maxtrans < 2147483648 := by
      intro forced
      have longer := forced.2
      rcases safe mode forced.1 with one | ⟨_, room⟩ <;> omega
    obtain ⟨inside, overlaps⟩ := random_proper limits placed fits formed
    refine ⟨inside, fun _ overlap some_last => ?_⟩
    rcases safe mode overlap with one | ⟨two, _⟩
    · -- the file is one byte, and so is each transfer
      obtain ⟨low, ordered⟩ := limits
      rw [Inside] at inside
      rw [Overlaps]
      omega
    · exact overlaps ⟨overlap, by omega⟩

/-- The draws for a request to the file `i` in random mode. -/
def drawsFor (o : Opts) (i : Nat) (f : FileInfo) (offset length : Int) : Draws where
  syscall := 0
  pattern := 0
  file := i
  flags := 0
  length := (length - o.mintrans).toNat
  offset := (offset - lowest o f length).toNat

theorem random_hits (limits : Limits o) (placed : Placed o f) (i : Nat)
    (least : o.mintrans ≤ length) (most : length ≤ o.maxtrans) (low : lowest o f length ≤ offset)
    (high : offset ≤ highest o f length) :
    random o (drawsFor o i f offset length) f = some (offset, length) := by
  obtain ⟨drawn, is_drawn, _, _, forms⟩ :=
    random_eq (d := drawsFor o i f offset length) limits placed
  have same : drawn = length := is_drawn.trans (between_hits least most)
  rw [forms, same, drawsFor, random_range_hits low high, Option.map_some]

def FileInfo.after (f : FileInfo) (offset length : Int) : FileInfo :=
  { f with lastoffset := offset, lastlength := length }

theorem inside_placed (placed : Placed o f)
    (inside : Inside o f offset length) : Placed o (f.after offset length) := by
  obtain ⟨low, high, least, most⟩ := inside
  exact ⟨placed.iou, placed.fits, placed.small, low, high, Or.inr least⟩

def TwoImproper (o : Opts) (f : FileInfo) (i : Nat) : Prop :=
  ∃ offset₁ length₁ offset₂ length₂, random o (drawsFor o i f offset₁ length₁) f = some (offset₁, length₁) ∧
    random o (drawsFor o i (f.after offset₁ length₁) offset₂ length₂) (f.after offset₁ length₁) =
      some (offset₂, length₂) ∧
    ¬ Proper o (f.after offset₁ length₁) offset₂ length₂

theorem unforced_bounds (calm : ¬ Forced o f) (length : Int) :
    lowest o f length = 0 ∧ highest o f length = f.length - length := by
  rw [lowest, if_neg calm, highest, if_neg fun both => calm both.1]
  exact ⟨rfl, rfl⟩

theorem single_byte_improper (limits : Limits o) (placed : Placed o f) (calm : ¬ Forced o f)
    (mode : o.offsetMode = .random) (overlap : o.overlap = true) (longer : f.length ≠ 1)
    (single : o.mintrans = 1) (i : Nat) : TwoImproper o f i := by
  have whole := placed.fits
  have least := limits.1
  have ordered := limits.2
  have inside : Inside o f 0 1 := ⟨Int.le_refl 0, by omega, by omega, by omega⟩
  have placed' := inside_placed placed inside
  have lastend' := lastend_eq limits placed'
  have calm' : ¬ Forced o (f.after 0 1) := fun forced => by
    have more : (0 : Int) < (f.after 0 1).lastend := forced.2
    rw [lastend'] at more
    simp only [FileInfo.after] at more
    omega
  obtain ⟨low, high⟩ := unforced_bounds calm 1
  obtain ⟨low', high'⟩ := unforced_bounds calm' 1
  have length' : (f.after 0 1).length = f.length := rfl
  refine ⟨0, 1, 1, 1, ?_, ?_, ?_⟩
  · exact random_hits limits placed i (by omega) (by omega) (by rw [low]) (by rw [high]; omega)
  · exact random_hits limits placed' i (by omega) (by omega) (by rw [low']; omega)
      (by rw [high', length']; omega)
  · intro proper
    have overlaps : (1 : Int) < 0 + 1 := (proper.2 mode overlap Int.one_pos).1
    omega

theorem long_improper (limits : Limits o) (placed : Placed o f) (calm : ¬ Forced o f)
    (overlap : o.overlap = true) (long : 2147483648 < f.length + o.maxtrans) (i : Nat) :
    TwoImproper o f i := by
  have whole := placed.fits
  have small := placed.small
  have least := limits.1
  have ordered := limits.2
  have inside : Inside o f (f.length - o.maxtrans) o.maxtrans :=
    ⟨by omega, by omega, ordered, Int.le_refl _⟩
  have placed' := inside_placed placed inside
  have lastend' : (f.after (f.length - o.maxtrans) o.maxtrans).lastend = f.length - 1 := by
    rw [lastend_eq limits placed']
    simp only [FileInfo.after]
    omega
  have forced : Forced o (f.after (f.length - o.maxtrans) o.maxtrans) := by
    refine ⟨overlap, ?_⟩
    rw [lastend']
    simp only [FileInfo.after]
    omega
  have lower : lowest o (f.after (f.length - o.maxtrans) o.maxtrans) o.maxtrans ≤ f.length - 1 := by
    rw [lowest, if_pos forced]
    simp only [FileInfo.after]
    omega
  have upper : highest o (f.after (f.length - o.maxtrans) o.maxtrans) o.maxtrans = f.length - 1 := by
    rw [highest, lastend', int32_wrapped (by omega) (by omega)]
    have wrapped : f.length - 1 + o.maxtrans - 4294967296 ≤ (f.after (f.length - o.maxtrans) o.maxtrans).length := by
      simp only [FileInfo.after]
      omega
    rw [if_pos ⟨forced, wrapped⟩]
  obtain ⟨low, high⟩ := unforced_bounds calm o.maxtrans
  refine ⟨f.length - o.maxtrans, o.maxtrans, f.length - 1, o.maxtrans, ?_, ?_, ?_⟩
  · exact random_hits limits placed i ordered (Int.le_refl _) (by rw [low]; omega) (by rw [high])
  · exact random_hits limits placed' i ordered (Int.le_refl _) lower (by rw [upper])
  · intro proper
    have inside' : f.length - 1 + o.maxtrans ≤ f.length := proper.1.2.1
    omega

theorem unsafe_improper (limits : Limits o) (placed : Placed o f) (first : f.lastlength = 0)
    (mode : o.offsetMode = .random) (overlap : o.overlap = true) (longer : f.length ≠ 1)
    (bad : ¬ (2 ≤ o.mintrans ∧ f.length + o.maxtrans ≤ 2147483648)) (i : Nat) :
    TwoImproper o f i := by
  have lastend := lastend_eq limits placed
  have least := limits.1
  have calm : ¬ Forced o f := fun forced => by
    have more := forced.2
    omega
  by_cases single : o.mintrans = 1
  · exact single_byte_improper limits placed calm mode overlap longer single i
  · refine long_improper limits placed calm overlap ?_ i
    by_contra short
    exact bad ⟨by omega, by omega⟩

end modes

section requests
variable {o : Opts} {d : Draws} {f : FileInfo} {files files' : List FileInfo} {req : IoReq}

theorem form_cases (formed : formIorequest o d files = some (req, files')) :
    ∃ f, files[req.file]? = some f ∧ choose o d f = some (req.offset, req.nbytes) ∧
      files' = files.set req.file (f.after req.offset req.nbytes) := by
  rw [formIorequest] at formed
  obtain ⟨sc, _, formed⟩ := Option.bind_eq_some_iff.mp formed
  obtain ⟨pattern, _, formed⟩ := Option.bind_eq_some_iff.mp formed
  obtain ⟨f, found, formed⟩ := Option.bind_eq_some_iff.mp formed
  obtain ⟨sync, _, formed⟩ := Option.bind_eq_some_iff.mp formed
  obtain ⟨place, chosen, formed⟩ := Option.bind_eq_some_iff.mp formed
  obtain ⟨rfl, rfl⟩ := Prod.mk.inj (Option.some.inj formed)
  exact ⟨f, found, chosen, rfl⟩

theorem pick_first {α : Type} {xs : List α} (some_element : xs ≠ []) : ∃ x, pick 0 xs = some x := by
  have positive : 0 < xs.length := List.length_pos_iff.mpr some_element
  have first : between 0 (xs.length - 1) 1 0 = 0 := by
    have hit := between_hits (show (0 : Int) ≤ 0 from Int.le_refl 0)
      (show (0 : Int) ≤ xs.length - 1 by omega)
    exact hit
  rw [pick, first]
  exact ⟨_, List.getElem?_eq_getElem positive⟩

theorem form_hits {i : Nat} {offset length : Int} {g : FileInfo} (found : files[i]? = some f)
    (chosen : choose o (drawsFor o i g offset length) f = some (offset, length)) :
    ∃ req, formIorequest o (drawsFor o i g offset length) files = some (req, files.set i (f.after offset length)) ∧
      req.file = i ∧ req.offset = offset ∧ req.nbytes = length := by
  obtain ⟨sc, picked⟩ := pick_first o.someSyscall
  obtain ⟨sync, flag⟩ := pick_first o.someFlag
  have letter : ∃ pattern, choosePattern sc 0 = some pattern := by
    rw [choosePattern]
    split
    · exact pick_first (by decide)
    · exact ⟨_, rfl⟩
  obtain ⟨pattern, lettered⟩ := letter
  have inside : i < files.length := (List.getElem?_eq_some_iff.mp found).1
  have index : (between 0 (files.length - 1) 1 i).toNat = i := by
    have hit := between_hits (show (0 : Int) ≤ i by omega)
      (show (i : Int) ≤ files.length - 1 by omega)
    rw [Int.sub_zero, Int.toNat_natCast] at hit
    rw [hit, Int.toNat_natCast]
  have formed : formIorequest o (drawsFor o i g offset length) files =
      some ({ type := sc, file := i, access := sc.access, sync, offset, nbytes := length, pattern,
              nstrides := 1, nent := 1 }, files.set i (f.after offset length)) := by
    rw [formIorequest]
    simp only [drawsFor] at chosen ⊢
    simp only [Option.bind_eq_bind, picked, lettered, index, found, flag, chosen, Option.bind_some]
    rfl
  exact ⟨_, formed, rfl, rfl, rfl⟩

def Ready (o : Opts) (files : List FileInfo) : Prop :=
  ∀ f ∈ files, Placed o f ∧ Safe o f.length

theorem form_proper (limits : Limits o) (ready : Ready o files)
    (formed : formIorequest o d files = some (req, files')) :
    ∃ f, files[req.file]? = some f ∧ Proper o f req.offset req.nbytes := by
  obtain ⟨f, found, chosen, _⟩ := form_cases formed
  obtain ⟨placed, safe⟩ := ready f (List.mem_of_getElem? found)
  exact ⟨f, found, safe_proper limits placed safe chosen⟩

theorem ready_step (limits : Limits o) (ready : Ready o files)
    (stepped : step o d files = some files') : Ready o files' := by
  obtain ⟨⟨req, after⟩, formed, rfl⟩ := Option.map_eq_some_iff.mp stepped
  obtain ⟨f, found, chosen, rfl⟩ := form_cases formed
  obtain ⟨placed, safe⟩ := ready f (List.mem_of_getElem? found)
  intro g mem
  rcases List.mem_or_eq_of_mem_set mem with old | rfl
  · exact ready g old
  · exact ⟨inside_placed placed (safe_proper limits placed safe chosen).1, safe⟩

theorem accepted_placed (limits : Limits o) {length : Int} (small : length < 2147483648)
    (accepted : acceptFile o length = some f) : Placed o f ∧ f.lastlength = 0 := by
  rw [acceptFile] at accepted
  split at accepted
  · cases accepted
  · obtain rfl := Option.some.inj accepted
    obtain ⟨low, ordered⟩ := limits
    have half : 0 ≤ length.tdiv 2 ∧ length.tdiv 2 ≤ length := by
      rw [Int.tdiv_eq_ediv_of_nonneg (by omega)]
      omega
    have fits : o.maxtrans ≤ length := by omega
    refine ⟨⟨rfl, fits, small, ?_, ?_, Or.inl rfl⟩, rfl⟩
    · cases mode : o.offsetMode <;> simp only [OffsetMode.start] <;> omega
    · cases mode : o.offsetMode <;> simp only [OffsetMode.start] <;> omega

end requests

/-- Every request of every run is as asked, for all draws, exactly if every file accepted is safe:
the mode is not random with overlap, or the file is a single byte, or a transfer is of at least two
bytes and the longest one after the end of the file is still an `int`. -/
theorem requests_inside_iff (o : Opts) (lengths : List Int) (limits : Limits o)
    (ints : ∀ length ∈ lengths, length < 2147483648) :
    (∀ ds files d req files', run (step o) ds (parseFiles o lengths) = some files →
      formIorequest o d files = some (req, files') →
        ∃ f, files[req.file]? = some f ∧ Proper o f req.offset req.nbytes) ↔
      ∀ f ∈ parseFiles o lengths, Safe o f.length := by
  have placed : ∀ f ∈ parseFiles o lengths, Placed o f ∧ f.lastlength = 0 := by
    intro f mem
    obtain ⟨length, inside, accepted⟩ := List.mem_filterMap.mp mem
    exact accepted_placed limits (ints length inside) accepted
  constructor
  · intro proper f mem mode overlap
    by_contra bad
    rw [not_or] at bad
    obtain ⟨i, inside, found⟩ := List.getElem_of_mem mem
    have here : (parseFiles o lengths)[i]? = some f := by
      rw [List.getElem?_eq_getElem inside, found]
    obtain ⟨there, first⟩ := placed f mem
    obtain ⟨offset₁, length₁, offset₂, length₂, before, after, improper⟩ :=
      unsafe_improper limits there first mode overlap bad.1 bad.2 i
    have choose_random (d : Draws) (g : FileInfo) : choose o d g = random o d g := by
      rw [choose, mode]
    rw [← choose_random] at before after
    obtain ⟨req₁, formed₁, _⟩ := form_hits here before
    have there' : ((parseFiles o lengths).set i (f.after offset₁ length₁))[i]? =
        some (f.after offset₁ length₁) := List.getElem?_set_self inside
    obtain ⟨req₂, formed₂, rfl, rfl, rfl⟩ := form_hits there' after
    have ran : run (step o) [drawsFor o req₂.file f offset₁ length₁] (parseFiles o lengths) =
        some ((parseFiles o lengths).set req₂.file (f.after offset₁ length₁)) := by
      rw [run, step, formed₁]
      rfl
    obtain ⟨g, found', as_asked⟩ := proper _ _ _ _ _ ran formed₂
    obtain rfl := Option.some.inj (there'.symm.trans found')
    exact improper as_asked
  · intro safe ds files d req files' ran formed
    have start : Ready o (parseFiles o lengths) := fun f mem => ⟨(placed f mem).1, safe f mem⟩
    have preserves : ∀ d s t, Ready o s → step o d s = some t → Ready o t :=
      fun d s t ready stepped => ready_step limits ready stepped
    exact form_proper limits (run_invariant preserves start ran) formed

def shortTransfers (offsetMode : OffsetMode) : Opts where
  offsetMode
  overlap := true
  mintrans := 1
  maxtrans := 1
  syscalls := [.read]
  flags := [false]
  someSyscall := by simp
  someFlag := by simp

theorem sequential_requests_inside :
    Limits (shortTransfers .sequential) ∧ ∀ ds files d req files',
      run (step (shortTransfers .sequential)) ds (parseFiles (shortTransfers .sequential) [2]) = some files →
      formIorequest (shortTransfers .sequential) d files = some (req, files') →
      ∃ f, files[req.file]? = some f ∧ Proper (shortTransfers .sequential) f req.offset req.nbytes := by
  have limits : Limits (shortTransfers .sequential) := ⟨by decide, by decide⟩
  refine ⟨limits, ?_⟩
  exact (requests_inside_iff (shortTransfers .sequential) [2] limits (by decide)).mpr
    fun _ _ mode => nomatch mode

/-- After the first byte of a file of two, the second one is a request in random mode with -o. -/
theorem one_byte_requests_apart :
    ¬ ∀ (o : Opts) (lengths : List Int), Limits o → (∀ length ∈ lengths, length < 2147483648) →
      ∀ ds files d req files', run (step o) ds (parseFiles o lengths) = some files →
        formIorequest o d files = some (req, files') →
        ∃ f, files[req.file]? = some f ∧ Proper o f req.offset req.nbytes := by
  intro always
  obtain ⟨f, found, proper⟩ := always (shortTransfers .random) [2] ⟨by decide, by decide⟩ (by decide)
    [⟨0, 0, 0, 0, 0, 0⟩] _ ⟨0, 0, 0, 0, 0, 1⟩ _ _ rfl rfl
  obtain rfl := Option.some.inj found
  have overlaps := (proper.2 rfl rfl (by decide)).1
  exact absurd overlaps (by decide)

end VteIogen
