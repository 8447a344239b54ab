import Mathlib.Algebra.Order.Ring.Nat
import Vte.Base.CString
import Vte.Base.Multiples

/-!
lib/tst_kvercmp.c: the running kernel's version against a given one. Each is packed into one `int`, and
the difference is returned; an `int` that overflows gives nothing.
-/
namespace Kvercmp
open Text CString Multiples

/-- `strsep` at one character: the token and what is left, if anything is. -/
def strsep (c : Char) : Option Str → Option Str × Option Str
  | none => (none, none)
  | some s =>
    if c ∈ s then (some (s.takeWhile (· != c)), some ((s.dropWhile (· != c)).drop 1))
    else (some s, none)

/-- `atoi` of a token; without one, or for a value that an `int` does not hold, nothing is known. -/
def number (token : Option Str) : Option Int := do checked32 (atoi (← token))

/-- `release` is the text that `uname` gives. -/
def get_kver (release : Str) : Option (Int × Int × Int) := do
  let (r1, kver) := strsep '.' (some release)
  let (r2, kver) := strsep '.' kver
  let (r3, _) := strsep '.' kver
  some (← number r1, ← number r2, ← number r3)

def shiftLeft (x : Int) (n : Nat) : Option Int := if x < 0 then none else checked32 (2 ^ n * x)

def pack (x y z : Int) : Option Int := do
  let high ← checked32 ((← shiftLeft x 16) + (← shiftLeft y 8))
  checked32 (high + z)

def tst_kvercmp (release : Str) (r1 r2 r3 : Int) : Option Int := do
  let (a1, a2, a3) ← get_kver release
  let testver ← pack r1 r2 r3
  let currver ← pack a1 a2 a3
  checked32 (currver - testver)

structure Version where
  major : Nat
  minor : Nat
  patch : Nat
deriving DecidableEq

def Version.release (v : Version) (trailing : Str) : Str :=
  decimal v.major ++ '.' :: (decimal v.minor ++ '.' :: (decimal v.patch ++ trailing))

def Version.Below (v w : Version) : Prop :=
  v.major < w.major ∨ v.major = w.major ∧ (v.minor < w.minor ∨ v.minor = w.minor ∧ v.patch < w.patch)

def Right (current asked : Version) (result : Option Int) : Prop :=
  ∃ d, result = some d ∧ (d < 0 ↔ current.Below asked) ∧ (d = 0 ↔ current = asked) ∧ (0 < d ↔ asked.Below current)

def Version.packed (v : Version) : Nat := 65536 * v.major + 256 * v.minor + v.patch

/-- Where `v` is the older, the numbers after the first one that differs do not make up for it. -/
def Outweighed (v w : Version) : Prop :=
  (v.major < w.major → 256 * v.minor + v.patch < 65536 * (w.major - v.major) + 256 * w.minor + w.patch) ∧
  (v.major = w.major → v.minor < w.minor → v.patch < 256 * (w.minor - v.minor) + w.patch)

section scanning

theorem strsep_cut {c : Char} {first : Str} (fresh : c ∉ first) (rest : Str) :
    strsep c (some (first ++ c :: rest)) = (some first, some rest) := by
  have word : ∀ d ∈ first, (d != c) = true := by
    intro d found
    rw [bne_iff_ne]
    rintro rfl
    exact fresh found
  have inside : c ∈ first ++ c :: rest := by simp
  simp only [strsep, if_pos inside, List.takeWhile_append_of_pos word, List.dropWhile_append_of_pos word]
  simp

theorem strsep_first (c : Char) (s : Str) : ∃ tail left, strsep c (some s) = (some tail, left) ∧
    tail = s.takeWhile (· != c) := by
  by_cases found : c ∈ s
  · exact ⟨_, _, if_pos found, rfl⟩
  · refine ⟨_, _, if_neg found, ?_⟩
    symm
    rw [List.takeWhile_eq_self_iff]
    intro d inside
    rw [bne_iff_ne]
    rintro rfl
    exact found inside

theorem decimal_nat (n : Nat) : decimal (n : Int) = Nat.toDigits 10 n := by
  rw [decimal, if_neg (by omega), Int.natAbs_natCast]

theorem dot_not_digit (n : Nat) : '.' ∉ decimal (n : Int) := by
  rw [decimal_nat]
  intro found
  exact absurd (to_digits_digit found) (by decide)

theorem number_decimal (n : Nat) {rest : Str} (stop : DigitFree rest) :
    number (some (decimal n ++ rest)) = checked32 n := by
  rw [number]
  simp only [Option.bind_eq_bind, Option.bind_some, atoi_decimal _ stop]

theorem get_kver_release (v : Version) {trailing : Str} (stop : DigitFree trailing) :
    get_kver (v.release trailing) = (do
      some (← checked32 v.major, ← checked32 v.minor, ← checked32 v.patch)) := by
  obtain ⟨tail, left, last, begins⟩ := strsep_first '.' (decimal v.patch ++ trailing)
  have word : ∀ c ∈ decimal v.patch, (c != '.') = true := by
    intro c found
    rw [bne_iff_ne]
    rintro rfl
    exact dot_not_digit v.patch found
  have ended : DigitFree (trailing.takeWhile (· != '.')) := by
    intro c head
    cases trailing with
    | nil => cases head
    | cons d ds =>
      rw [List.takeWhile_cons] at head
      split at head
      · exact stop c head
      · cases head
  rw [List.takeWhile_append_of_pos word] at begins
  have none_after : DigitFree [] := by
    intro c head
    cases head
  have major := number_decimal v.major none_after
  have minor := number_decimal v.minor none_after
  rw [List.append_nil] at major minor
  simp only [get_kver, Version.release, strsep_cut (dot_not_digit _), last, begins, major, minor,
    number_decimal v.patch ended]

end scanning

section packing
variable {x y z : Nat} {result : Int}

theorem checked32_nat (n : Nat) :
    checked32 (n : Int) = some result ↔ n < 2147483648 ∧ result = n := by
  rw [checked32_iff, Fits32]
  omega

theorem shift_left (n k : Nat) : shiftLeft n k = checked32 ((2 ^ k * n : Nat) : Int) := by
  rw [shiftLeft, if_neg (by omega)]
  push_cast
  rfl

theorem pack_some : pack x y z = some result ↔
    65536 * x + 256 * y + z < 2147483648 ∧ result = (65536 * x + 256 * y + z : Nat) := by
  simp only [pack, shift_left, Option.bind_eq_bind, Option.bind_eq_some_iff, checked32_nat]
  constructor
  · rintro ⟨_, ⟨_, rfl⟩, _, ⟨_, rfl⟩, sum, both, whole⟩
    rw [← Int.natCast_add, checked32_nat] at both
    obtain ⟨_, rfl⟩ := both
    rw [← Int.natCast_add, checked32_nat] at whole
    exact whole
  · rintro ⟨small, rfl⟩
    refine ⟨_, ⟨by omega, rfl⟩, _, ⟨by omega, rfl⟩, (2 ^ 16 * x + 2 ^ 8 * y : Nat), ?_, ?_⟩
    · rw [← Int.natCast_add, checked32_nat]
      exact ⟨by omega, rfl⟩
    · rw [← Int.natCast_add, checked32_nat]
      exact ⟨small, rfl⟩

theorem kver_some (v : Version) {trailing : Str} (stop : DigitFree trailing)
    {found : Int × Int × Int} : get_kver (v.release trailing) = some found ↔
      v.major < 2147483648 ∧ v.minor < 2147483648 ∧ v.patch < 2147483648 ∧ found = (↑v.major, ↑v.minor, ↑v.patch) := by
  rw [get_kver_release v stop]
  simp only [Option.bind_eq_bind, Option.bind_eq_some_iff, checked32_nat, Option.some.injEq]
  constructor
  · rintro ⟨_, ⟨major, rfl⟩, _, ⟨minor, rfl⟩, _, ⟨patch, rfl⟩, rfl⟩
    exact ⟨major, minor, patch, rfl⟩
  · rintro ⟨major, minor, patch, rfl⟩
    exact ⟨_, ⟨major, rfl⟩, _, ⟨minor, rfl⟩, _, ⟨patch, rfl⟩, rfl⟩

theorem kvercmp_some (current asked : Version) {trailing : Str} (stop : DigitFree trailing) :
    tst_kvercmp (current.release trailing) asked.major asked.minor asked.patch = some result ↔
      current.packed < 2147483648 ∧ asked.packed < 2147483648 ∧ result = (current.packed : Int) - asked.packed := by
  simp only [tst_kvercmp, Option.bind_eq_bind, Option.bind_eq_some_iff, kver_some current stop]
  constructor
  · rintro ⟨_, ⟨_, _, _, rfl⟩, testver, test, currver, curr, diff⟩
    obtain ⟨other, rfl⟩ := pack_some.mp test
    obtain ⟨small, rfl⟩ := pack_some.mp curr
    exact ⟨small, other, (checked32_iff.mp diff).2.symm⟩
  · rintro ⟨small, other, rfl⟩
    unfold Version.packed at small other
    refine ⟨_, ⟨by omega, by omega, by omega, rfl⟩, _, pack_some.mpr ⟨other, rfl⟩, _, pack_some.mpr ⟨small, rfl⟩, ?_⟩
    exact checked32_fits ⟨by omega, by omega⟩

end packing

section order
variable {v w : Version}

theorem packed_lt (below : v.Below w) (outweighed : Outweighed v w) : v.packed < w.packed := by
  obtain ⟨majors, minors⟩ := outweighed
  unfold Version.packed
  rcases below with major | ⟨major, minor | ⟨minor, patch⟩⟩
  · have := majors major
    omega
  · have := minors major minor
    omega
  · omega

theorem outweighed_of_lt (order : v.Below w → v.packed < w.packed) : Outweighed v w := by
  unfold Version.packed at order
  constructor
  · intro major
    have := order (.inl major)
    omega
  · intro major minor
    have := order (.inr ⟨major, .inl minor⟩)
    omega

theorem below_total (v w : Version) : v.Below w ∨ v = w ∨ w.Below v := by
  obtain ⟨a, b, c⟩ := v
  obtain ⟨a', b', c'⟩ := w
  simp only [Version.Below, Version.mk.injEq]
  omega

theorem not_below_self (v : Version) : ¬ v.Below v := by
  unfold Version.Below
  omega

theorem below_apart (below : v.Below w) : v ≠ w ∧ ¬ w.Below v := by
  refine ⟨fun same => not_below_self w (same ▸ below), ?_⟩
  unfold Version.Below at below ⊢
  omega

end order

/-- The comparison is right just when both packed versions fit an `int` and no number that comes later
    makes up for the first one that differs. -/
theorem tst_kvercmp_iff (current asked : Version) (trailing : Str) (stop : DigitFree trailing) :
    Right current asked
        (tst_kvercmp (current.release trailing) asked.major asked.minor asked.patch) ↔
      current.packed < 2147483648 ∧ asked.packed < 2147483648 ∧ Outweighed current asked ∧
        Outweighed asked current := by
  constructor
  · rintro ⟨d, value, negative, _, positive⟩
    obtain ⟨small, other, rfl⟩ := (kvercmp_some current asked stop).mp value
    refine ⟨small, other, outweighed_of_lt fun below => ?_, outweighed_of_lt fun above => ?_⟩
    · have := negative.mpr below
      omega
    · have := positive.mpr above
      omega
  · rintro ⟨small, other, older, newer⟩
    refine ⟨_, (kvercmp_some current asked stop).mpr ⟨small, other, rfl⟩, ?_⟩
    rcases below_total current asked with below | rfl | above
    · have less := packed_lt below older
      have apart := below_apart below
      refine ⟨⟨fun _ => below, fun _ => by omega⟩, ⟨fun zero => by omega, fun same => ?_⟩,
        ⟨fun _ => by omega, fun above => absurd above apart.2⟩⟩
      exact absurd same apart.1
    · have apart := not_below_self current
      exact ⟨⟨fun _ => by omega, fun below => absurd below apart⟩,
        ⟨fun _ => rfl, fun _ => by omega⟩, ⟨fun _ => by omega, fun above => absurd above apart⟩⟩
    · have less := packed_lt above newer
      have apart := below_apart above
      refine ⟨⟨fun _ => by omega, fun below => absurd below apart.2⟩,
        ⟨fun zero => by omega, fun same => ?_⟩, ⟨fun _ => above, fun _ => by omega⟩⟩
      exact absurd same.symm apart.1

theorem kvercmp_of_generic_kernel : Right ⟨4, 4, 255⟩ ⟨4, 5, 0⟩
    (tst_kvercmp (Version.release ⟨4, 4, 255⟩ "-21.generic".toList) 4 5 0) := by
  have stop : DigitFree "-21.generic".toList := by
    intro c head
    obtain rfl : '-' = c := Option.some.inj head
    decide
  refine (tst_kvercmp_iff ⟨4, 4, 255⟩ ⟨4, 5, 0⟩ _ stop).mpr ⟨by decide, by decide, ?_, ?_⟩
  · exact ⟨fun major => absurd major (by decide), fun _ _ => by decide⟩
  · exact ⟨fun major => absurd major (by decide), fun _ minor => absurd minor (by decide)⟩

theorem patch_outweighs_minor : ¬ Right ⟨4, 4, 302⟩ ⟨4, 5, 0⟩
    (tst_kvercmp (Version.release ⟨4, 4, 302⟩ "-lts".toList) 4 5 0) := by
  have stop : DigitFree "-lts".toList := by
    intro c head
    obtain rfl : '-' = c := Option.some.inj head
    decide
  have value : tst_kvercmp (Version.release ⟨4, 4, 302⟩ "-lts".toList) 4 5 0 = some 46 :=
    (kvercmp_some ⟨4, 4, 302⟩ ⟨4, 5, 0⟩ stop).mpr ⟨by decide, by decide, by decide⟩
  rintro ⟨d, same, _, _, positive⟩
  rw [value] at same
  obtain rfl := Option.some.inj same
  have newer : Version.Below ⟨4, 5, 0⟩ ⟨4, 4, 302⟩ := positive.mp (by decide)
  unfold Version.Below at newer
  simp at newer

end Kvercmp
