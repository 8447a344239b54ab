import Vte.Base.Bytes
import Mathlib.Data.List.Infix
import Mathlib.Tactic.Common

/-!
direct_io/diotest_routines.c: `filecmp`, which compares two regular files a buffer at a time. The loop
goes on as long as the first file has bytes; what the second one has after them is not looked at.
-/
namespace Filecmp
open Bytes

def bufsiz : Nat := 8192

inductive Difference where
  | openFailed (first : Bool)
  /-- `file length mistmatch`, with the bytes that the two reads gave -/
  | length (ret1 ret2 : Nat)
  | char (i : Nat)
deriving DecidableEq

/-- One `read` of a regular file: what it gives, and what is left. -/
def read (fd : List Byte) : List Byte × List Byte := (fd.take bufsiz, fd.drop bufsiz)

/-- The first index at which `strncmp` of one character is not zero. -/
def mismatch (buf1 buf2 : List Byte) : Option Nat := (buf1.zip buf2).findIdx? fun c => c.1 ≠ c.2

def compare (fd1 fd2 : List Byte) : Except Difference Unit :=
  let buf1 := (read fd1).1
  if buf1.length = 0 then .ok ()
  else
    let buf2 := (read fd2).1
    if buf1.length ≠ buf2.length then .error (.length buf1.length buf2.length)
    else
      match mismatch buf1 buf2 with
      | some i => .error (.char i)
      | none => compare (read fd1).2 (read fd2).2
termination_by fd1.length
decreasing_by
  have more : buf1.length ≠ 0 := ‹_›
  simp only [buf1, read, List.length_take] at more
  simp only [read, List.length_drop, bufsiz]
  omega

def compare_files (f1 f2 : Option (List Byte)) : Except Difference Unit :=
  match f1, f2 with
  | none, _ => .error (.openFailed true)
  | some _, none => .error (.openFailed false)
  | some fd1, some fd2 => compare fd1 fd2

def filecmp (f1 f2 : Option (List Byte)) : Int :=
  match compare_files f1 f2 with
  | .ok _ => 0
  | .error _ => -1

def CutAtBuffer (a b : List Byte) : Prop := a <+: b ∧ a ≠ b ∧ bufsiz ∣ a.length

instance (a b : List Byte) : Decidable (CutAtBuffer a b) :=
  inferInstanceAs (Decidable (a <+: b ∧ a ≠ b ∧ bufsiz ∣ a.length))

def Faithful (a b : List Byte) : Prop := filecmp (some a) (some b) = 0 ↔ a = b

theorem mismatch_none {buf1 buf2 : List Byte} (same : buf1.length = buf2.length) :
    mismatch buf1 buf2 = none ↔ buf1 = buf2 := by
  induction buf1 generalizing buf2 with
  | nil =>
    have empty : buf2 = [] := List.length_eq_zero_iff.mp same.symm
    simp [mismatch, empty]
  | cons c buf1 ih =>
    cases buf2 with
    | nil => simp at same
    | cons d buf2 =>
      have rest := ih (Nat.succ.inj same)
      simp only [mismatch, List.findIdx?_eq_none_iff] at rest
      simp only [mismatch, List.zip_cons_cons, List.findIdx?_eq_none_iff, List.forall_mem_cons, rest, List.cons.injEq]
      simp

theorem read_append (fd : List Byte) : (read fd).1 ++ (read fd).2 = fd := List.take_append_drop bufsiz fd

theorem read_full {fd : List Byte} (more : (read fd).2 ≠ []) : (read fd).1.length = bufsiz := by
  have left := List.length_pos_iff.mpr more
  simp only [read, List.length_drop] at left
  simp only [read, List.length_take]
  omega

theorem read_nil {fd : List Byte} : (read fd).1.length = 0 ↔ fd = [] := by
  simp [read, bufsiz]

theorem buffers_agree {fd1 fd2 : List Byte} (more : fd1 ≠ [])
    (agree : fd1 = fd2 ∨ CutAtBuffer fd1 fd2) : (read fd1).1 = (read fd2).1 := by
  rcases agree with same | ⟨begins, _, whole⟩
  · rw [same]
  · have full : bufsiz ≤ fd1.length := Nat.le_of_dvd (List.length_pos_iff.mpr more) whole
    obtain ⟨rest, rfl⟩ := begins
    exact (List.take_append_of_le_length full).symm

theorem agree_rest {buf rest1 rest2 : List Byte} (full : rest1 ≠ rest2 → buf.length = bufsiz) :
    (buf ++ rest1 = buf ++ rest2 ∨ CutAtBuffer (buf ++ rest1) (buf ++ rest2)) ↔
      (rest1 = rest2 ∨ CutAtBuffer rest1 rest2) := by
  by_cases same : rest1 = rest2
  · simp [same]
  · have whole : bufsiz ∣ buf.length + rest1.length ↔ bufsiz ∣ rest1.length := by
      rw [full same, Nat.dvd_add_right (Nat.dvd_refl bufsiz)]
    simp only [CutAtBuffer, ne_eq, List.append_cancel_left_eq, List.prefix_append_right_inj, List.length_append, whole]

/-- A comparison that finds nothing has looked at all of the first file, and has seen of the second one as
much: all of it, or whole buffers. -/
theorem compare_ok (fd1 fd2 : List Byte) :
    compare fd1 fd2 = .ok () ↔ fd1 = fd2 ∨ CutAtBuffer fd1 fd2 := by
  induction fd1, fd2 using compare.induct with
  | case1 fd1 fd2 buf1 empty =>
    obtain rfl := read_nil.mp empty
    rw [compare, if_pos empty]
    simp only [CutAtBuffer, List.nil_prefix, List.length_nil, Nat.dvd_zero]
    tauto
  | case2 fd1 fd2 buf1 more buf2 differ =>
    have present : fd1 ≠ [] := fun empty => more (read_nil.mpr empty)
    rw [compare, if_neg more, if_pos differ]
    simp only [reduceCtorEq, false_iff]
    intro agree
    exact differ (congrArg List.length (buffers_agree present agree))
  | case3 fd1 fd2 buf1 more buf2 equal i found =>
    have present : fd1 ≠ [] := fun empty => more (read_nil.mpr empty)
    rw [compare, if_neg more, if_neg equal, found]
    simp only [reduceCtorEq, false_iff]
    intro agree
    have none_found := (mismatch_none (not_not.mp equal)).mpr (buffers_agree present agree)
    rw [found] at none_found
    cases none_found
  | case4 fd1 fd2 buf1 more buf2 equal none_found ih =>
    have same : (read fd1).1 = (read fd2).1 := (mismatch_none (not_not.mp equal)).mp none_found
    have full : (read fd1).2 ≠ (read fd2).2 → (read fd1).1.length = bufsiz := by
      intro differ
      by_cases more1 : (read fd1).2 = []
      · rw [same]
        exact read_full fun more2 => differ (more1.trans more2.symm)
      · exact read_full more1
    have rest := agree_rest full
    rw [read_append, same, read_append] at rest
    rw [compare, if_neg more, if_neg equal, none_found, rest]
    exact ih

theorem filecmp_zero (a b : List Byte) :
    filecmp (some a) (some b) = 0 ↔ a = b ∨ CutAtBuffer a b := by
  rw [← compare_ok, filecmp, compare_files]
  cases compare a b with
  | ok _ => simp
  | error _ => simp

theorem faithful_iff (a b : List Byte) : Faithful a b ↔ ¬ CutAtBuffer a b := by
  have proper : CutAtBuffer a b → a ≠ b := fun cut => cut.2.1
  rw [Faithful, filecmp_zero]
  tauto

/-- Both orders of the arguments tell equal files from others unless one of the two files is cut at a
buffer of the other. -/
theorem filecmp_both_orders (a b : List Byte) :
    (Faithful a b ∧ Faithful b a) ↔ ¬ CutAtBuffer a b ∧ ¬ CutAtBuffer b a := by
  rw [faithful_iff, faithful_iff]

theorem empty_file_equal_to_byte :
    ¬ ∀ a b : List Byte, (filecmp (some a) (some b) = 0 ↔ a = b) ∧ (filecmp (some b) (some a) = 0 ↔ b = a) := by
  intro all
  have zero : filecmp (some []) (some [0]) = 0 := by
    rw [filecmp_zero]
    exact Or.inr (by decide)
  exact absurd ((all [] [0]).1.mp zero) (by decide)

end Filecmp
