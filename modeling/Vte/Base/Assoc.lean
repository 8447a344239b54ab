import Mathlib.Data.List.Basic
import Mathlib.Data.List.Induction

/-!
Association lists that keep their keys in the order of insertion: lookup, insertion or update of
one key, and what a sequence of updates leaves under each key.
-/
namespace Assoc
variable {κ β : Type} [DecidableEq κ]

def find (k : κ) : List (κ × β) → Option β
  | [] => none
  | (k', b) :: entries => if k' = k then some b else find k entries

/-- Replace the value under the first entry with the key, or add an entry at the end. -/
def upsert (k : κ) (f : Option β → β) : List (κ × β) → List (κ × β)
  | [] => [(k, f none)]
  | (k', b) :: entries => if k' = k then (k', f (some b)) :: entries else (k', b) :: upsert k f entries

def keys (entries : List (κ × β)) : List κ := entries.map Prod.fst

def firsts (ks : List κ) : List κ := ks.foldl (fun seen k => if k ∈ seen then seen else seen ++ [k]) []

variable {k k' : κ} {f : Option β → β} {entries : List (κ × β)}

theorem find_upsert_same : find k (upsert k f entries) = some (f (find k entries)) := by
  induction entries with
  | nil => simp [upsert, find]
  | cons entry entries ih =>
    obtain ⟨k', b⟩ := entry
    by_cases same : k' = k
    · simp [upsert, find, same]
    · simp [upsert, find, same, ih]

theorem find_upsert_other (other : k' ≠ k) : find k' (upsert k f entries) = find k' entries := by
  induction entries with
  | nil => simp [upsert, find, Ne.symm other]
  | cons entry entries ih =>
    obtain ⟨j, b⟩ := entry
    by_cases same : j = k
    · simp [upsert, find, same, Ne.symm other]
    · simp [upsert, find, same, ih]

theorem mem_of_find {b : β} (found : find k entries = some b) : (k, b) ∈ entries := by
  induction entries with
  | nil => cases found
  | cons entry entries ih =>
    obtain ⟨j, c⟩ := entry
    by_cases same : j = k
    · simp only [find, same, if_true, Option.some.injEq] at found
      simp [same, found]
    · rw [find, if_neg same] at found
      exact List.mem_cons_of_mem _ (ih found)

theorem mem_of_upsert {entry : κ × β} (mem : entry ∈ upsert k f entries) :
    entry ∈ entries ∨ entry.2 = f (find k entries) := by
  induction entries with
  | nil =>
    rw [upsert, List.mem_singleton] at mem
    exact Or.inr (by rw [mem]; rfl)
  | cons entry' entries ih =>
    obtain ⟨j, c⟩ := entry'
    by_cases same : j = k
    · rw [upsert, if_pos same] at mem
      rcases List.mem_cons.mp mem with rfl | mem
      · exact Or.inr (by rw [find, if_pos same])
      · exact Or.inl (List.mem_cons_of_mem _ mem)
    · rw [upsert, if_neg same] at mem
      rw [find, if_neg same]
      rcases List.mem_cons.mp mem with rfl | mem
      · exact Or.inl (by simp)
      · exact (ih mem).imp (List.mem_cons_of_mem _) id

theorem upsert_absent (absent : find k entries = none) :
    upsert k f entries = entries ++ [(k, f none)] := by
  induction entries with
  | nil => rfl
  | cons entry entries ih =>
    obtain ⟨j, b⟩ := entry
    by_cases same : j = k
    · simp [find, same] at absent
    · rw [find, if_neg same] at absent
      rw [upsert, if_neg same, ih absent, List.cons_append]

theorem upsert_same {b : β} (found : find k entries = some b) :
    upsert k (fun _ => b) entries = entries := by
  induction entries with
  | nil => cases found
  | cons entry entries ih =>
    obtain ⟨j, c⟩ := entry
    by_cases same : j = k
    · rw [find, if_pos same] at found
      rw [upsert, if_pos same, Option.some.inj found]
    · rw [find, if_neg same] at found
      rw [upsert, if_neg same, ih found]

theorem upsert_congr {f' : Option β → β} (same : f (find k entries) = f' (find k entries)) :
    upsert k f entries = upsert k f' entries := by
  induction entries with
  | nil => simpa [upsert, find] using same
  | cons entry entries ih =>
    obtain ⟨j, b⟩ := entry
    by_cases here : j = k
    · simpa [upsert, find, here] using same
    · rw [find, if_neg here] at same
      rw [upsert, upsert, if_neg here, if_neg here, ih same]

theorem find_append (entries' : List (κ × β)) :
    find k (entries ++ entries') = (find k entries).or (find k entries') := by
  induction entries with
  | nil => rfl
  | cons entry entries ih =>
    by_cases same : entry.1 = k
    · simp [find, same]
    · simp [find, same, ih]

/-- With different keys, the last entry holds what lookup finds under the last key. -/
theorem find_last (nodup : (keys entries).Nodup) {b : β} (last : entries.getLast? = some (k, b)) :
    find k entries = some b := by
  induction entries with
  | nil => cases last
  | cons entry entries ih =>
    obtain ⟨j, c⟩ := entry
    obtain ⟨fresh, rest⟩ := List.nodup_cons.mp nodup
    cases entries with
    | nil =>
      obtain ⟨rfl, rfl⟩ : j = k ∧ c = b := by simpa using last
      simp [find]
    | cons entry' entries =>
      rw [List.getLast?_cons_cons] at last
      have other : j ≠ k := by
        rintro rfl
        exact fresh (List.mem_map.mpr ⟨_, List.mem_of_getLast? last, rfl⟩)
      rw [find, if_neg other]
      exact ih rest last

theorem find_some_iff : (∃ b, find k entries = some b) ↔ k ∈ keys entries := by
  induction entries with
  | nil => simp [find, keys]
  | cons entry entries ih =>
    obtain ⟨j, b⟩ := entry
    by_cases same : j = k
    · simp [find, keys, same]
    · simpa [find, keys, same, Ne.symm same] using ih

omit [DecidableEq κ] in
theorem keys_cons (k : κ) (b : β) : keys ((k, b) :: entries) = k :: keys entries := rfl

theorem keys_upsert :
    keys (upsert k f entries) = if k ∈ keys entries then keys entries else keys entries ++ [k] := by
  induction entries with
  | nil => simp [upsert, keys]
  | cons entry entries ih =>
    obtain ⟨j, b⟩ := entry
    by_cases same : j = k
    · simp [upsert, keys_cons, same]
    · rw [upsert, if_neg same, keys_cons, keys_cons, ih]
      by_cases seen : k ∈ keys entries
      · rw [if_pos seen, if_pos (List.mem_cons_of_mem j seen)]
      · have unseen : k ∉ j :: keys entries := by simp [Ne.symm same, seen]
        rw [if_neg seen, if_neg unseen, List.cons_append]

theorem upsert_nodup (nodup : (keys entries).Nodup) : (keys (upsert k f entries)).Nodup := by
  rw [keys_upsert]
  split
  · exact nodup
  · rename_i fresh
    simpa [List.nodup_append] using ⟨nodup, fun a mem same => fresh (same ▸ mem)⟩

theorem firsts_snoc (ks : List κ) (k : κ) :
    firsts (ks ++ [k]) = if k ∈ firsts ks then firsts ks else firsts ks ++ [k] := by
  rw [firsts, List.foldl_append]
  rfl

theorem mem_firsts {ks : List κ} : k ∈ firsts ks ↔ k ∈ ks := by
  induction ks using List.reverseRecOn with
  | nil => simp [firsts]
  | append_singleton ks j ih =>
    rw [firsts_snoc]
    split
    · rename_i seen
      simp only [List.mem_append, List.mem_singleton, ih]
      constructor
      · exact Or.inl
      · rintro (mem | rfl)
        · exact mem
        · exact ih.mp seen
    · simp [ih]

theorem firsts_nodup (ks : List κ) : (firsts ks).Nodup := by
  induction ks using List.reverseRecOn with
  | nil => simp [firsts]
  | append_singleton ks j ih =>
    rw [firsts_snoc]
    split
    · exact ih
    · rename_i unseen
      simpa [List.nodup_append] using ⟨ih, fun a mem same => unseen (same ▸ mem)⟩

theorem firsts_eq_nil {ks : List κ} : firsts ks = [] ↔ ks = [] := by
  constructor
  · intro empty
    rw [List.eq_nil_iff_forall_not_mem]
    intro k mem
    have found := mem_firsts.mpr mem
    rw [empty] at found
    cases found
  · rintro rfl
    rfl

theorem mem_iff_find (nodup : (keys entries).Nodup) {b : β} :
    (k, b) ∈ entries ↔ find k entries = some b := by
  induction entries with
  | nil => simp [find]
  | cons entry entries ih =>
    obtain ⟨j, c⟩ := entry
    obtain ⟨fresh, rest⟩ := List.nodup_cons.mp nodup
    by_cases same : j = k
    · subst same
      have absent : (j, b) ∉ entries := fun mem => fresh (List.mem_map.mpr ⟨_, mem, rfl⟩)
      simp [find, absent, eq_comm]
    · simp [find, same, Ne.symm same, ih rest]

def upserts (xs : List (κ × (Option β → β))) : List (κ × β) :=
  xs.foldl (fun entries x => upsert x.1 x.2 entries) []

def applied (k : κ) (xs : List (κ × (Option β → β))) : Option β :=
  (xs.filter (·.1 = k)).foldl (fun b x => some (x.2 b)) none

theorem upserts_snoc (xs : List (κ × (Option β → β))) (x : κ × (Option β → β)) :
    upserts (xs ++ [x]) = upsert x.1 x.2 (upserts xs) := by
  simp [upserts]

theorem keys_upserts (xs : List (κ × (Option β → β))) :
    keys (upserts xs) = firsts (xs.map Prod.fst) := by
  induction xs using List.reverseRecOn with
  | nil => rfl
  | append_singleton xs x ih =>
    rw [upserts_snoc, keys_upsert, ih, List.map_append, List.map_singleton, firsts_snoc]

theorem find_upserts (k : κ) (xs : List (κ × (Option β → β))) :
    find k (upserts xs) = applied k xs := by
  induction xs using List.reverseRecOn with
  | nil => rfl
  | append_singleton xs x ih =>
    obtain ⟨j, f⟩ := x
    rw [upserts_snoc]
    by_cases same : j = k
    · subst same
      rw [find_upsert_same, ih]
      simp [applied]
    · rw [find_upsert_other (Ne.symm same), ih]
      simp [applied, same]

section map
variable {γ : Type} (g : β → γ)

def mapValues (entries : List (κ × β)) : List (κ × γ) := entries.map fun e => (e.1, g e.2)

omit [DecidableEq κ] in
theorem keys_map (entries : List (κ × β)) : keys (mapValues g entries) = keys entries := by
  simp [keys, mapValues]

theorem find_map (k : κ) (entries : List (κ × β)) :
    find k (mapValues g entries) = (find k entries).map g := by
  induction entries with
  | nil => rfl
  | cons entry entries ih =>
    by_cases same : entry.1 = k
    · simp [mapValues, find, same]
    · simp only [mapValues] at ih
      simp [mapValues, find, same, ih]

theorem upsert_map {k : κ} {f : Option γ → γ} {f' : Option β → β}
    (commutes : ∀ b, f (b.map g) = g (f' b)) (entries : List (κ × β)) :
    upsert k f (mapValues g entries) = mapValues g (upsert k f' entries) := by
  induction entries with
  | nil => simpa [mapValues, upsert] using commutes none
  | cons entry entries ih =>
    by_cases same : entry.1 = k
    · simpa [mapValues, upsert, same] using commutes (some entry.2)
    · simp only [mapValues] at ih
      simp [mapValues, upsert, same, ih]

end map
end Assoc
