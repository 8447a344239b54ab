import Vte.Base.Machine
import Vte.Pan.Symbol

/-!
pan/symbol.c as a map: what a put leaves under every key, the order of the entries of each level,
and the cursor that steps through them.
-/
namespace VteSymbolMap
open Text Assoc VteSymbol

def below : Option Sym → Option Table
  | none => some []
  | some (.table sub) => some sub
  | _ => none

def level : List Str → Table → Table
  | [], entries => entries
  | k :: ks, entries =>
    match below (find k entries) with
    | some sub => level ks sub
    | none => []

section keys
variable {data : Sym} {replace : Bool} {k : Str} {ks path : List Str} {entries after : Table}

theorem put_keys_ok (stored : putKeys data replace (k :: ks) entries = (after, .ok)) :
    (ks = [] ∧ after = upsert k (fun _ => data) entries) ∨ ∃ sub sub', ks ≠ [] ∧ below (find k entries) = some sub ∧
        putKeys data replace ks sub = (sub', .ok) ∧
        after = upsert k (fun _ => .table sub') entries := by
  rw [putKeys] at stored
  cases found : find k entries with
  | none =>
    simp only [found, Prod.mk.injEq, and_true] at stored
    cases ks with
    | nil => exact Or.inl ⟨rfl, by rw [upsert_absent found, ← stored]; rfl⟩
    | cons j js =>
      refine Or.inr ⟨[], [(j, chain data js)], by simp, rfl, rfl, ?_⟩
      rw [upsert_absent found, ← stored]
      rfl
  | some old =>
    simp only [found] at stored
    by_cases last : ks = []
    · rw [if_pos last] at stored
      cases replace with
      | false => simp at stored
      | true => exact Or.inl ⟨last, by simpa using stored.symm⟩
    · rw [if_neg last] at stored
      cases old with
      | null => simp at stored
      | leaf text => simp at stored
      | table sub =>
        simp only [Prod.mk.injEq] at stored
        exact Or.inr ⟨sub, _, last, rfl, Prod.ext rfl stored.2, stored.1.symm⟩

theorem put_keys_refused (ks : List Str) :
    ∀ entries, (putKeys data replace ks entries).2 ≠ .ok → (putKeys data replace ks entries).1 = entries := by
  induction ks with
  | nil => exact fun entries _ => rfl
  | cons k ks ih =>
    intro entries refused
    rw [putKeys] at refused ⊢
    cases found : find k entries with
    | none => simp [found] at refused
    | some old =>
      simp only [found] at refused ⊢
      by_cases last : ks = []
      · rw [if_pos last] at refused ⊢
        cases replace with
        | false => rfl
        | true => exact absurd rfl refused
      · rw [if_neg last] at refused ⊢
        cases old with
        | null => rfl
        | leaf text => rfl
        | table sub =>
          simp only at refused ⊢
          rw [ih sub refused]
          exact upsert_same found

theorem get_keys_cons (some_keys : ks ≠ []) :
    getKeys (k :: ks) entries = (below (find k entries)).bind (getKeys ks) := by
  rw [getKeys]
  cases found : find k entries with
  | none =>
    cases ks with
    | nil => exact absurd rfl some_keys
    | cons j js => rfl
  | some old =>
    simp only [if_neg some_keys]
    cases old <;> rfl

theorem get_keys_single : getKeys [k] entries = find k entries := by
  rw [getKeys]
  cases find k entries <;> rfl

theorem put_keys_get : ∀ {ks : List Str} {entries after : Table}, ks ≠ [] →
    putKeys data replace ks entries = (after, .ok) → getKeys ks after = some data := by
  intro ks
  induction ks with
  | nil => exact fun some_keys => absurd rfl some_keys
  | cons k ks ih =>
    intro entries after _ stored
    rcases put_keys_ok stored with ⟨rfl, rfl⟩ | ⟨sub, sub', some_keys, _, inner, rfl⟩
    · rw [get_keys_single, find_upsert_same]
    · rw [get_keys_cons some_keys, find_upsert_same]
      exact ih some_keys inner

theorem put_keys_get_other : ∀ {ks path : List Str} {entries after : Table},
    ¬ ks <+: path → ¬ path <+: ks → putKeys data replace ks entries = (after, .ok) →
      getKeys path after = getKeys path entries := by
  intro ks
  induction ks with
  | nil => exact fun not_below => absurd List.nil_prefix not_below
  | cons k ks ih =>
    intro path entries after not_below not_above stored
    cases path with
    | nil => exact absurd List.nil_prefix not_above
    | cons p path =>
      by_cases same : k = p
      · subst same
        rw [List.cons_prefix_cons] at not_below not_above
        simp only [true_and] at not_below not_above
        have some_path : path ≠ [] := by
          rintro rfl
          exact not_above List.nil_prefix
        rcases put_keys_ok stored with ⟨rfl, rfl⟩ | ⟨sub, sub', some_keys, there, inner, rfl⟩
        · exact absurd List.nil_prefix not_below
        · rw [get_keys_cons some_path, get_keys_cons some_path, find_upsert_same, there]
          exact ih not_below not_above inner
      · have apart : find p after = find p entries := by
          rcases put_keys_ok stored with ⟨_, rfl⟩ | ⟨_, _, _, _, _, rfl⟩
          · exact find_upsert_other (Ne.symm same)
          · exact find_upsert_other (Ne.symm same)
        rw [getKeys, getKeys, apart]

theorem put_keys_order_above : ∀ {path : List Str} {entries after : Table},
    putKeys data replace (path ++ k :: ks) entries = (after, .ok) → keys (level path after) =
        if k ∈ keys (level path entries) then keys (level path entries)
        else keys (level path entries) ++ [k] := by
  intro path
  induction path with
  | nil =>
    intro entries after stored
    rw [List.nil_append] at stored
    have grown (f : Option Sym → Sym) : keys (upsert k f entries) =
        if k ∈ keys entries then keys entries else keys entries ++ [k] := by
      rw [keys_upsert]
      congr
    rcases put_keys_ok stored with ⟨_, rfl⟩ | ⟨_, _, _, _, _, rfl⟩
    · exact grown _
    · exact grown _
  | cons p path ih =>
    intro entries after stored
    rw [List.cons_append] at stored
    rcases put_keys_ok stored with ⟨last, _⟩ | ⟨sub, sub', _, there, inner, rfl⟩
    · simp at last
    · rw [level, level, find_upsert_same, there]
      exact ih inner

theorem put_keys_level_below {text : Str} : ∀ {ks path : List Str} {entries after : Table},
    ks ≠ [] → ks <+: path → putKeys (.leaf text) replace ks entries = (after, .ok) → level path after = [] := by
  intro ks
  induction ks with
  | nil => exact fun some_keys => absurd rfl some_keys
  | cons k ks ih =>
    intro path entries after _ not_above stored
    obtain ⟨rest, rfl⟩ := not_above
    rw [List.cons_append, level]
    rcases put_keys_ok stored with ⟨rfl, rfl⟩ | ⟨sub, sub', some_keys, there, inner, rfl⟩
    · rw [find_upsert_same]
      rfl
    · rw [find_upsert_same]
      exact ih some_keys (List.prefix_append ks rest) inner

theorem put_keys_level_other : ∀ {ks path : List Str} {entries after : Table},
    ¬ ks <+: path → ¬ path <+: ks → putKeys data replace ks entries = (after, .ok) →
      level path after = level path entries := by
  intro ks
  induction ks with
  | nil => exact fun not_below => absurd List.nil_prefix not_below
  | cons k ks ih =>
    intro path entries after not_below not_above stored
    cases path with
    | nil => exact absurd List.nil_prefix not_above
    | cons p path =>
      by_cases same : k = p
      · subst same
        rw [List.cons_prefix_cons] at not_below not_above
        simp only [true_and] at not_below not_above
        rcases put_keys_ok stored with ⟨rfl, rfl⟩ | ⟨sub, sub', some_keys, there, inner, rfl⟩
        · exact absurd List.nil_prefix not_below
        · rw [level, level, find_upsert_same, there]
          exact ih not_below not_above inner
      · have apart : find p after = find p entries := by
          rcases put_keys_ok stored with ⟨_, rfl⟩ | ⟨_, _, _, _, _, rfl⟩
          · exact find_upsert_other (Ne.symm same)
          · exact find_upsert_other (Ne.symm same)
        rw [level, level, apart]

end keys

def Word (k : Str) : Prop := k ≠ [] ∧ ',' ∉ k

inductive WellKeyed : Sym → Prop where
  | null : WellKeyed .null
  | leaf (text : Str) : WellKeyed (.leaf text)
  | table (entries : List (Str × Sym)) (nodup : (keys entries).Nodup)
    (words : ∀ entry ∈ entries, Word entry.1) (inner : ∀ entry ∈ entries, WellKeyed entry.2) :
    WellKeyed (.table entries)

section wellKeyed
variable {data : Sym} {replace : Bool} {entries after : Table}

theorem component_word {key w : Str} (mem : w ∈ components key) : Word w := by
  refine ⟨token_some mem, ?_⟩
  intro comma
  have plain := token_plain mem ',' comma
  simp at plain

theorem upsert_well_keyed {k : Str} {d : Sym} (before : WellKeyed (.table entries)) (word : Word k)
    (fine : WellKeyed d) : WellKeyed (.table (upsert k (fun _ => d) entries)) := by
  cases before with
  | table _ nodup words inner =>
    refine .table _ ?_ ?_ ?_
    · rw [keys_upsert]
      split
      · exact nodup
      · rename_i fresh
        rw [List.nodup_append]
        refine ⟨nodup, by simp, ?_⟩
        intro a mem b same
        rw [List.mem_singleton.mp same]
        rintro rfl
        exact fresh mem
    · intro entry mem
      have known : entry.1 ∈ keys (upsert k (fun _ => d) entries) := List.mem_map.mpr ⟨_, mem, rfl⟩
      rw [keys_upsert] at known
      have old : ∀ j ∈ keys entries, Word j := by
        intro j there
        obtain ⟨e, listed, rfl⟩ := List.mem_map.mp there
        exact words e listed
      split at known
      · exact old _ known
      · rcases List.mem_append.mp known with known | known
        · exact old _ known
        · rw [List.mem_singleton.mp known]
          exact word
    · intro entry mem
      rcases mem_of_upsert mem with mem | same
      · exact inner entry mem
      · rw [same]
        exact fine

theorem empty_well_keyed : WellKeyed (.table []) :=
  .table [] (by simp [keys]) (by simp) (by simp)

theorem below_well_keyed {k : Str} {sub : Table} (before : WellKeyed (.table entries))
    (there : below (find k entries) = some sub) : WellKeyed (.table sub) := by
  cases found : find k entries with
  | none =>
    rw [found] at there
    obtain rfl := Option.some.inj there
    exact empty_well_keyed
  | some old =>
    rw [found] at there
    cases before with
    | table _ _ _ inner =>
      have fine := inner _ (mem_of_find found)
      cases old with
      | null => cases there
      | leaf text => cases there
      | table sub' =>
        obtain rfl := Option.some.inj there
        exact fine

theorem put_keys_well_keyed (fine : WellKeyed data) : ∀ {ks : List Str} {entries after : Table},
    (∀ k ∈ ks, Word k) → WellKeyed (.table entries) →
      putKeys data replace ks entries = (after, .ok) → WellKeyed (.table after) := by
  intro ks
  induction ks with
  | nil =>
    intro entries after _ before stored
    simp [putKeys] at stored
  | cons k ks ih =>
    intro entries after words before stored
    obtain ⟨word, words⟩ := List.forall_mem_cons.mp words
    rcases put_keys_ok stored with ⟨_, rfl⟩ | ⟨sub, sub', _, there, inner, rfl⟩
    · exact upsert_well_keyed before word fine
    · exact upsert_well_keyed before word (ih words (below_well_keyed before there) inner)

theorem level_well_keyed : ∀ {path : List Str} {entries : Table},
    WellKeyed (.table entries) → WellKeyed (.table (level path entries)) := by
  intro path
  induction path with
  | nil => exact fun before => before
  | cons p path ih =>
    intro entries before
    rw [level]
    split
    · rename_i sub there
      exact ih (below_well_keyed before there)
    · exact empty_well_keyed

end wellKeyed

inductive Cursor where
  | null
  /-- the node of this number in the table at the path -/
  | node (path : List Str) (index : Nat)
  /-- the first of these nodes, of a table that has been replaced -/
  | replaced (rest : Table)

structure SymTab where
  entries : Table
  cursor : Cursor

def newsym : SymTab := { entries := [], cursor := .null }

inductive Flag where
  | first
  | cursor (key : Str)
  | next

inductive Answer where
  | entry (key : Str) (data : Sym)
  | noMore
  | noTable

def SymTab.rest (s : SymTab) : Table :=
  match s.cursor with
  | .null => []
  | .node path index => (level path s.entries).drop index
  | .replaced rest => rest

def SymTab.get (s : SymTab) (key : Str) : Option Sym := symGet (some s.entries) key

/-- Where the cursor is after the node at `ks` has got other data. -/
def SymTab.detached (s : SymTab) (ks : List Str) : Cursor :=
  match s.cursor with
  | .node path index => if ks <+: path then .replaced s.rest else .node path index
  | c => c

def SymTab.put (s : SymTab) (key : Str) (data : Sym) (replace : Bool) : Option (SymTab × Status) :=
  match symPut (some s.entries) key data replace with
  | some (some entries, .ok) => some ({ entries, cursor := s.detached (components key) }, .ok)
  | some (some entries, status) => some ({ s with entries }, status)
  | _ => none

def SymTab.settle (s : SymTab) (c : Cursor) : SymTab × Answer :=
  match SymTab.rest { s with cursor := c } with
  | [] => ({ s with cursor := .null }, .noMore)
  | (key, data) :: _ => ({ s with cursor := c }, .entry key data)

/-- `sym_seq`; the answers are 0 with a key and its data, 1 and 2. -/
def SymTab.seq (s : SymTab) : Flag → Option (SymTab × Answer)
  | .cursor key => do
    match ← s.get key with
    | .table _ => some (s.settle (.node (components key) 0))
    | _ => some (s, .noTable)
  | .first => some (s.settle (.node [] 0))
  | .next =>
    match s.cursor with
    | .null => some (s, .noMore)
    | .node path index => some (s.settle (.node path (index + 1)))
    | .replaced rest => some (s.settle (.replaced rest.tail))

inductive Call where
  | put (key : Str) (data : Sym) (replace : Bool)
  | get (key : Str)
  | seq (flag : Flag)

def call : Call → SymTab → Option SymTab
  | .put key data replace, s => (s.put key data replace).map Prod.fst
  | .get key, s => (s.get key).map fun _ => s
  | .seq flag, s => (s.seq flag).map Prod.fst

def Call.Plain : Call → Prop
  | .put _ data _ => ∃ text, data = .leaf text
  | _ => True

def Call.Named : Call → Prop
  | .put key _ replace => replace = true → components key ≠ []
  | .get key => components key ≠ []
  | .seq (.cursor key) => components key ≠ []
  | .seq _ => True

/-- The entries that `sym_seq` returns, with the flag and then with `R_NEXT` until no more. -/
inductive Walk : Flag → SymTab → Table → Prop where
  | noMore {flag : Flag} {s t : SymTab} (last : s.seq flag = some (t, .noMore)) : Walk flag s []
  | entry {flag : Flag} {s t : SymTab} {key : Str} {data : Sym} {more : Table}
    (here : s.seq flag = some (t, .entry key data)) (walked : Walk .next t more) :
    Walk flag s ((key, data) :: more)

def SymTab.order (s : SymTab) (path : List Str) : List Str := keys (level path s.entries)

/-- A walk over a level: every key once, the oldest first, and the data that a get of it finds. -/
structure Listing (s : SymTab) (path : List Str) (keyOf : Str → Str) (listed : Table) : Prop where
  order : keys listed = s.order path
  once : (keys listed).Nodup
  current : ∀ entry ∈ listed, s.get (keyOf entry.1) = some entry.2

structure PutSpec (s : SymTab) (key : Str) (data : Sym) (t : SymTab) (status : Status) : Prop where
  stored : status = .ok → t.get key = some data
  others : status = .ok → ∀ other, components other ≠ [] →
    ¬ components key <+: components other → ¬ components other <+: components key → t.get other = s.get other
  appended : status = .ok → ∀ path k ks, components key = path ++ k :: ks →
    t.order path = if k ∈ s.order path then s.order path else s.order path ++ [k]
  cut : status = .ok → ∀ path, components key <+: path → t.order path = []
  kept : status = .ok → ∀ path, ¬ components key <+: path → ¬ path <+: components key → t.order path = s.order path
  refused : status ≠ .ok → ∀ other, t.get other = s.get other

structure IsMap (s : SymTab) : Prop where
  put : ∀ key text replace, (replace = true → components key ≠ []) →
    ∃ t status, s.put key (.leaf text) replace = some (t, status) ∧ PutSpec s key (.leaf text) t status
  get : ∀ key, components key ≠ [] → ∃ data, s.get key = some data
  first : ∃ listed, Walk .first s listed ∧ Listing s [] id listed
  cursor : ∀ key sub, components key ≠ [] → s.get key = some (.table sub) → ∃ listed, Walk (.cursor key) s listed ∧
      Listing s (components key) (fun k => key ++ ',' :: k) listed

section answers
variable {s t : SymTab} {key : Str} {data : Sym} {replace : Bool}

theorem put_cases (data : Sym) (s : SymTab) (named : replace = true → components key ≠ []) :
    (∃ after, putKeys data replace (components key) s.entries = (after, .ok) ∧ s.put key data replace =
        some ({ entries := after, cursor := s.detached (components key) }, .ok)) ∨
      ∃ status, status ≠ .ok ∧ s.put key data replace = some (s, status) := by
  have goes : ¬ (components key = [] ∧ replace = true) := fun both => named both.2 both.1
  rw [SymTab.put, symPut, if_neg goes]
  have refused : (putKeys data replace (components key) s.entries).2 ≠ .ok →
      (putKeys data replace (components key) s.entries).1 = s.entries :=
    put_keys_refused (components key) s.entries
  cases stored : putKeys data replace (components key) s.entries with
  | mk after status =>
    rw [stored] at refused
    cases status with
    | ok => exact Or.inl ⟨after, rfl, rfl⟩
    | exist =>
      obtain rfl : after = s.entries := refused (by simp)
      exact Or.inr ⟨.exist, by simp, rfl⟩
    | notDir =>
      obtain rfl : after = s.entries := refused (by simp)
      exact Or.inr ⟨.notDir, by simp, rfl⟩
    | inval =>
      obtain rfl : after = s.entries := refused (by simp)
      exact Or.inr ⟨.inval, by simp, rfl⟩

theorem stored_named {after : Table}
    (stored : putKeys data replace (components key) s.entries = (after, .ok)) :
    components key ≠ [] := by
  intro empty
  simp [empty, putKeys] at stored

theorem get_named (named : components key ≠ []) :
    s.get key = some ((getKeys (components key) s.entries).getD .null) := by
  rw [SymTab.get, symGet, if_neg named]

theorem get_nameless (empty : components key = []) : s.get key = none := by
  rw [SymTab.get, symGet, if_pos empty]

theorem put_meets_spec (text : Str) (named : replace = true → components key ≠ []) :
    ∃ t status, s.put key (.leaf text) replace = some (t, status) ∧ PutSpec s key (.leaf text) t status := by
  rcases put_cases (.leaf text) s named with
    ⟨after, stored, put⟩ | ⟨status, refused, put⟩
  · refine ⟨_, _, put, ?_⟩
    have some_keys := stored_named stored
    constructor
    case stored =>
      intro _
      rw [get_named some_keys, put_keys_get some_keys stored]
      rfl
    case others =>
      intro _ other other_named not_below not_above
      rw [get_named other_named, get_named other_named, put_keys_get_other not_below not_above stored]
    case appended =>
      intro _ path k ks split
      rw [split] at stored
      exact put_keys_order_above stored
    case cut =>
      intro _ path below
      rw [SymTab.order, put_keys_level_below some_keys below stored]
      rfl
    case kept =>
      intro _ path not_below not_above
      rw [SymTab.order, SymTab.order, put_keys_level_other not_below not_above stored]
    case refused => exact fun failed => absurd rfl failed
  · refine ⟨s, status, put, ?_⟩
    constructor
    case refused => exact fun _ _ => rfl
    all_goals exact fun ok => absurd ok refused

end answers

section walk
variable {s : SymTab}

theorem settle_node (path : List Str) (index : Nat) :
    s.settle (.node path index) =
      match (level path s.entries).drop index with
      | [] => ({ s with cursor := .null }, .noMore)
      | (key, data) :: _ => ({ s with cursor := .node path index }, .entry key data) := rfl

theorem walk_rest (path : List Str) (more : Table) : ∀ (index : Nat) (flag : Flag) (s : SymTab),
    s.seq flag = some (s.settle (.node path index)) → (level path s.entries).drop index = more → Walk flag s more := by
  induction more with
  | nil =>
    intro index flag s here rest
    refine .noMore (t := { s with cursor := .null }) ?_
    rw [here, settle_node, rest]
  | cons entry more ih =>
    intro index flag s here rest
    obtain ⟨k, d⟩ := entry
    refine .entry (t := { s with cursor := .node path index }) ?_ ?_
    · rw [here, settle_node, rest]
    · refine ih (index + 1) .next _ rfl ?_
      rw [List.drop_add_one_eq_tail_drop, rest, List.tail_cons]

theorem get_keys_path {path : List Str} {k : Str} {sub entries : Table}
    (some_path : path ≠ []) (there : getKeys path entries = some (.table sub)) :
    level path entries = sub ∧ getKeys (path ++ [k]) entries = find k sub := by
  induction path generalizing entries with
  | nil => exact absurd rfl some_path
  | cons p path ih =>
    rw [List.cons_append, get_keys_cons (by simp), level]
    cases path with
    | nil =>
      rw [get_keys_single] at there
      rw [there, List.nil_append]
      exact ⟨rfl, get_keys_single⟩
    | cons q path =>
      rw [get_keys_cons (by simp)] at there
      obtain ⟨table, inner, deeper⟩ := Option.bind_eq_some_iff.mp there
      rw [inner]
      exact ih (by simp) deeper

theorem component_append (key : Str) {k : Str} (word : Word k) :
    components (key ++ ',' :: k) = components key ++ [k] := by
  rw [components, tokens_append (by simp)]
  exact congrArg _ (components_single word.1 word.2)

theorem walk_first (before : WellKeyed (.table s.entries)) :
    ∃ listed, Walk .first s listed ∧ Listing s [] id listed := by
  refine ⟨s.entries, walk_rest [] _ 0 .first s rfl rfl, ?_⟩
  cases before with
  | table _ nodup words _ =>
    refine ⟨rfl, nodup, ?_⟩
    intro entry mem
    have single := components_single (words entry mem).1 (words entry mem).2
    have found : find entry.1 s.entries = some entry.2 := (mem_iff_find nodup).mp mem
    rw [id_eq, get_named (by simp [single]), single, get_keys_single, found]
    rfl

theorem walk_cursor {key : Str} {sub : Table} (before : WellKeyed (.table s.entries))
    (named : components key ≠ []) (there : s.get key = some (.table sub)) :
    ∃ listed, Walk (.cursor key) s listed ∧ Listing s (components key) (fun k => key ++ ',' :: k) listed := by
  have starts : s.seq (.cursor key) = some (s.settle (.node (components key) 0)) := by
    rw [SymTab.seq, there]
    rfl
  have found : getKeys (components key) s.entries = some (.table sub) := by
    rw [get_named named] at there
    cases inner : getKeys (components key) s.entries with
    | none => simp [inner] at there
    | some old => simpa [inner] using there
  have sublevel := (get_keys_path (k := key) named found).1
  have inner : WellKeyed (.table (level (components key) s.entries)) := level_well_keyed before
  rw [sublevel] at inner
  refine ⟨sub, walk_rest (components key) sub 0 (.cursor key) s starts sublevel, ?_⟩
  cases inner with
  | table _ nodup words _ =>
    refine ⟨by rw [SymTab.order, sublevel], nodup, ?_⟩
    intro entry mem
    have path := component_append key (words entry mem)
    have here : find entry.1 sub = some entry.2 := (mem_iff_find nodup).mp mem
    rw [get_named (by simp [path]), path, (get_keys_path named found).2, here]
    rfl

theorem well_keyed_is_map (before : WellKeyed (.table s.entries)) : IsMap s where
  put _ text _ named := put_meets_spec text named
  get _ named := ⟨_, get_named named⟩
  first := walk_first before
  cursor _ _ named there := walk_cursor before named there

end walk

section runs
variable {c : Call} {s t : SymTab}

theorem settle_entries (s : SymTab) (c : Cursor) : (s.settle c).1.entries = s.entries := by
  rw [SymTab.settle]
  split <;> rfl

theorem seq_entries {flag : Flag} {answer : Answer} (moved : s.seq flag = some (t, answer)) :
    t.entries = s.entries := by
  have settled {c : Cursor} (same : some (s.settle c) = some (t, answer)) :
      t.entries = s.entries := by
    have entries := settle_entries s c
    rw [Option.some.inj same] at entries
    exact entries
  cases flag with
  | first => exact settled moved
  | next =>
    rw [SymTab.seq] at moved
    split at moved
    · simp only [Option.some.injEq, Prod.mk.injEq] at moved
      rw [← moved.1]
    · exact settled moved
    · exact settled moved
  | cursor key =>
    obtain ⟨found, _, moved⟩ := Option.bind_eq_some_iff.mp moved
    cases found with
    | table sub => exact settled moved
    | null =>
      simp only [Option.some.injEq, Prod.mk.injEq] at moved
      rw [← moved.1]
    | leaf text =>
      simp only [Option.some.injEq, Prod.mk.injEq] at moved
      rw [← moved.1]

theorem call_well_keyed (plain : c.Plain) (before : WellKeyed (.table s.entries))
    (called : call c s = some t) : WellKeyed (.table t.entries) := by
  cases c with
  | get key =>
    obtain ⟨_, _, rfl⟩ := Option.map_eq_some_iff.mp called
    exact before
  | seq flag =>
    obtain ⟨moved, there, rfl⟩ := Option.map_eq_some_iff.mp called
    rw [seq_entries there]
    exact before
  | put key data replace =>
    obtain ⟨answer, put, rfl⟩ := Option.map_eq_some_iff.mp called
    obtain ⟨text, rfl⟩ := plain
    by_cases nameless : components key = [] ∧ replace = true
    · rw [SymTab.put, symPut, if_pos nameless] at put
      cases put
    · rw [not_and'] at nameless
      rcases put_cases (.leaf text) s nameless with
        ⟨after, stored, done⟩ | ⟨status, _, done⟩
      · obtain rfl := Option.some.inj (put.symm.trans done)
        exact put_keys_well_keyed (.leaf text) (fun _ mem => component_word mem) before stored
      · obtain rfl := Option.some.inj (put.symm.trans done)
        exact before

theorem named_call (named : c.Named) (s : SymTab) : ∃ t, call c s = some t := by
  cases c with
  | put key data replace =>
    rcases put_cases data s named with ⟨_, _, put⟩ | ⟨_, _, put⟩
    · exact ⟨_, by rw [call, put, Option.map_some]⟩
    · exact ⟨_, by rw [call, put, Option.map_some]⟩
  | get key => exact ⟨s, by rw [call, get_named named, Option.map_some]⟩
  | seq flag =>
    cases flag with
    | first => exact ⟨_, rfl⟩
    | next =>
      rw [call, SymTab.seq]
      split <;> exact ⟨_, rfl⟩
    | cursor key =>
      rw [call, SymTab.seq, get_named named, Option.bind_eq_bind, Option.bind_some]
      split <;> exact ⟨_, rfl⟩

theorem call_named (called : call c s = some t) : c.Named := by
  cases c with
  | put key data replace =>
    rintro rfl empty
    simp [call, SymTab.put, symPut, empty] at called
  | get key =>
    intro empty
    rw [call, get_nameless empty] at called
    cases called
  | seq flag =>
    cases flag with
    | first => trivial
    | next => trivial
    | cursor key =>
      intro empty
      rw [call, SymTab.seq, get_nameless empty] at called
      cases called

theorem named_run {calls : List Call} (named : ∀ c ∈ calls, c.Named) (s : SymTab) :
    ∃ t, Machine.run call calls s = some t := by
  induction calls generalizing s with
  | nil => exact ⟨s, rfl⟩
  | cons c calls ih =>
    obtain ⟨here, rest⟩ := List.forall_mem_cons.mp named
    obtain ⟨t, called⟩ := named_call here s
    rw [Machine.run, called, Option.bind_some]
    exact ih rest t

theorem run_named {calls : List Call} (ran : Machine.run call calls s = some t) :
    ∀ c ∈ calls, c.Named := by
  induction calls generalizing s with
  | nil => simp
  | cons c calls ih =>
    obtain ⟨u, called, rest⟩ := Machine.run_cons ran
    exact List.forall_mem_cons.mpr ⟨call_named called, ih rest⟩

theorem run_well_keyed {calls : List Call} (plain : ∀ c ∈ calls, c.Plain)
    (before : WellKeyed (.table s.entries)) (ran : Machine.run call calls s = some t) :
    WellKeyed (.table t.entries) := by
  induction calls generalizing s with
  | nil =>
    obtain rfl := Option.some.inj ran
    exact before
  | cons c calls ih =>
    obtain ⟨u, called, rest⟩ := Machine.run_cons ran
    obtain ⟨here, plain⟩ := List.forall_mem_cons.mp plain
    exact ih plain (call_well_keyed here before called) rest

end runs
end VteSymbolMap
