import Vte.Pan.Symbol

/-!
pan/tag_report.c: the verdicts on the test cases of a tag. A verdict is what `cuts_report` passes to
`test_result`; an outer `none` stands for undefined behaviour.
-/
namespace VteTagReport
open Text Assoc VteSymbol

def keySize : Nat := 255

/-- The table of `worst_case`, from worst to best. -/
def worst : List Str :=
  ["FAIL".toList, "BROK".toList, "PASS".toList, "CONF".toList, "WARN".toList, "INFO".toList]

def worstCase (t1 t2 : Str) : Str := if worst.idxOf t1 < worst.idxOf t2 then t1 else t2

def isBlank (c : Char) : Bool := c == '\t' || c == ' '

/-- `key` and the status in `cuts_info`, where the key fits its buffer. -/
def cutsInfo (yytext : Str) : Option (Str × Str) :=
  match tokens isBlank yytext with
  | tcid :: tc :: result :: _ =>
    let key := tcid ++ ',' :: tc
    if key.length < keySize then some (key, result) else none
  | _ => none

def cutsTestcase (tag : Option Table) (yytext : Str) : Option (Option Table) := do
  let (key, result) ← cutsInfo yytext
  let old ← symGet tag key
  match old with
  | .leaf oldresult =>
    let (tag, _) ← symPut tag key (.leaf (worstCase oldresult result)) true
    return tag
  | .null =>
    let (tag, _) ← symPut tag key (.leaf result) false
    return tag
  -- a table would be read as a string
  | .table _ => none

structure Verdict where
  tcid : Str
  tc : Str
  result : Str
  deriving DecidableEq

/-- One line of `test_result` for each contact; blanks in the status become underscores. -/
def testResult (tag : Str) (v : Verdict) (keys : Option Table) : Option (List Str) := do
  let expert ← symGet keys "contacts".toList
  let contacts ← match expert with
    | .leaf contacts => some contacts
    | .null => some "UNKNOWN".toList
    | .table _ => none
  let result := if v.result = [] then "?".toList else v.result.map fun c => if c = ' ' then '_' else c
  return (tokens (· == ',') contacts).map fun contact =>
    padRight 20 (tag.take 20) ++ ' ' :: padRight 15 (v.tcid.take 15) ++ ' ' ::
      padLeft 10 (v.tc.take 10) ++ ' ' :: padRight 20 (result.take 20) ++ ' ' :: contact ++ ['\n']

/-- The loop variables of `cuts_report`. -/
structure Tally where
  verdicts : List Verdict
  result : Str
  tcnum : Nat

def tallyCase (tcid : Str) (t : Tally) (entry : Str × Sym) : Option Tally :=
  match entry.2 with
  | .leaf data => some
    { verdicts := t.verdicts ++ [⟨tcid, entry.1, data⟩]
      result := worstCase t.result data
      tcnum := if atoi entry.1 ≠ 0 then t.tcnum + 1 else t.tcnum }
  | _ => none

/-- `sym_seq(tags, .., R_CURSOR)` and the loop over the test cases of one TCID. -/
def tallyTcid (tags : Table) (t : Tally) (tcid : Str) : Option Tally :=
  if tcid.length < keySize then
    match symGet (some tags) tcid with
    | some (.table (entry :: entries)) => (entry :: entries).foldlM (tallyCase tcid) t
    | _ => none
  else none

def tcidList (tags : Table) : List Str := (keys tags).filter fun tcid => tcid ≠ "_keys".toList

/-- The expected count in an analysis type `cuts:count`. -/
def tcCount (analysis : Str) : Int :=
  match tokens (· == ':') analysis with
  | _ :: count :: _ => atoi count
  | _ => 0

/-- An empty table would leave the key of `sym_seq` unset. -/
def cutsReport (tags : Table) (analysis : Str) : Option (List Verdict) :=
  match tags with
  | [] => none
  | _ :: _ => do
    let t ← (tcidList tags).foldlM (tallyTcid tags) ⟨[], [], 0⟩
    let wrong := tcCount analysis ≠ 0 ∧ tcCount analysis ≠ t.tcnum
    return t.verdicts ++ ⟨"*".toList, "*".toList, t.result⟩ ::
      if wrong then [⟨"-".toList, "-".toList, "TC count wrong".toList⟩] else []

theorem tokens_blank {word blanks : Str} (plain : word ≠ [] ∧ ∀ c ∈ word, isBlank c = false)
    (blank : blanks ≠ [] ∧ ∀ c ∈ blanks, isBlank c = true) (rest : Str) :
    tokens isBlank (word ++ (blanks ++ rest)) = word :: tokens isBlank rest := by
  have ends : ∀ c ∈ (blanks ++ rest).head?, isBlank c = true := by
    obtain ⟨some_blank, blank⟩ := blank
    cases blanks with
    | nil => exact absurd rfl some_blank
    | cons c cs =>
      intro d head
      obtain rfl : c = d := by simpa using head
      exact blank c (by simp)
  rw [tokens_word plain.1 plain.2 ends, tokens_separators blank.2]

end VteTagReport
