import Vte.Base.Lexer
import Vte.Pan.TagReport

/-!
pan/scan.l: the rules of the scanner and their actions, and `scanner_test_end` of pan/reporter.c.
An outer `none` stands for undefined behaviour in an action.
-/
namespace VteScan
open Text Lexer VteSymbol VteTagReport

inductive Start where
  | initial
  | key
  | out
  | cuts
  deriving DecidableEq

inductive ScanMode where
  | outside
  | rtsKey
  | tstKey
  | output
  deriving DecidableEq

/-- The return tokens; one for each action, and SPACE for the rules that only skip. -/
inductive Token where
  | kwStart
  | kwEnd
  | testStart
  | testOutput
  | execStatus
  | testEnd
  | keywordQuoted
  | keyword
  | textLine
  | cutsResult
  | cutsResultR
  | space
  deriving DecidableEq

def isAlpha (c : Char) : Bool := c.isAlpha
def isWord (c : Char) : Bool := c.isAlphanum || c == '_' || c == '-'
def isKey (c : Char) : Bool := c.isAlpha || c == '_' || c == '-'
def isText (c : Char) : Bool := c != '\n'
def isQuotable (c : Char) : Bool := c != '"' && c != '\n'
def isBare (c : Char) : Bool := c != '\t' && c != ' ' && c != '\n'
def isLayout (c : Char) : Bool := c == ' ' || c == '\t' || c == '\n'

def marker (name : Str) : Str := "<<<".toList ++ name ++ ">>>".toList

def markerRule (name : Str) (token : Token) : Rule Start Token :=
  ⟨none, true, literal (marker name), true, token⟩

def cutsPattern : List Atom :=
  [.many isWord, .many isBlank, .many Char.isDigit, .many isBlank, .many isAlpha, .many isBlank, .one (· == ':')]

def cutsRangePattern : List Atom :=
  [.many isWord, .many isBlank, .many Char.isDigit, .one (· == '-'), .many Char.isDigit,
    .many isBlank, .many isAlpha, .many isBlank, .one (· == ':')]

def markerRules : List (Rule Start Token) :=
  [markerRule "rts_keyword_start".toList .kwStart, markerRule "rts_keyword_end".toList .kwEnd,
    markerRule "test_start".toList .testStart,
    markerRule "test_output".toList .testOutput,
    markerRule "execution_status".toList .execStatus,
    markerRule "test_end".toList .testEnd]

def quotedPattern : List Atom :=
  [.many isKey, .one (· == '='), .one (· == '"'), .many isQuotable, .one (· == '"')]

def barePattern : List Atom := [.many isKey, .one (· == '='), .many isBare]

def keyRules : List (Rule Start Token) :=
  [⟨some .key, false, quotedPattern, false, .keywordQuoted⟩, ⟨some .key, false, barePattern, false, .keyword⟩,
    ⟨some .key, false, [.star isLayout], false, .space⟩]

def outRules : List (Rule Start Token) := [⟨some .out, true, [.many isText], true, .textLine⟩]

def cutsRules : List (Rule Start Token) :=
  [⟨some .cuts, true, cutsPattern, false, .cutsResult⟩, ⟨some .cuts, true, cutsRangePattern, false, .cutsResultR⟩]

def anyRules : List (Rule Start Token) :=
  [⟨none, false, [.one isText], false, .space⟩, ⟨none, false, [.one (· == '\n')], false, .space⟩]

def rules : List (Rule Start Token) :=
  markerRules ++ (keyRules ++ (outRules ++ (cutsRules ++ anyRules)))

structure State where
  start : Start
  atBol : Bool
  scanMode : ScanMode
  keys : Option Table
  ctag : Option Table
  alltags : Table
  yylineno : Nat
  notag : Nat
  /-- The PARSE ERROR messages: line, mode found and modes expected. -/
  errors : List (Nat × ScanMode × List ScanMode)

def init : State := ⟨.initial, true, .outside, none, none, [], 1, 0, []⟩

def checkMode (s : State) (expected : List ScanMode) : State :=
  if s.scanMode ∈ expected then s
  else { s with errors := s.errors ++ [(s.yylineno, s.scanMode, expected)] }

def lower (s : Str) : Str := s.map Char.toLower

/-- `test_output`: enter CUTS for `strncasecmp("cuts", at, 4) == 0`. -/
def testOutput (s : State) : Option State := do
  match ← symGet s.keys "analysis".toList with
  | .leaf analysis =>
    return if lower (analysis.take 4) = "cuts".toList then { s with start := .cuts } else s
  | .null => return s
  | .table _ => none

def put (sym : Option Table) (key : Str) (data : Sym) (replace : Bool) : Option (Option Table) :=
  (symPut sym key data replace).map Prod.fst

def tagName (keys : Option Table) (notag : Nat) : Option (Str × Option Table × Nat) := do
  match ← symGet keys "tag".toList with
  | .leaf tag => return (tag, keys, notag)
  | .null =>
    let tag := "no_tag_".toList ++ decimal notag
    return (tag, ← put keys "tag".toList (.leaf tag) false, notag + 1)
  | .table _ => none

def isTaken (old status : Sym) : Bool :=
  match old, status with
  | .null, _ => true
  | _, .leaf status => status = "ok".toList
  | _, _ => false

def insertTag (s : State) (tag : Str) (ctag : Option Table) (old status : Sym) :
    Option (Option Table) :=
  if isTaken old status then put (some s.alltags) tag (.table (ctag.getD [])) true
  else some (some s.alltags)

/-- `scanner_test_end`. The keys are part of the tag from the start, so a tag made up later is seen
    there too. -/
def scannerTestEnd (s : State) : Option State := do
  match s.ctag, s.keys with
  | some ctag, some keys =>
    let (tag, keys, notag) ← tagName (some keys) s.notag
    let ctag ← put (some ctag) "_keys".toList (.table (keys.getD [])) false
    let old ← symGet (some s.alltags) tag
    let status ← symGet keys "initiation_status".toList
    let alltags ← insertTag s tag ctag old status
    return { s with alltags := alltags.getD [], notag := notag }
  | _, _ => return s

def keyword (yytext : Str) : Str × Str :=
  (yytext.takeWhile (· != '='), (yytext.dropWhile (· != '=')).drop 1)

def keywordQuoted (yytext : Str) : Str × Str :=
  let (key, cont) := keyword yytext
  let cont := if cont.head? = some '"' then cont.drop 1 else cont
  (key, if yytext.getLast? = some '"' then cont.dropLast else cont)

def action (token : Token) (yytext : Str) (s : State) : Option State :=
  match token with
  | .kwStart =>
    let s := checkMode { s with start := .key } [.outside]
    some { s with scanMode := .rtsKey, keys := some [] }
  | .kwEnd => do
    let s := checkMode { s with start := .initial } [.rtsKey]
    let rts := match s.keys with | some keys => Sym.table keys | none => .null
    let alltags ← put (some s.alltags) "_RTS".toList rts true
    return { s with scanMode := .outside, alltags := alltags.getD [], keys := none }
  | .testStart => do
    let s := checkMode { s with start := .key } [.outside]
    let keys ← put (some []) "_Start_line".toList (.leaf (decimal s.yylineno)) false
    return { s with scanMode := .tstKey, keys := keys, ctag := some [] }
  | .testOutput =>
    let s := checkMode { s with start := .out } [.tstKey]
    testOutput { s with scanMode := .output }
  | .execStatus =>
    let s := checkMode { s with start := .key } [.tstKey, .output]
    some { s with scanMode := .tstKey }
  | .testEnd => do
    let s := checkMode { s with start := .initial } [.tstKey]
    let keys ← put s.keys "_End_line".toList (.leaf (decimal s.yylineno)) false
    let s ← scannerTestEnd { s with scanMode := .outside, keys := keys }
    return { s with keys := none, ctag := none }
  | .keywordQuoted => do
    let keys ← put s.keys (keywordQuoted yytext).1 (.leaf (keywordQuoted yytext).2) false
    return { s with keys := keys }
  | .keyword => do
    let keys ← put s.keys (keyword yytext).1 (.leaf (keyword yytext).2) false
    return { s with keys := keys }
  | .cutsResult | .cutsResultR => do
    let ctag ← cutsTestcase s.ctag yytext
    return { s with ctag := ctag }
  | .textLine | .space => some s

/-- What `lex` does between the match and the action. -/
def advance (yytext : Str) (s : State) : State :=
  { s with
    yylineno := s.yylineno + yytext.count '\n'
    atBol := yytext.getLast? = some '\n' }

/-- `while(yylex());` with fuel for the matches; a match of length 0 would repeat for ever. -/
def scanWith : Nat → Str → State → Option State
  | _, [], s => some s
  | 0, _ :: _, _ => none
  | fuel + 1, c :: cs, s =>
    match select rules s.start s.atBol (c :: cs) with
    | none => none
    | some (token, n) =>
      if n = 0 then none
      else
        let yytext := (c :: cs).take n
        (action token yytext (advance yytext s)).bind (scanWith fuel ((c :: cs).drop n))

def scan (text : Str) (s : State) : Option State := scanWith text.length text s

end VteScan
