import AtlasDb.Bdd.Models
import AtlasDb.Governance.Migrations

/-!
# Gherkin texts

`bdd/gherkin.py`, the canonical form and the digest of an artifact, and `testkit/gherkin.py`, the
parser of the generated subset. `repr` in a message is the text between apostrophes.
-/

namespace AtlasDb.Bdd

open Core Core.Text
open Text (isLineBreak)

/-! ## The canonical form -/

/-- `value.replace("\r\n", "\n").replace("\r", "\n")`. -/
def unifyNewlines : List Char → List Char
  | [] => []
  | '\r' :: '\n' :: cs => '\n' :: unifyNewlines cs
  | c :: cs => (if c = '\r' then '\n' else c) :: unifyNewlines cs

/-- `line.rstrip(" \t")`. -/
def rstripBlanks (line : List Char) : List Char :=
  (line.reverse.dropWhile fun c => c = ' ' || c = '\t').reverse

/-- The lines without the empty ones at the end. -/
def dropEmptyTail (lines : List (List Char)) : List (List Char) :=
  (lines.reverse.dropWhile List.isEmpty).reverse

/-- `canonical_gherkin_text`. -/
def canonicalGherkinText (nfc : Nfc) (value : List Char) : Except PyError (List Char) :=
  let normalized := unifyNewlines (nfc.normalize (String.ofList value)).toList
  let lines := dropEmptyTail ((normalized.splitOn '\n').map rstripBlanks)
  if lines = [] then .error (.valueError "Gherkin artifact cannot be empty.")
  else if lines.any fun line => line.contains '\x00' then
    .error (.valueError "Gherkin artifact contains a NUL character.")
  else .ok (['\n'].intercalate lines ++ ['\n'])

/-- `gherkin_digest`. -/
def gherkinDigest (nfc : Nfc) (value : List Char) : Except PyError String := do
  let canonical ← canonicalGherkinText nfc value
  return sha256Digest (utf8 canonical)

/-! ## The parser -/

inductive StepKeyword where
  | given
  | when
  | then
  | and
  | but
deriving DecidableEq

def StepKeyword.text : StepKeyword → List Char
  | .given => "Given".toList
  | .when => "When".toList
  | .then => "Then".toList
  | .and => "And".toList
  | .but => "But".toList

/-- `STEP_KEYWORDS`. -/
def stepKeywords : List StepKeyword := [.given, .when, .then, .and, .but]

structure GherkinStep where
  keyword : StepKeyword
  text : List Char
  line : Nat
deriving DecidableEq

structure GherkinScenario where
  name : List Char
  tags : List (List Char)
  steps : List GherkinStep
  line : Nat
deriving DecidableEq

structure GherkinDocument where
  featureName : List Char
  scenarios : List GherkinScenario
deriving DecidableEq

/-- The variables of `GherkinParser.parse`. -/
structure ParserState where
  featureName : Option (List Char)
  scenarios : List GherkinScenario
  pendingTags : List (List Char)
  currentName : Option (List Char)
  currentLine : Nat
  currentTags : List (List Char)
  currentSteps : List GherkinStep

def ParserState.initial : ParserState := ⟨none, [], [], none, 0, [], []⟩

/-- `flush`: the scenario read so far is complete. -/
def flush (s : ParserState) : Except PyError ParserState :=
  match s.currentName with
  | none => .ok s
  | some name =>
    if !(s.currentSteps.any fun step => step.keyword = .when) then
      .error (.valueError ("Scenario '" ++ String.ofList name ++ "' has no When step"))
    else if !(s.currentSteps.any fun step => step.keyword = .then) then
      .error (.valueError ("Scenario '" ++ String.ofList name ++ "' has no Then step"))
    else .ok
      { s with
        scenarios := s.scenarios ++ [⟨name, s.currentTags, s.currentSteps, s.currentLine⟩]
        currentName := none
        currentSteps := []
        currentTags := [] }

def startsWith (line : List Char) (start : String) : Bool := start.toList.isPrefixOf line

/-- `line.partition(":")[2].strip()`. -/
def titleOf (line : List Char) : List Char := strip ((line.dropWhile (· ≠ ':')).drop 1)

/-- The first keyword the line starts with, a blank after it. -/
def stepKeyword (line : List Char) : Option StepKeyword :=
  stepKeywords.find? fun keyword => (keyword.text ++ [' ']).isPrefixOf line

def readFeature (s : ParserState) (line : List Char) : Except PyError ParserState :=
  if s.featureName.isSome then
    .error (.valueError "Only one Feature is allowed per generated feature file")
  else if titleOf line = [] then .error (.valueError "Feature name cannot be blank")
  else .ok { s with featureName := some (titleOf line) }

def readScenario (s : ParserState) (number : Nat) (line : List Char) :
    Except PyError ParserState :=
  match flush s with
  | .error error => .error error
  | .ok s =>
    if titleOf line = [] then .error (.valueError "Scenario name cannot be blank")
    else .ok
      { s with
        currentName := some (titleOf line)
        currentLine := number
        currentTags := s.pendingTags
        pendingTags := [] }

def readStep (s : ParserState) (number : Nat) (line : List Char) (keyword : StepKeyword) :
    Except PyError ParserState :=
  if s.currentName = none then
    .error (.valueError ("Step outside a scenario at line " ++ toString number))
  else .ok
    { s with
      currentSteps :=
        s.currentSteps ++ [⟨keyword, line.drop (keyword.text.length + 1), number⟩] }

/-- One round of the loop over the lines. -/
def readLine (s : ParserState) (number : Nat) (raw : List Char) : Except PyError ParserState :=
  let line := strip raw
  if line = [] ∨ startsWith line "#" then .ok s
  else if startsWith line "@" then
    .ok { s with
      pendingTags := s.pendingTags ++ (split line).filter fun part => startsWith part "@" }
  else if startsWith line "Feature:" then readFeature s line
  else if startsWith line "Scenario:" ∨ startsWith line "Scenario Outline:" then
    readScenario s number line
  else match stepKeyword line with
    | some keyword => readStep s number line keyword
    | none =>
      if ["Rule:", "Background:", "Examples:", "|"].any (startsWith line) then .ok s
      -- descriptions are allowed before the first scenario
      else if s.currentName = none then .ok s
      else .error (.valueError ("Unsupported generated Gherkin syntax at line " ++
        toString number ++ ": " ++ String.ofList line))

def readLines (s : ParserState) (number : Nat) : List (List Char) → Except PyError ParserState
  | [] => .ok s
  | raw :: lines => do
      let s ← readLine s number raw
      readLines s (number + 1) lines

/-- `str.splitlines()`. `line` is the line read so far, backwards. -/
def linesAux (line : List Char) : List Char → List (List Char)
  | [] => if line = [] then [] else [line.reverse]
  | '\r' :: '\n' :: cs => line.reverse :: linesAux [] cs
  | c :: cs => if isLineBreak c then line.reverse :: linesAux [] cs else linesAux (c :: line) cs

def lines (text : List Char) : List (List Char) := linesAux [] text

/-- `GherkinParser.parse`. -/
def parseGherkin (text : List Char) : Except PyError GherkinDocument := do
  let s ← readLines ParserState.initial 1 (lines text)
  let s ← flush s
  match s.featureName with
  | none => .error (.valueError "Feature declaration is required")
  | some featureName =>
    if s.scenarios = [] then .error (.valueError "At least one scenario is required")
    else if ¬ (s.scenarios.map GherkinScenario.name).Nodup then
      .error (.valueError "Scenario names must be unique within a feature")
    else .ok ⟨featureName, s.scenarios⟩

end AtlasDb.Bdd
